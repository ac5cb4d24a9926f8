import Nfql.GreedyRuns
import Mathlib.Data.List.Chain

set_option autoImplicit false

/- Greedy runs of a list sorted by two keys: class by class of the first, and never
splitting a class of both. -/
namespace GreedyRuns

variable {α β κ ρ : Type}

section Related

variable {R : α → β → Prop} {accept : List α → α → Bool} {accept' : List β → β → Bool}

private theorem runsFrom_related
    (respects : ∀ group group' item item', List.Forall₂ R group group' → R item item' →
      accept group item = accept' group' item')
    (group : List α) (group' : List β) (items : List α) (items' : List β)
    (started : List.Forall₂ R group group') (related : List.Forall₂ R items items') :
    List.Forall₂ (List.Forall₂ R) (runsFrom accept group items) (runsFrom accept' group' items') := by
  induction related generalizing group group' with
  | nil => exact .cons started .nil
  | cons head _ ih =>
      simp only [runsFrom, respects _ _ _ _ started head]
      split
      · exact ih _ _ (List.rel_append started (.cons head .nil))
      · exact .cons started (ih _ _ (.cons head .nil))

/-- Scans that cannot tell related items apart make related runs. -/
theorem runs_related
    (respects : ∀ group group' item item', List.Forall₂ R group group' → R item item' →
      accept group item = accept' group' item')
    (items : List α) (items' : List β) (related : List.Forall₂ R items items') :
    List.Forall₂ (List.Forall₂ R) (runs accept items) (runs accept' items') := by
  cases related with
  | nil => exact .nil
  | cons head rest => exact runsFrom_related respects _ _ _ _ (.cons head .nil) rest

end Related

section Classes

variable {key : α → κ} {accept inner : List α → α → Bool}

/-- Within a class of the key the scan is another one, and it stops at its end. -/
def Refines (accept inner : List α → α → Bool) (key : α → κ) : Prop :=
  ∀ group item value, group ≠ [] → (∀ member ∈ group, key member = value) →
    (accept group item = true ↔ key item = value ∧ inner group item = true)

private theorem runsFrom_class (refines : Refines accept inner key) (value : κ)
    (group first rest : List α) (started : group ≠ []) (shared : ∀ a ∈ group, key a = value)
    (same : ∀ a ∈ first, key a = value) (differ : ∀ a ∈ rest, key a ≠ value) :
    runsFrom accept group (first ++ rest) = runsFrom inner group first ++ runs accept rest := by
  induction first generalizing group with
  | nil =>
      cases rest with
      | nil => rfl
      | cons item rest =>
          have rejected : ¬ accept group item = true := by
            rw [refines group item value started shared]
            exact fun accepted => differ item (by simp) accepted.1
          simp only [List.nil_append, runsFrom, rejected, Bool.false_eq_true, ↓reduceIte, runs,
            List.cons_append]
  | cons item first ih =>
      have sameItem := same item (by simp)
      have agree : accept group item = inner group item := by
        rw [Bool.eq_iff_iff, refines group item value started shared]
        exact ⟨fun both => both.2, fun accepted => ⟨sameItem, accepted⟩⟩
      have sameFirst := fun a member => same a (List.mem_cons_of_mem item member)
      rw [List.cons_append, runsFrom, runsFrom, agree]
      split
      · apply ih _ (by simp) _ sameFirst
        intro a member
        rcases List.mem_append.mp member with old | new
        · exact shared a old
        · rw [List.mem_singleton.mp new, sameItem]
      · rw [ih [item] (by simp) (by simpa using sameItem) sameFirst, List.cons_append]

theorem runs_class (refines : Refines accept inner key) (value : κ) (first rest : List α)
    (same : ∀ a ∈ first, key a = value) (differ : ∀ a ∈ rest, key a ≠ value) (given : first ≠ []) :
    runs accept (first ++ rest) = runs inner first ++ runs accept rest := by
  obtain ⟨item, first, rfl⟩ := List.exists_cons_of_ne_nil given
  exact runsFrom_class refines value [item] first rest (by simp)
    (by simpa using same item (by simp)) (fun a member => same a (by simp [member])) differ

variable [LinearOrder κ]

/-- A list sorted by a key starts with the class of its first item. -/
theorem sorted_classes (item : α) (rest : List α)
    (sorted : (item :: rest).Pairwise fun a b => key a ≤ key b) :
    item :: rest = (item :: rest).filter (fun a => key a = key item) ++
      (item :: rest).filter (fun a => key a ≠ key item) := by
  have split : ∀ items : List α, (∀ a ∈ items, key item ≤ key a) →
      items.Pairwise (fun a b => key a ≤ key b) →
      items = items.filter (fun a => key a = key item) ++
        items.filter (fun a => key a ≠ key item) := by
    intro items least sorted
    induction items with
    | nil => rfl
    | cons a items ih =>
        obtain ⟨below, sorted⟩ := List.pairwise_cons.mp sorted
        by_cases same : key a = key item
        · simp only [List.filter_cons, same, decide_true, ne_eq, not_true_eq_false, decide_false,
            ↓reduceIte, Bool.false_eq_true, List.cons_append, List.cons.injEq, true_and]
          exact ih (fun b member => least b (by simp [member])) sorted
        · have greater : key item < key a := lt_of_le_of_ne (least a (by simp)) (Ne.symm same)
          have none : ∀ b ∈ a :: items, key b ≠ key item := by
            intro b member
            rcases List.mem_cons.mp member with rfl | member
            · exact same
            · exact ne_of_gt (lt_of_lt_of_le greater (below b member))
          rw [List.filter_eq_nil_iff.mpr (by simpa using none),
            List.filter_eq_self.mpr (by simpa using none), List.nil_append]
  refine split _ ?_ sorted
  intro a member
  rcases List.mem_cons.mp member with rfl | member
  · exact le_refl _
  · exact (List.pairwise_cons.mp sorted).1 a member

/-- The runs of a list sorted by the key are those of its classes. -/
theorem runs_byClass (refines : Refines accept inner key) (items : List α)
    (sorted : items.Pairwise fun a b => key a ≤ key b) (group : List α) :
    group ∈ runs accept items ↔
      ∃ a ∈ items, group ∈ runs inner (items.filter fun b => key b = key a) := by
  induction length : items.length using Nat.strongRecOn generalizing items with
  | ind size ih =>
      cases items with
      | nil => simp [runs]
      | cons item rest =>
          have split := sorted_classes item rest sorted
          have shorter : ((item :: rest).filter fun a => key a ≠ key item).length < size := by
            rw [← length]
            refine List.length_filter_lt_length_iff_exists.mpr ⟨item, by simp, by simp⟩
          have others : ∀ a, key a ≠ key item →
              ((item :: rest).filter fun b => key b ≠ key item).filter (fun b => key b = key a) =
                (item :: rest).filter fun b => key b = key a := by
            intro a differ
            rw [List.filter_filter]
            apply List.filter_congr
            intro b _
            by_cases same : key b = key a
            · simp [same, differ]
            · simp [same]
          have runs_split := runs_class refines (key item)
            ((item :: rest).filter fun a => key a = key item)
            ((item :: rest).filter fun a => key a ≠ key item) (by simp) (by simp) (by simp)
          rw [← split] at runs_split
          rw [runs_split, List.mem_append, ih _ shorter _ (sorted.filter _) rfl]
          constructor
          · rintro (now | ⟨a, member, later⟩)
            · exact ⟨item, by simp, now⟩
            · obtain ⟨inside, differ⟩ := List.mem_filter.mp member
              rw [others a (by simpa using differ)] at later
              exact ⟨a, inside, later⟩
          · rintro ⟨a, inside, found⟩
            by_cases same : key a = key item
            · rw [same] at found
              exact .inl found
            · refine .inr ⟨a, List.mem_filter.mpr ⟨inside, by simpa using same⟩, ?_⟩
              rwa [others a same]

end Classes

section Unsplit

variable [LinearOrder ρ] {rank : α → ρ} {accept : List α → α → Bool}

/-- Where the rank increases between two neighbours of a sorted list, all items before are
below all items after. -/
theorem below_of_gap (init rest : List α) (last head : α)
    (sorted : ((init ++ [last]) ++ head :: rest).Pairwise fun a b => rank a ≤ rank b)
    (gap : rank last < rank head) :
    ∀ a ∈ init ++ [last], ∀ b ∈ head :: rest, rank a < rank b := by
  obtain ⟨inGroup, inLater, -⟩ := List.pairwise_append.mp sorted
  intro a memberA b memberB
  have top : rank a ≤ rank last := by
    rcases List.mem_append.mp memberA with early | final
    · exact (List.pairwise_append.mp inGroup).2.2 a early last (by simp)
    · rw [List.mem_singleton.mp final]
  have bottom : rank head ≤ rank b := by
    rcases List.mem_cons.mp memberB with rfl | member
    · exact le_refl _
    · exact (List.pairwise_cons.mp inLater).1 b (by simp [member])
  exact lt_of_le_of_lt top (lt_of_lt_of_le gap bottom)

/-- If no group is cut before an item that ties with its last member, all ties share a
group. -/
theorem ties_together (groups : List (List α)) (maximal : Maximal accept groups)
    (nonempty : ∀ group ∈ groups, group ≠ [])
    (sorted : groups.flatten.Pairwise fun a b => rank a ≤ rank b)
    (ties : ∀ group ∈ groups, ∀ a ∈ group.getLast?, ∀ b ∈ groups.flatten, rank b = rank a →
      [rank a, rank a].Sublist (groups.flatten.map rank) → accept group b = true) :
    groups.Pairwise fun group later => ∀ a ∈ group, ∀ b ∈ later, rank a < rank b := by
  let below (group later : List α) : Prop := later ≠ [] ∧ ∀ a ∈ group, ∀ b ∈ later, rank a < rank b
  have trans : Trans below below below := by
    refine ⟨fun first second => ⟨second.1, fun a memberA c memberC => ?_⟩⟩
    obtain ⟨b, memberB⟩ := List.exists_mem_of_ne_nil _ first.1
    exact (first.2 a memberA b memberB).trans (second.2 b memberB c memberC)
  suffices chain : groups.IsChain below from chain.pairwise.imp fun both => both.2
  rw [List.isChain_iff_forall_rel_of_append_cons_cons]
  intro group later front back split
  have cut := List.isChain_iff_forall_rel_of_append_cons_cons.mp maximal.cut split
  obtain ⟨head, rest, rfl⟩ := List.exists_cons_of_ne_nil (nonempty later (by simp [split]))
  obtain ⟨init, last, rfl⟩ := List.eq_nil_or_concat group |>.resolve_left
    (nonempty group (by simp [split]))
  rw [List.concat_eq_append] at split cut ⊢
  have flat : groups.flatten =
      front.flatten ++ ((init ++ [last]) ++ ((head :: rest) ++ back.flatten)) := by
    rw [split, List.flatten_append, List.flatten_cons, List.flatten_cons]
  rw [flat, ← List.append_assoc (init ++ [last])] at sorted
  have here := (List.pairwise_append.mp (List.pairwise_append.mp sorted).2.1).1
  have gap : rank last < rank head := by
    refine lt_of_le_of_ne ((List.pairwise_append.mp here).2.2 last (by simp) head (by simp))
      fun same => ?_
    have twice : [rank last, rank last].Sublist (groups.flatten.map rank) := by
      have pair : [last, head].Sublist groups.flatten := by
        rw [flat]
        refine List.Sublist.trans ?_ (List.sublist_append_right _ _)
        exact (List.sublist_append_right init [last]).append
          (List.Sublist.cons_cons head (List.nil_sublist _))
      have mapped := pair.map rank
      rwa [List.map_cons, List.map_singleton, ← same] at mapped
    have accepted := ties (init ++ [last]) (by simp [split]) last (by simp) head (by simp [flat])
      same.symm twice
    rw [cut head (by simp)] at accepted
    cases accepted
  exact ⟨by simp, below_of_gap init rest last head here gap⟩

end Unsplit

end GreedyRuns
