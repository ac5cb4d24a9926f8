import Mathlib.Data.List.Dedup
import Mathlib.Data.List.Forall2
import Mathlib.Data.List.Induction
import Mathlib.Order.Lattice
import Mathlib.Data.List.Pairwise

set_option autoImplicit false

/- Cutting a list into maximal runs by a greedy left-to-right scan, and the
classes the runs form when the list is sorted by a key. -/
namespace GreedyRuns

variable {α κ : Type}

/-- Grow `group` by the leading items it accepts, and return what is left. -/
def extend (accept : List α → α → Bool) (group : List α) : List α → List α × List α
  | [] => (group, [])
  | item :: rest =>
      if accept group item then extend accept (group ++ [item]) rest else (group, item :: rest)

/-- The runs of `items`, the first of which continues `group`. -/
def runsFrom (accept : List α → α → Bool) (group : List α) : List α → List (List α)
  | [] => [group]
  | item :: rest =>
      if accept group item then runsFrom accept (group ++ [item]) rest
      else group :: runsFrom accept [item] rest

def runs (accept : List α → α → Bool) : List α → List (List α)
  | [] => []
  | item :: rest => runsFrom accept [item] rest

theorem runsFrom_extend (accept : List α → α → Bool) (group items : List α) :
    runsFrom accept group items =
      (extend accept group items).1 :: runs accept (extend accept group items).2 := by
  induction items generalizing group with
  | nil => rfl
  | cons item rest ih =>
      by_cases accepted : accept group item
      · simp only [runsFrom, extend, accepted, ↓reduceIte, ih]
      · simp only [runsFrom, extend, accepted, Bool.false_eq_true, ↓reduceIte, runs]

theorem extend_suffix (accept : List α → α → Bool) (group items : List α) :
    (extend accept group items).2 <:+ items := by
  induction items generalizing group with
  | nil => exact List.suffix_refl []
  | cons item rest ih =>
      simp only [extend]
      split
      · exact (ih (group ++ [item])).trans (List.suffix_cons item rest)
      · exact List.suffix_refl _

theorem runsFrom_flatten (accept : List α → α → Bool) (group items : List α) :
    (runsFrom accept group items).flatten = group ++ items := by
  induction items generalizing group with
  | nil => simp [runsFrom]
  | cons item rest ih =>
      simp only [runsFrom]
      split
      · rw [ih, List.append_assoc, List.singleton_append]
      · rw [List.flatten_cons, ih, List.singleton_append]

/-- The runs are exactly the items, in order. -/
theorem runs_flatten (accept : List α → α → Bool) (items : List α) :
    (runs accept items).flatten = items := by
  cases items with
  | nil => rfl
  | cons item rest => exact runsFrom_flatten accept [item] rest

/-- An item is in one of the runs of its list. -/
theorem mem_runs (accept : List α → α → Bool) (items : List α) (item : α) :
    item ∈ items ↔ ∃ group ∈ runs accept items, item ∈ group := by
  rw [← List.mem_flatten, runs_flatten]

theorem runsFrom_ne_nil (accept : List α → α → Bool) (group items : List α)
    (started : group ≠ []) : ∀ run ∈ runsFrom accept group items, run ≠ [] := by
  induction items generalizing group with
  | nil =>
      intro run member
      rw [runsFrom, List.mem_singleton] at member
      rwa [member]
  | cons item rest ih =>
      simp only [runsFrom]
      split
      · exact ih (group ++ [item]) (by simp)
      · intro run member
        rcases List.mem_cons.mp member with rfl | later
        · exact started
        · exact ih [item] (by simp) run later

theorem runs_ne_nil (accept : List α → α → Bool) (items : List α) :
    ∀ run ∈ runs accept items, run ≠ [] := by
  cases items with
  | nil => intro run member; cases member
  | cons item rest => exact runsFrom_ne_nil accept [item] rest (by simp)

/-- A scan that accepts everything makes one run. -/
theorem runs_all (items : List α) (nonempty : items ≠ []) :
    runs (fun _ _ => true) items = [items] := by
  have from_group : ∀ rest group : List α, runsFrom (fun _ _ => true) group rest = [group ++ rest] := by
    intro rest
    induction rest with
    | nil => intro group; rw [runsFrom, List.append_nil]
    | cons item rest ih =>
        intro group
        rw [runsFrom, if_pos rfl, ih, List.append_assoc, List.singleton_append]
  obtain ⟨item, rest, rfl⟩ := List.exists_cons_of_ne_nil nonempty
  exact from_group rest [item]

/-- The groups a greedy scan leaves: it joined every item but the first of a group to
the items before it, and it could join no group to the head of the next. -/
structure Maximal (accept : List α → α → Bool) (groups : List (List α)) : Prop where
  joined : ∀ group ∈ groups, ∀ members item rest, group = members ++ item :: rest →
    members ≠ [] → accept members item = true
  cut : groups.IsChain fun group later => ∀ item ∈ later.head?, accept group item = false

theorem runsFrom_head (accept : List α → α → Bool) (first : α) (members items : List α) :
    ∃ group groups, runsFrom accept (first :: members) items = group :: groups ∧
      group.head? = some first := by
  induction items generalizing members with
  | nil => exact ⟨_, [], rfl, rfl⟩
  | cons item rest ih =>
      simp only [runsFrom, List.cons_append]
      split
      · exact ih (members ++ [item])
      · exact ⟨_, _, rfl, rfl⟩

private theorem runsFrom_maximal (accept : List α → α → Bool) (group items : List α)
    (joined : ∀ members item rest, group = members ++ item :: rest → members ≠ [] →
      accept members item = true) :
    Maximal accept (runsFrom accept group items) := by
  induction items generalizing group with
  | nil =>
      refine ⟨?_, List.IsChain.singleton _⟩
      intro run member
      rw [runsFrom, List.mem_singleton] at member
      subst run
      exact joined
  | cons item rest ih =>
      simp only [runsFrom]
      split
      · rename_i accepted
        refine ih (group ++ [item]) ?_
        intro members other behind same started
        rcases List.eq_nil_or_concat behind with rfl | ⟨front, last, rfl⟩
        · obtain ⟨rfl, ⟨⟩⟩ := List.append_inj' same rfl
          exact accepted
        · rw [List.concat_eq_append, ← List.cons_append, ← List.append_assoc] at same
          obtain ⟨before, -⟩ := List.append_inj' same rfl
          exact joined members other front before started
      · rename_i rejected
        have later := ih [item] (by
          intro members other behind same started
          obtain ⟨first, others, rfl⟩ := List.exists_cons_of_ne_nil started
          simp at same)
        obtain ⟨run, runs, same, head⟩ := runsFrom_head accept item [] rest
        refine ⟨?_, ?_⟩
        · intro other member
          rcases List.mem_cons.mp member with rfl | member
          · exact joined
          · exact later.joined other member
        · have chain := later.cut
          rw [same] at chain ⊢
          refine List.isChain_cons_cons.mpr ⟨?_, chain⟩
          intro first inside
          rw [head, Option.mem_some_iff] at inside
          subst first
          exact Bool.eq_false_iff.mpr rejected

/-- The runs of a scan are maximal. -/
theorem runs_maximal (accept : List α → α → Bool) (items : List α) :
    Maximal accept (runs accept items) := by
  cases items with
  | nil => exact ⟨by simp [runs], List.IsChain.nil⟩
  | cons item rest =>
      refine runsFrom_maximal accept [item] rest ?_
      intro members other behind same started
      obtain ⟨first, others, rfl⟩ := List.exists_cons_of_ne_nil started
      simp at same

/-- If members that share a key only accept items with that key, all members of a
group share it. -/
theorem Maximal.constant {accept : List α → α → Bool} {groups : List (List α)} {key : α → κ}
    (maximal : Maximal accept groups)
    (shares : ∀ group item value, group ≠ [] → (∀ member ∈ group, key member = value) →
      accept group item = true → key item = value) :
    ∀ group ∈ groups, ∀ a ∈ group, ∀ b ∈ group, key a = key b := by
  have constant : ∀ group : List α, (∀ members item rest, group = members ++ item :: rest →
      members ≠ [] → accept members item = true) → ∀ a ∈ group, ∀ b ∈ group, key a = key b := by
    intro group
    induction group using List.reverseRecOn with
    | nil => intro _ a member; cases member
    | append_singleton group last ih =>
        intro joined
        have inner := ih fun members item rest same started =>
          joined members item (rest ++ [last]) (by simp [same]) started
        rcases List.eq_nil_or_concat group with rfl | ⟨front, other, same⟩
        · simp
        · have started : group ≠ [] := by simp [same]
          have inside : other ∈ group := by simp [same]
          have lastKey := shares group last (key other) started
            (fun member memberIn => inner member memberIn other inside)
            (joined group last [] rfl started)
          have toOther : ∀ c ∈ group ++ [last], key c = key other := by
            intro c member
            rcases List.mem_append.mp member with old | new
            · exact inner c old other inside
            · rw [List.mem_singleton.mp new, lastKey]
          intro a memberA b memberB
          rw [toOther a memberA, toOther b memberB]
  exact fun group member => constant group (maximal.joined group member)

theorem length_le_flatten (groups : List (List α)) (nonempty : ∀ group ∈ groups, group ≠ []) :
    groups.length ≤ groups.flatten.length := by
  induction groups with
  | nil => exact Nat.zero_le _
  | cons group rest ih =>
      have positive := List.length_pos_iff.mpr (nonempty group (by simp))
      have later := ih fun other member => nonempty other (by simp [member])
      simp only [List.length_cons, List.flatten_cons, List.length_append]
      omega

theorem runs_length_le (accept : List α → α → Bool) (items : List α) :
    (runs accept items).length ≤ items.length := by
  have bound := length_le_flatten _ (runs_ne_nil accept items)
  rwa [runs_flatten] at bound

private theorem runsFrom_constant {accept : List α → α → Bool} {key : α → κ}
    (shares : ∀ group item, group ≠ [] → accept group item = true →
      ∃ member ∈ group, key member = key item)
    (group items : List α) (value : κ) (started : group ≠ [])
    (shared : ∀ member ∈ group, key member = value) :
    ∀ run ∈ runsFrom accept group items, ∀ a ∈ run, ∀ b ∈ run, key a = key b := by
  induction items generalizing group value with
  | nil =>
      intro run member a memberA b memberB
      rw [runsFrom, List.mem_singleton] at member
      subst run
      rw [shared a memberA, shared b memberB]
  | cons item rest ih =>
      simp only [runsFrom]
      split
      · rename_i accepted
        obtain ⟨member, inside, same⟩ := shares group item started accepted
        refine ih (group ++ [item]) value (by simp) ?_
        intro other inGroup
        rcases List.mem_append.mp inGroup with old | new
        · exact shared other old
        · rw [List.mem_singleton.mp new, ← same, shared member inside]
      · intro run member a memberA b memberB
        rcases List.mem_cons.mp member with rfl | later
        · rw [shared a memberA, shared b memberB]
        · exact ih [item] (key item) (by simp) (by simp) run later a memberA b memberB

/-- If an accepted item always shares a key with some member, so do all members of a run. -/
theorem runs_constant {accept : List α → α → Bool} {key : α → κ}
    (shares : ∀ group item, group ≠ [] → accept group item = true →
      ∃ member ∈ group, key member = key item) (items : List α) :
    ∀ run ∈ runs accept items, ∀ a ∈ run, ∀ b ∈ run, key a = key b := by
  cases items with
  | nil => intro run member; cases member
  | cons item rest => exact runsFrom_constant shares [item] rest (key item) (by simp) (by simp)

/-- A group whose members share a key accepts exactly the items with that key. -/
def Keyed (accept : List α → α → Bool) (key : α → κ) : Prop :=
  ∀ group item value, group ≠ [] → (∀ member ∈ group, key member = value) →
    (accept group item = true ↔ key item = value)

/-- The groups are the classes of equal key, in increasing order of the key. -/
structure Classes [LinearOrder κ] (key : α → κ) (groups : List (List α)) : Prop where
  nonempty : ∀ group ∈ groups, group ≠ []
  constant : ∀ group ∈ groups, ∀ a ∈ group, ∀ b ∈ group, key a = key b
  increasing : groups.Pairwise fun group later => ∀ a ∈ group, ∀ b ∈ later, key a < key b

section Classes

variable [LinearOrder κ] {key : α → κ}

theorem Classes.tail {group : List α} {groups : List (List α)}
    (classes : Classes key (group :: groups)) : Classes key groups where
  nonempty other member := classes.nonempty other (List.mem_cons_of_mem _ member)
  constant other member := classes.constant other (List.mem_cons_of_mem _ member)
  increasing := (List.pairwise_cons.mp classes.increasing).2

theorem Classes.below {group : List α} {groups : List (List α)}
    (classes : Classes key (group :: groups)) :
    ∀ a ∈ group, ∀ b ∈ groups.flatten, key a < key b := by
  intro a memberA b memberB
  obtain ⟨later, memberLater, inside⟩ := List.mem_flatten.mp memberB
  exact (List.pairwise_cons.mp classes.increasing).1 later memberLater a memberA b inside

/-- A group whose key lies below all others comes in front. -/
theorem Classes.cons {group : List α} {groups : List (List α)} (classes : Classes key groups)
    (value : κ) (started : group ≠ []) (shared : ∀ member ∈ group, key member = value)
    (below : ∀ later ∈ groups.flatten, value < key later) : Classes key (group :: groups) := by
  refine ⟨?_, ?_, List.pairwise_cons.mpr ⟨?_, classes.increasing⟩⟩
  · exact List.forall_mem_cons.mpr ⟨started, classes.nonempty⟩
  · refine List.forall_mem_cons.mpr ⟨?_, classes.constant⟩
    intro a memberA b memberB
    rw [shared a memberA, shared b memberB]
  · intro later member a memberA b memberB
    rw [shared a memberA]
    exact below b (List.mem_flatten.mpr ⟨later, member, memberB⟩)

private theorem runsFrom_classes {accept : List α → α → Bool} (keyed : Keyed accept key)
    (group items : List α) (value : κ) (started : group ≠ [])
    (shared : ∀ member ∈ group, key member = value) (above : ∀ item ∈ items, value ≤ key item)
    (sorted : items.Pairwise fun a b => key a ≤ key b) :
    Classes key (runsFrom accept group items) := by
  induction items generalizing group value with
  | nil =>
      have none : Classes key ([] : List (List α)) := ⟨by simp, by simp, List.Pairwise.nil⟩
      exact none.cons value started shared (by simp)
  | cons item rest ih =>
      obtain ⟨least, sorted⟩ := List.pairwise_cons.mp sorted
      have decided := keyed group item value started shared
      simp only [runsFrom]
      split
      · rename_i accepted
        have same := decided.mp accepted
        refine ih (group ++ [item]) value (by simp) ?_
          (fun other member => above other (List.mem_cons_of_mem _ member)) sorted
        intro member inside
        rcases List.mem_append.mp inside with old | new
        · exact shared member old
        · rw [List.mem_singleton.mp new, same]
      · rename_i rejected
        have less : value < key item := by
          have different : key item ≠ value := fun same => rejected (decided.mpr same)
          exact lt_of_le_of_ne (above item (by simp)) different.symm
        refine (ih [item] (key item) (by simp) (by simp) least sorted).cons value started shared ?_
        rw [runsFrom_flatten, List.singleton_append]
        refine List.forall_mem_cons.mpr ⟨less, ?_⟩
        intro later member
        exact lt_of_lt_of_le less (least later member)

/-- On a list sorted by the key, a keyed scan cuts exactly at the key changes. -/
theorem runs_classes {accept : List α → α → Bool} (keyed : Keyed accept key) (items : List α)
    (sorted : items.Pairwise fun a b => key a ≤ key b) : Classes key (runs accept items) := by
  cases items with
  | nil => exact ⟨by simp [runs], by simp [runs], List.Pairwise.nil⟩
  | cons item rest =>
      obtain ⟨least, sorted⟩ := List.pairwise_cons.mp sorted
      exact runsFrom_classes keyed [item] rest (key item) (by simp) (by simp) least sorted

/-- Two items share a group exactly when they share the key. -/
theorem Classes.same_group {groups : List (List α)} (classes : Classes key groups) (a b : α)
    (memberA : a ∈ groups.flatten) (memberB : b ∈ groups.flatten) :
    (∃ group ∈ groups, a ∈ group ∧ b ∈ group) ↔ key a = key b := by
  constructor
  · rintro ⟨group, member, insideA, insideB⟩
    exact classes.constant group member a insideA b insideB
  · intro same
    induction groups with
    | nil => cases memberA
    | cons group rest ih =>
        rw [List.flatten_cons, List.mem_append] at memberA memberB
        rcases memberA with insideA | laterA <;> rcases memberB with insideB | laterB
        · exact ⟨group, by simp, insideA, insideB⟩
        · exact absurd same (ne_of_lt (classes.below a insideA b laterB))
        · exact absurd same.symm (ne_of_lt (classes.below b insideB a laterA))
        · obtain ⟨found, member, inside⟩ := ih classes.tail laterA laterB
          exact ⟨found, List.mem_cons_of_mem _ member, inside⟩

/-- There are as many groups as distinct keys. -/
theorem Classes.length_eq [DecidableEq κ] {groups : List (List α)} (classes : Classes key groups) :
    groups.length = (groups.flatten.map key).dedup.length := by
  induction groups with
  | nil => rfl
  | cons group rest ih =>
      obtain ⟨first, others, rfl⟩ := List.exists_cons_of_ne_nil (classes.nonempty group (by simp))
      have keys : (first :: others).map key = List.replicate (others.length + 1) (key first) := by
        apply List.eq_replicate_of_mem ?_ |>.trans
        · rw [List.length_map, List.length_cons]
        · intro value member
          obtain ⟨item, inside, rfl⟩ := List.mem_map.mp member
          exact classes.constant _ (by simp) item inside first (by simp)
      have fresh : key first ∉ rest.flatten.map key := by
        intro member
        obtain ⟨item, inside, same⟩ := List.mem_map.mp member
        exact absurd same.symm (ne_of_lt (classes.below first (by simp) item inside))
      have dedup_keys : ∀ count, (List.replicate (count + 1) (key first) ++
          rest.flatten.map key).dedup = key first :: (rest.flatten.map key).dedup := by
        intro count
        induction count with
        | zero => exact List.dedup_cons_of_notMem fresh
        | succ count ih =>
            rw [List.replicate_succ, List.cons_append, List.dedup_cons_of_mem (by simp), ih]
      rw [List.flatten_cons, List.map_append, keys, dedup_keys, List.length_cons, List.length_cons,
        ih classes.tail]

theorem Classes.least {group : List α} {groups : List (List α)}
    (classes : Classes key (group :: groups)) (a : α) (member : a ∈ group) :
    ∀ b ∈ (group :: groups).flatten, key a ≤ key b := by
  intro b inside
  rw [List.flatten_cons, List.mem_append] at inside
  rcases inside with same | later
  · exact le_of_eq (classes.constant group (by simp) a member b same)
  · exact le_of_lt (classes.below a member b later)

/-- The first class and the others are told apart by the first key. -/
theorem Classes.split {group : List α} {groups : List (List α)}
    (classes : Classes key (group :: groups)) (a : α) (member : a ∈ group) :
    (group :: groups).flatten.filter (fun b => decide (key b ≤ key a)) = group ∧
      (group :: groups).flatten.filter (fun b => decide (key a < key b)) = groups.flatten := by
  have same : ∀ b ∈ group, key b = key a := fun b inside =>
    classes.constant group (by simp) b inside a member
  have above : ∀ b ∈ groups.flatten, key a < key b := classes.below a member
  rw [List.flatten_cons, List.filter_append, List.filter_append]
  constructor
  · rw [List.filter_eq_self.mpr, List.filter_eq_nil_iff.mpr, List.append_nil]
    · intro b later
      simpa using above b later
    · intro b inside
      simpa using le_of_eq (same b inside)
  · rw [List.filter_eq_nil_iff.mpr, List.filter_eq_self.mpr, List.nil_append]
    · intro b later
      simpa using above b later
    · intro b inside
      simpa using le_of_eq (same b inside)

/-- The classes of a permuted list are the permuted classes. -/
theorem Classes.perm {groups groups' : List (List α)} (classes : Classes key groups)
    (classes' : Classes key groups') (perm : groups.flatten.Perm groups'.flatten) :
    List.Forall₂ List.Perm groups groups' := by
  induction groups generalizing groups' with
  | nil =>
      have empty : groups'.flatten = [] := perm.nil_eq.symm
      have count := length_le_flatten groups' classes'.nonempty
      rw [empty] at count
      rw [List.eq_nil_of_length_eq_zero (Nat.le_zero.mp count)]
      exact List.Forall₂.nil
  | cons group rest ih =>
      obtain ⟨a, memberA⟩ := List.exists_mem_of_ne_nil group (classes.nonempty group (by simp))
      have inside : a ∈ groups'.flatten := by
        rw [← perm.mem_iff, List.flatten_cons]
        exact List.mem_append_left _ memberA
      cases groups' with
      | nil => cases inside
      | cons group' rest' =>
          obtain ⟨b, memberB⟩ :=
            List.exists_mem_of_ne_nil group' (classes'.nonempty group' (by simp))
          have first : key a = key b := by
            apply le_antisymm
            · apply classes.least a memberA
              rw [perm.mem_iff, List.flatten_cons]
              exact List.mem_append_left _ memberB
            · exact classes'.least b memberB a inside
          obtain ⟨head, tail⟩ := classes.split a memberA
          obtain ⟨head', tail'⟩ := classes'.split b memberB
          rw [← first] at head' tail'
          have heads := perm.filter fun c => decide (key c ≤ key a)
          have tails := perm.filter fun c => decide (key a < key c)
          rw [head, head'] at heads
          rw [tail, tail'] at tails
          exact List.Forall₂.cons heads (ih classes.tail classes'.tail tails)

/-- Classes of items by a key of their images are classes of the images. -/
theorem Classes.map {β : Type} {f : β → α} {groups : List (List β)}
    (classes : Classes (fun item => key (f item)) groups) :
    Classes key (groups.map (List.map f)) where
  nonempty := by
    intro images member
    obtain ⟨group, inside, rfl⟩ := List.mem_map.mp member
    exact mt List.map_eq_nil_iff.mp (classes.nonempty group inside)
  constant := by
    intro images member
    obtain ⟨group, inside, rfl⟩ := List.mem_map.mp member
    simp only [List.forall_mem_map]
    exact classes.constant group inside
  increasing := by
    rw [List.pairwise_map]
    refine classes.increasing.imp ?_
    intro group later above
    simp only [List.forall_mem_map]
    exact above

end Classes

end GreedyRuns
