import Mathlib.Algebra.Order.Ring.Nat
import Mathlib.Data.List.Chain
import Mathlib.Data.List.Flatten
import Mathlib.Data.List.Nodup
import Mathlib.Logic.Relation
import Mathlib.Order.Defs.LinearOrder

set_option autoImplicit false

/- Cutting a sorted list wherever two neighbours are not linked, and when that yields
the clusters of single linkage: the classes of items joined by chains of small gaps. -/
namespace ChainClusters

variable {α κ : Type}

/-- Neighbours in a group are linked, neighbours across groups are not. -/
structure LinkRuns (link : α → α → Prop) (groups : List (List α)) : Prop where
  nonempty : ∀ group ∈ groups, group ≠ []
  linked : ∀ group ∈ groups, group.IsChain link
  cut : groups.IsChain fun group later =>
    ∀ a ∈ group.getLast?, ∀ b ∈ later.head?, ¬ link a b

/-- Two items share a group. -/
def Together (groups : List (List α)) (a b : α) : Prop :=
  ∃ group ∈ groups, a ∈ group ∧ b ∈ group

section Together

variable {groups : List (List α)}

theorem Together.symm {a b : α} (together : Together groups a b) : Together groups b a := by
  obtain ⟨group, member, insideA, insideB⟩ := together
  exact ⟨group, member, insideB, insideA⟩

theorem together_self (a : α) (member : a ∈ groups.flatten) : Together groups a a := by
  obtain ⟨group, inside, found⟩ := List.mem_flatten.mp member
  exact ⟨group, inside, found, found⟩

/-- An item is in one group only. -/
theorem group_unique (distinct : groups.flatten.Nodup) (a : α) (group other : List α)
    (member : group ∈ groups) (memberOther : other ∈ groups) (inside : a ∈ group)
    (insideOther : a ∈ other) : group = other := by
  by_contra differ
  have symm : Std.Symm (List.Disjoint (α := α)) := ⟨fun _ _ => List.disjoint_symm⟩
  have disjoint := (List.nodup_flatten.mp distinct).2
  exact disjoint.forall member memberOther differ inside insideOther

theorem Together.trans (distinct : groups.flatten.Nodup) {a b c : α}
    (first : Together groups a b) (second : Together groups b c) : Together groups a c := by
  obtain ⟨group, member, insideA, insideB⟩ := first
  obtain ⟨other, memberOther, insideB', insideC⟩ := second
  obtain rfl := group_unique distinct b group other member memberOther insideB insideB'
  exact ⟨group, member, insideA, insideC⟩

theorem LinkRuns.tail {link : α → α → Prop} {group : List α}
    (runs : LinkRuns link (group :: groups)) : LinkRuns link groups where
  nonempty other member := runs.nonempty other (List.mem_cons_of_mem _ member)
  linked other member := runs.linked other (List.mem_cons_of_mem _ member)
  cut := runs.cut.tail

/-- Linked neighbours are never cut apart. -/
theorem LinkRuns.adjacent {link : α → α → Prop} (runs : LinkRuns link groups) (before after : List α)
    (a b : α) (neighbours : groups.flatten = before ++ a :: b :: after) (linked : link a b) :
    Together groups a b := by
  induction groups generalizing before with
  | nil => simp at neighbours
  | cons group rest ih =>
      have later : ∀ front, rest.flatten = front ++ a :: b :: after →
          Together (group :: rest) a b := by
        intro front same
        obtain ⟨found, member, inside⟩ := ih runs.tail front same
        exact ⟨found, List.mem_cons_of_mem _ member, inside⟩
      rw [List.flatten_cons, List.append_eq_append_iff] at neighbours
      rcases neighbours with ⟨front, rfl, same⟩ | ⟨back, rfl, same⟩
      · exact later front same
      · match back, same with
        | [], same => exact later [] same.symm
        | [last], same =>
            simp only [List.cons_append, List.nil_append, List.cons.injEq] at same
            obtain ⟨rfl, same⟩ := same
            cases rest with
            | nil => simp at same
            | cons next others =>
                obtain ⟨head, items, rfl⟩ :=
                  List.exists_cons_of_ne_nil (runs.nonempty next (by simp))
                simp only [List.flatten_cons, List.cons_append, List.cons.injEq] at same
                obtain ⟨rfl, -⟩ := same
                have apart := (List.isChain_cons_cons.mp runs.cut).1
                exact absurd linked (apart a (by simp) b (by simp))
        | first :: second :: others, same =>
            simp only [List.cons_append, List.cons.injEq] at same
            obtain ⟨rfl, rfl, -⟩ := same
            exact ⟨_, List.mem_cons_self, by simp, by simp⟩

/-- All items of a linked stretch share a group. -/
theorem LinkRuns.stretch {link : α → α → Prop} (runs : LinkRuns link groups)
    (distinct : groups.flatten.Nodup) (before part after : List α)
    (within : groups.flatten = before ++ part ++ after) (linked : part.IsChain link) :
    part.Pairwise (Together groups) := by
  have trans : Trans (Together groups) (Together groups) (Together groups) :=
    ⟨Together.trans distinct⟩
  rw [← List.isChain_iff_pairwise, List.isChain_iff_forall_rel_of_append_cons_cons]
  intro a b front back same
  refine runs.adjacent (before ++ front) (back ++ after) a b ?_ ?_
  · rw [within, same]
    simp only [List.append_assoc, List.cons_append]
  · exact List.isChain_iff_forall_rel_of_append_cons_cons.mp linked same

end Together

section Clusters

variable (key : α → κ) (x : α → Nat) (d : Nat)

/-- The same key, and a gap of at most `d`. -/
def Near (a b : α) : Prop := key a = key b ∧ x a ≤ x b + d ∧ x b ≤ x a + d

/-- Linked by a chain of the given items with gaps of at most `d`. -/
def Chain (items : List α) : α → α → Prop :=
  Relation.ReflTransGen fun a b => a ∈ items ∧ b ∈ items ∧ Near key x d a b

/-- The groups are the clusters of single linkage. -/
def Clusters (items : List α) (groups : List (List α)) : Prop :=
  ∀ a ∈ items, ∀ b ∈ items, Together groups a b ↔ key a = key b ∧ Chain key x d items a b

/-- A near pair in increasing order that `fits` as well. -/
def Link (fits : Nat → Nat → Prop) (a b : α) : Prop :=
  key a = key b ∧ x b ≤ x a + d ∧ fits (x a) (x b)

/-- Near items with nothing between them fit. -/
def NeighboursFit (fits : Nat → Nat → Prop) (items : List α) : Prop :=
  ∀ a ∈ items, ∀ b ∈ items, a ≠ b → key a = key b → x a ≤ x b → x b ≤ x a + d →
    (∀ c ∈ items, key c = key a → ¬ (x a < x c ∧ x c < x b)) → fits (x a) (x b)

variable {key x d} {items : List α}

/-- Clusters are clusters of a set of items. -/
theorem clusters_congr {items' : List α} (same : ∀ a, a ∈ items ↔ a ∈ items')
    (groups : List (List α)) : Clusters key x d items groups ↔ Clusters key x d items' groups := by
  simp only [Clusters, Chain, same]

theorem neighboursFit_congr {items' : List α} (same : ∀ a, a ∈ items ↔ a ∈ items')
    (fits : Nat → Nat → Prop) :
    NeighboursFit key x d fits items ↔ NeighboursFit key x d fits items' := by
  simp only [NeighboursFit, same]

theorem Near.symm {a b : α} (near : Near key x d a b) : Near key x d b a :=
  ⟨near.1.symm, near.2.2, near.2.1⟩

theorem Chain.symm {a b : α} (chain : Chain key x d items a b) : Chain key x d items b a := by
  induction chain with
  | refl => exact Relation.ReflTransGen.refl
  | tail _ step ih => exact Relation.ReflTransGen.head ⟨step.2.1, step.1, step.2.2.symm⟩ ih

theorem Chain.same_key {a b : α} (chain : Chain key x d items a b) : key a = key b := by
  induction chain with
  | refl => rfl
  | tail _ step ih => exact ih.trans step.2.2.1

end Clusters

section Sorted

variable [LinearOrder κ]

/-- The order by key, then by `x`. -/
def Before (key : α → κ) (x : α → Nat) (a b : α) : Prop := key a < key b ∨ key a = key b ∧ x a ≤ x b

variable {key : α → κ} {x : α → Nat} {d : Nat} {fits : Nat → Nat → Prop}
  {groups : List (List α)}

theorem Before.le {a b : α} (before : Before key x a b) (same : key a = key b) : x a ≤ x b := by
  rcases before with less | ⟨-, le⟩
  · exact absurd same (ne_of_lt less)
  · exact le

theorem Before.between {a b c : α} (first : Before key x a c) (second : Before key x c b)
    (same : key a = key b) : key c = key a ∧ x a ≤ x c ∧ x c ≤ x b := by
  have lower : key a ≤ key c := by
    rcases first with less | ⟨equal, -⟩
    · exact le_of_lt less
    · exact le_of_eq equal
  have upper : key c ≤ key b := by
    rcases second with less | ⟨equal, -⟩
    · exact le_of_lt less
    · exact le_of_eq equal
  have equal : key c = key a := le_antisymm (upper.trans (le_of_eq same.symm)) lower
  exact ⟨equal, first.le equal.symm, second.le (equal.trans same)⟩

/-- Members of a group are chained, whatever fits. -/
theorem together_chain (runs : LinkRuns (Link key x d fits) groups)
    (sorted : groups.flatten.Pairwise (Before key x)) {a b : α} (together : Together groups a b) :
    Chain key x d groups.flatten a b := by
  obtain ⟨group, member, insideA, insideB⟩ := together
  have within : ∀ c ∈ group, c ∈ groups.flatten := fun c inside =>
    List.mem_flatten.mpr ⟨group, member, inside⟩
  have order := sorted.sublist (List.sublist_flatten_of_mem member)
  have steps : group.IsChain (Chain key x d groups.flatten) := by
    rw [List.isChain_iff_forall_rel_of_append_cons_cons]
    intro u v front back same
    have link := List.isChain_iff_forall_rel_of_append_cons_cons.mp (runs.linked group member) same
    rw [same] at order within
    have before : Before key x u v := by
      have later := (List.pairwise_append.mp order).2.1
      exact (List.pairwise_cons.mp later).1 v (by simp)
    have le := before.le link.1
    exact Relation.ReflTransGen.single ⟨within u (by simp), within v (by simp), link.1,
      by omega, link.2.1⟩
  have trans : Trans (Chain key x d groups.flatten) (Chain key x d groups.flatten)
      (Chain key x d groups.flatten) := ⟨Relation.ReflTransGen.trans⟩
  have symm : Std.Symm (Chain key x d groups.flatten) := ⟨fun _ _ => Chain.symm⟩
  have pairs : group.Pairwise (Chain key x d groups.flatten) := steps.pairwise
  have self : ∀ c ∈ group, Chain key x d groups.flatten c c := fun _ _ =>
    Relation.ReflTransGen.refl
  exact pairs.forall_of_forall self insideA insideB

/-- Two items of a list stand in one order or the other. -/
theorem ordered_split (items : List α) (a b : α) (memberA : a ∈ items) (memberB : b ∈ items)
    (differ : a ≠ b) :
    (∃ before part after, items = before ++ (a :: (part ++ [b])) ++ after) ∨
      ∃ before part after, items = before ++ (b :: (part ++ [a])) ++ after := by
  obtain ⟨front, back, rfl⟩ := List.append_of_mem memberA
  rcases List.mem_append.mp memberB with first | later
  · obtain ⟨before, part, rfl⟩ := List.append_of_mem first
    exact .inr ⟨before, part, back, by simp⟩
  · rcases List.mem_cons.mp later with same | later
    · exact absurd same.symm differ
    · obtain ⟨part, after, rfl⟩ := List.append_of_mem later
      exact .inl ⟨front, part, after, by simp⟩

/-- Between two items with the same key all keys are the same and `x` increases. -/
theorem stretch_between (part : List α) (a b : α)
    (sorted : (a :: (part ++ [b])).Pairwise (Before key x)) (same : key a = key b) :
    ∀ c ∈ a :: (part ++ [b]), key c = key a ∧ x a ≤ x c ∧ x c ≤ x b := by
  obtain ⟨first, rest⟩ := List.pairwise_cons.mp sorted
  have le : x a ≤ x b := (first b (by simp)).le same
  intro c member
  rcases List.mem_cons.mp member with rfl | member
  · exact ⟨rfl, Nat.le_refl _, le⟩
  · rcases List.mem_append.mp member with inside | last
    · have second : Before key x c b := (List.pairwise_append.mp rest).2.2 c inside b (by simp)
      exact (first c (by simp [inside])).between second same
    · rw [List.mem_singleton.mp last]
      exact ⟨same.symm, le, Nat.le_refl _⟩

/-- A stretch from one item to a near one has only linked neighbours. -/
theorem stretch_linked (items before part after : List α) (a b : α)
    (split : items = before ++ (a :: (part ++ [b])) ++ after)
    (sorted : items.Pairwise (Before key x)) (distinct : items.Nodup)
    (fit : NeighboursFit key x d fits items) (same : key a = key b) (gap : x b ≤ x a + d) :
    (a :: (part ++ [b])).IsChain (Link key x d fits) := by
  have inner : (a :: (part ++ [b])).Pairwise (Before key x) := by
    rw [split] at sorted
    exact (List.pairwise_append.mp (List.pairwise_append.mp sorted).1).2.1
  have between := stretch_between part a b inner same
  rw [List.isChain_iff_forall_rel_of_append_cons_cons]
  intro u v front back cut
  rw [cut] at between split inner
  have whole : items = (before ++ front) ++ u :: v :: (back ++ after) := by
    rw [split]
    simp only [List.append_assoc, List.cons_append]
  obtain ⟨keyU, lowU, highU⟩ := between u (by simp)
  obtain ⟨keyV, lowV, highV⟩ := between v (by simp)
  have sameKey : key u = key v := keyU.trans keyV.symm
  rw [whole] at sorted distinct
  obtain ⟨-, later, earlier⟩ := List.pairwise_append.mp sorted
  obtain ⟨fromU, later⟩ := List.pairwise_cons.mp later
  obtain ⟨fromV, -⟩ := List.pairwise_cons.mp later
  have differ : u ≠ v := by
    rintro rfl
    simp [List.nodup_append] at distinct
  have le : x u ≤ x v := (fromU v (by simp)).le sameKey
  refine ⟨sameKey, by omega, fit u ?_ v ?_ differ sameKey le (by omega) ?_⟩
  · simp [whole]
  · simp [whole]
  · intro c member keyC
    rw [whole, List.mem_append, List.mem_cons, List.mem_cons] at member
    rcases member with before | rfl | rfl | after
    · have := (earlier c before u (by simp)).le keyC
      omega
    · omega
    · omega
    · have := (fromV c after).le (sameKey.symm.trans keyC.symm)
      omega

/-- If the neighbours fit, near items share a group. -/
theorem near_together (runs : LinkRuns (Link key x d fits) groups)
    (sorted : groups.flatten.Pairwise (Before key x)) (distinct : groups.flatten.Nodup)
    (fit : NeighboursFit key x d fits groups.flatten) (a b : α) (memberA : a ∈ groups.flatten)
    (memberB : b ∈ groups.flatten) (near : Near key x d a b) : Together groups a b := by
  by_cases differ : a = b
  · rw [differ]
    exact together_self b memberB
  · have ends : ∀ (before part after : List α) (a b : α),
        groups.flatten = before ++ (a :: (part ++ [b])) ++ after → Near key x d a b →
          Together groups a b := by
      intro before part after a b split near
      have linked := stretch_linked _ before part after a b split sorted distinct fit near.1 near.2.2
      have pairs := runs.stretch distinct before _ after split linked
      exact (List.pairwise_cons.mp pairs).1 b (by simp)
    rcases ordered_split _ a b memberA memberB differ with split | split
    · obtain ⟨before, part, after, split⟩ := split
      exact ends before part after a b split near
    · obtain ⟨before, part, after, split⟩ := split
      exact (ends before part after b a split near.symm).symm

/-- In a linked stretch there is a step from the first value of `x` to the last, if
nothing lies between them. -/
theorem stretch_fits (part : List α) (a b : α) (linked : (a :: (part ++ [b])).IsChain
      (Link key x d fits)) (sorted : (a :: (part ++ [b])).Pairwise (Before key x))
    (same : key a = key b)
    (nothing : ∀ c ∈ part, key c = key a → ¬ (x a < x c ∧ x c < x b)) :
    fits (x a) (x b) := by
  induction part generalizing a with
  | nil => exact (List.isChain_cons_cons.mp linked).1.2.2
  | cons c rest ih =>
      rw [List.cons_append] at linked sorted
      obtain ⟨link, linked⟩ := List.isChain_cons_cons.mp linked
      have between := stretch_between (c :: rest) a b sorted same c (by simp)
      obtain ⟨sameC, lower, upper⟩ := between
      have outside := nothing c (by simp) sameC
      rcases Nat.lt_or_ge (x a) (x c) with greater | le
      · have top : x c = x b := by omega
        rw [← top]
        exact link.2.2
      · have bottom : x a = x c := Nat.le_antisymm lower le
        rw [bottom]
        apply ih c linked (List.pairwise_cons.mp sorted).2 (sameC.trans same)
        intro other member sameOther
        have := nothing other (by simp [member]) (sameOther.trans sameC)
        omega

theorem together_fits (runs : LinkRuns (Link key x d fits) groups)
    (sorted : groups.flatten.Pairwise (Before key x)) (a b : α) (together : Together groups a b)
    (differ : a ≠ b) (same : key a = key b) (le : x a ≤ x b)
    (nothing : ∀ c ∈ groups.flatten, key c = key a → ¬ (x a < x c ∧ x c < x b)) :
    fits (x a) (x b) := by
  obtain ⟨group, member, insideA, insideB⟩ := together
  have order := sorted.sublist (List.sublist_flatten_of_mem member)
  have linked := runs.linked group member
  have inGroup : ∀ c ∈ group, c ∈ groups.flatten := fun c inside =>
    List.mem_flatten.mpr ⟨group, member, inside⟩
  rcases ordered_split group a b insideA insideB differ with split | split
  · obtain ⟨before, part, after, rfl⟩ := split
    have inner := (List.pairwise_append.mp (List.pairwise_append.mp order).1).2.1
    apply stretch_fits part a b linked.left_of_append.right_of_append inner same
    intro c inside
    exact nothing c (inGroup c (by simp [inside]))
  · obtain ⟨before, part, after, rfl⟩ := split
    have inner := (List.pairwise_append.mp (List.pairwise_append.mp order).1).2.1
    have equal : x a = x b :=
      Nat.le_antisymm le (stretch_between part b a inner same.symm a (by simp)).2.1
    have swapped := stretch_fits part b a linked.left_of_append.right_of_append inner same.symm
      (by intro c _ _; omega)
    rwa [equal] at swapped ⊢

/-- The runs of a sorted list are its clusters exactly when all neighbours fit. -/
theorem clusters_iff (runs : LinkRuns (Link key x d fits) groups)
    (sorted : groups.flatten.Pairwise (Before key x)) (distinct : groups.flatten.Nodup) :
    Clusters key x d groups.flatten groups ↔ NeighboursFit key x d fits groups.flatten := by
  constructor
  · intro clusters a memberA b memberB differ same le gap nothing
    have near : Near key x d a b := ⟨same, by omega, gap⟩
    have together := (clusters a memberA b memberB).mpr
      ⟨same, Relation.ReflTransGen.single ⟨memberA, memberB, near⟩⟩
    exact together_fits runs sorted a b together differ same le nothing
  · intro fit a memberA b memberB
    constructor
    · intro together
      have chain := together_chain runs sorted together
      exact ⟨chain.same_key, chain⟩
    · rintro ⟨-, chain⟩
      induction chain with
      | refl => exact together_self a memberA
      | tail _ step ih =>
          have next := near_together runs sorted distinct fit _ _ step.1 step.2.1 step.2.2
          exact (ih step.1).trans distinct next

end Sorted

end ChainClusters
