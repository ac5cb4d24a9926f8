import Mathlib.Algebra.Order.Ring.Nat
import Mathlib.Data.List.Forall2
import Mathlib.Data.List.Lex
import Mathlib.Data.List.Range

set_option autoImplicit false

/- All ways to choose one item from each of several lists, in lexicographic order. -/
namespace Odometer

variable {α β : Type}

def product : List (List α) → List (List α)
  | [] => [[]]
  | items :: rest => items.flatMap fun item => (product rest).map (item :: ·)

theorem mem_product (lists : List (List α)) (tuple : List α) :
    tuple ∈ product lists ↔ List.Forall₂ (fun items item => item ∈ items) lists tuple := by
  induction lists generalizing tuple with
  | nil => rw [product, List.mem_singleton, List.forall₂_nil_left_iff]
  | cons items rest ih =>
      simp only [product, List.mem_flatMap, List.mem_map, ih, List.forall₂_cons_left_iff]
      constructor
      · rintro ⟨item, member, later, chosen, rfl⟩
        exact ⟨item, later, member, chosen, rfl⟩
      · rintro ⟨item, later, member, chosen, rfl⟩
        exact ⟨item, member, later, chosen, rfl⟩

theorem product_map (f : α → β) (lists : List (List α)) :
    product (lists.map (List.map f)) = (product lists).map (List.map f) := by
  induction lists with
  | nil => rfl
  | cons items rest ih =>
      simp only [List.map_cons, product, ih, List.flatMap_map, List.map_flatMap, List.map_map,
        Function.comp_def]

/-- If every list is increasing then so are the tuples. -/
theorem product_increasing (key : α → Nat) (lists : List (List α))
    (increasing : ∀ items ∈ lists, items.Pairwise fun a b => key a < key b) :
    (product lists).Pairwise fun a b => List.Lex (· < ·) (a.map key) (b.map key) := by
  induction lists with
  | nil => exact List.pairwise_singleton _ _
  | cons items rest ih =>
      have later := ih fun other member => increasing other (List.mem_cons_of_mem _ member)
      rw [product, List.pairwise_flatMap]
      constructor
      · intro item _
        rw [List.pairwise_map]
        exact later.imp fun less => by
          rw [List.map_cons, List.map_cons]
          exact List.Lex.cons less
      · refine (increasing items (by simp)).imp ?_
        intro a b less left memberLeft right memberRight
        obtain ⟨_, _, rfl⟩ := List.mem_map.mp memberLeft
        obtain ⟨_, _, rfl⟩ := List.mem_map.mp memberRight
        exact List.Lex.rel less

theorem product_length (lists : List (List α)) :
    (product lists).length = (lists.map List.length).prod := by
  induction lists with
  | nil => rfl
  | cons items rest ih =>
      simp only [product, List.length_flatMap, List.length_map, List.map_cons, List.prod_cons, ← ih,
        List.map_const', List.sum_replicate_nat]

end Odometer
