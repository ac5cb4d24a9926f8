import Mathlib.Data.List.Lex
import Mathlib.Data.List.Sort

set_option autoImplicit false

/- Three-way comparators as the C library's sorting functions expect them, and
the contract of those functions. -/
namespace ThreeWay

variable {α : Type}

/-- C's `(x > y) - (y > x)`. -/
def compareNat (x y : Nat) : Int :=
  (if y < x then 1 else 0) - (if x < y then 1 else 0)

theorem compareNat_neg (x y : Nat) : compareNat x y < 0 ↔ x < y := by
  simp only [compareNat]
  split <;> split <;> omega

theorem compareNat_pos (x y : Nat) : 0 < compareNat x y ↔ y < x := by
  simp only [compareNat]
  split <;> split <;> omega

theorem compareNat_zero (x y : Nat) : compareNat x y = 0 ↔ x = y := by
  have neg := compareNat_neg x y
  have pos := compareNat_pos x y
  omega

/-- What `qsort` requires of its comparator: a total preorder. -/
structure Consistent (compare : α → α → Int) : Prop where
  swap : ∀ a b, 0 < compare a b ↔ compare b a < 0
  trans : ∀ a b c, compare a b ≤ 0 → compare b c ≤ 0 → compare a c ≤ 0

theorem Consistent.total {compare : α → α → Int} (consistent : Consistent compare) (a b : α) :
    compare a b ≤ 0 ∨ compare b a ≤ 0 := by
  have swap := consistent.swap a b
  omega

theorem Consistent.opposite {compare : α → α → Int} (consistent : Consistent compare) (a b : α) :
    (compare a b).sign = -(compare b a).sign := by
  have swap := consistent.swap a b
  have back := consistent.swap b a
  rcases lt_trichotomy (compare a b) 0 with less | tie | greater
  · rw [Int.sign_eq_neg_one_of_neg less, Int.sign_eq_one_of_pos (back.mpr less)]
  · have : compare b a = 0 := by omega
    rw [tie, this]
    rfl
  · rw [Int.sign_eq_one_of_pos greater, Int.sign_eq_neg_one_of_neg (swap.mp greater)]
    rfl

/-- The comparator orders by a key tuple, lexicographically. -/
structure ByKey (compare : α → α → Int) (key : α → List Nat) : Prop where
  neg : ∀ a b, compare a b < 0 ↔ List.Lex (· < ·) (key a) (key b)
  pos : ∀ a b, 0 < compare a b ↔ List.Lex (· < ·) (key b) (key a)

theorem lex_trichotomy (left right : List Nat) :
    List.Lex (· < ·) left right ∨ left = right ∨ List.Lex (· < ·) right left :=
  @lt_trichotomy (List Nat) _ left right

theorem lex_irrefl (tuple : List Nat) : ¬ List.Lex (· < ·) tuple tuple :=
  @lt_irrefl (List Nat) _ tuple

/-- A tuple that is smaller stays smaller if both are extended. -/
theorem lex_append {left right : List Nat} (less : List.Lex (· < ·) left right)
    (same : left.length = right.length) (more others : List Nat) :
    List.Lex (· < ·) (left ++ more) (right ++ others) := by
  induction less with
  | nil => cases same
  | cons less ih => exact List.Lex.cons (ih (Nat.succ.inj same))
  | rel first => exact List.Lex.rel first

theorem ByKey.consistent {compare : α → α → Int} {key : α → List Nat}
    (byKey : ByKey compare key) : Consistent compare where
  swap a b := (byKey.pos a b).trans (byKey.neg b a).symm
  trans a b c hab hbc := by
    have ab : ¬ List.Lex (· < ·) (key b) (key a) := mt (byKey.pos a b).mpr (by omega)
    have bc : ¬ List.Lex (· < ·) (key c) (key b) := mt (byKey.pos b c).mpr (by omega)
    have ac : ¬ List.Lex (· < ·) (key c) (key a) :=
      not_lt.mpr (@le_trans (List Nat) _ _ _ _ (not_lt.mp ab) (not_lt.mp bc))
    have := mt (byKey.pos a c).mp ac
    omega

theorem ByKey.zero {compare : α → α → Int} {key : α → List Nat} (byKey : ByKey compare key)
    (a b : α) : compare a b = 0 ↔ key a = key b := by
  constructor
  · intro tie
    rcases lex_trichotomy (key a) (key b) with less | same | greater
    · have := (byKey.neg a b).mpr less
      omega
    · exact same
    · have := (byKey.pos a b).mpr greater
      omega
  · intro same
    have notLess := mt (byKey.neg a b).mp (same ▸ lex_irrefl _)
    have notGreater := mt (byKey.pos a b).mp (same ▸ lex_irrefl _)
    omega

/-- Comparing one more number in front of a tuple decides unless it is equal. -/
theorem ByKey.cons {head rest : α → α → Int} {first : α → Nat} {key : α → List Nat}
    (byFirst : ∀ a b, head a b = compareNat (first a) (first b)) (byKey : ByKey rest key) :
    ByKey (fun a b => if head a b ≠ 0 then head a b else rest a b)
      (fun a => first a :: key a) := by
  constructor
  · intro a b
    rw [List.cons_lex_cons_iff]
    by_cases same : first a = first b
    · have zero : head a b = 0 := by rw [byFirst, compareNat_zero, same]
      simp only [zero, ne_eq, not_true_eq_false, ↓reduceIte, byKey.neg a b, same, Nat.lt_irrefl,
        true_and, false_or]
    · have decided : head a b ≠ 0 := by rw [byFirst, ne_eq, compareNat_zero]; exact same
      rw [if_pos decided, byFirst, compareNat_neg]
      simp only [same, false_and, or_false]
  · intro a b
    rw [List.cons_lex_cons_iff]
    by_cases same : first a = first b
    · have zero : head a b = 0 := by rw [byFirst, compareNat_zero, same]
      simp only [zero, ne_eq, not_true_eq_false, ↓reduceIte, byKey.pos a b, same, Nat.lt_irrefl,
        true_and, false_or]
    · have decided : head a b ≠ 0 := by rw [byFirst, ne_eq, compareNat_zero]; exact same
      have differ : first b ≠ first a := fun equal => same equal.symm
      rw [if_pos decided, byFirst, compareNat_pos]
      simp only [differ, false_and, or_false]

/-- Comparing by a number is consistent. -/
theorem compareNat_consistent (key : α → Nat) :
    Consistent fun a b => compareNat (key a) (key b) where
  swap a b := (compareNat_pos _ _).trans (compareNat_neg _ _).symm
  trans a b c hab hbc := by
    have ab := mt (compareNat_pos (key a) (key b)).mpr (by omega)
    have bc := mt (compareNat_pos (key b) (key c)).mpr (by omega)
    have ac := compareNat_pos (key a) (key c)
    omega

/-- A sorting function of the C library. It rearranges its input and, for a
consistent comparator, leaves it sorted; ties may end up in any order. -/
structure Qsort (α : Type) where
  run : (α → α → Int) → List α → List α
  perm : ∀ compare items, (run compare items).Perm items
  sorted : ∀ compare items, Consistent compare →
    (run compare items).Pairwise fun a b => compare a b ≤ 0

/-- Insertion sort meets the contract. -/
def Qsort.insertion : Qsort α where
  run compare items := items.insertionSort fun a b => compare a b ≤ 0
  perm compare items := items.perm_insertionSort _
  sorted compare items consistent := by
    have total : Std.Total fun a b => compare a b ≤ 0 := ⟨fun a b => by
      have swap := consistent.swap a b
      omega⟩
    have trans : IsTrans α fun a b => compare a b ≤ 0 := ⟨consistent.trans⟩
    exact items.pairwise_insertionSort _

section Ties

variable (key : α → Nat) (compare : α → α → Int)

/-- The comparator's order, with ties in the descending order of a key. -/
def TiesBy (a b : α) : Prop := compare a b < 0 ∨ compare a b = 0 ∧ key b ≤ key a

instance : DecidableRel (TiesBy key compare) := fun _ _ => inferInstanceAs (Decidable (_ ∨ _))

variable {key compare}

theorem TiesBy.le {a b : α} (before : TiesBy key compare a b) : compare a b ≤ 0 := by
  rcases before with less | ⟨tie, -⟩ <;> omega

theorem TiesBy.sorted (consistent : Consistent compare) (items : List α) :
    (items.insertionSort (TiesBy key compare)).Pairwise (TiesBy key compare) := by
  have total : Std.Total (TiesBy key compare) := ⟨fun a b => by
    have swap := consistent.swap a b
    have swap' := consistent.swap b a
    simp only [TiesBy]
    omega⟩
  have trans : IsTrans α (TiesBy key compare) := ⟨fun a b c ab bc => by
    have swap := consistent.swap b a
    have swap' := consistent.swap c b
    have swap'' := consistent.swap a c
    have swap''' := consistent.swap c a
    have forward := consistent.trans a b c ab.le bc.le
    -- were `a` and `c` tied, then `b` would be tied with both
    have back := consistent.trans b c a bc.le
    have back' := consistent.trans c a b
    simp only [TiesBy] at ab bc ⊢
    omega⟩
  exact items.pairwise_insertionSort _

variable (key)

/-- A sorting function that meets the contract with ties in that order. -/
def Qsort.tiesBy : Qsort α where
  run compare items := items.insertionSort (TiesBy key compare)
  perm _ items := items.perm_insertionSort _
  sorted _ items consistent := (TiesBy.sorted consistent items).imp TiesBy.le

end Ties

end ThreeWay
