import Nfql.Comparators
import Nfql.DeltaWindow
import Mathlib.Algebra.Order.Group.Abs
import Mathlib.Algebra.Order.Group.Int

set_option autoImplicit false

/- When the generated comparators agree with the comparison in the integers. -/
namespace Nfql

open DeltaWindow

/-- What an operator with a delta stands for. -/
def CompOp.Holds (op : CompOp) (lhs rhs delta : Int) : Prop :=
  match op with
  | .eq => |lhs - rhs| ≤ delta
  | .ne => delta < |lhs - rhs|
  | .lt => lhs < rhs + delta
  | .le => lhs ≤ rhs + delta
  | .gt => rhs - delta < lhs
  | .ge => rhs - delta ≤ lhs

instance (op : CompOp) (lhs rhs delta : Int) : Decidable (op.Holds lhs rhs delta) :=
  match op with
  | .eq => inferInstanceAs (Decidable (|lhs - rhs| ≤ delta))
  | .ne => inferInstanceAs (Decidable (delta < |lhs - rhs|))
  | .lt => inferInstanceAs (Decidable (lhs < rhs + delta))
  | .le => inferInstanceAs (Decidable (lhs ≤ rhs + delta))
  | .gt => inferInstanceAs (Decidable (rhs - delta < lhs))
  | .ge => inferInstanceAs (Decidable (rhs - delta ≤ lhs))

/-- No sum or difference wraps, or none that matters. -/
def CompOp.Fits (op : CompOp) (lhs rhs delta : BitVec 64) : Prop :=
  match op with
  | .eq | .ne => delta.toNat < (lhs.toNat - rhs.toNat : Int).natAbs ∨
      (SubFits lhs rhs delta ∧ AddFits lhs rhs delta)
  | .lt => rhs.toNat + delta.toNat < 2 ^ 64 ∨ lhs.toNat + 2 ^ 64 < rhs.toNat + delta.toNat
  | .le => AddFits lhs rhs delta
  | .gt => delta.toNat ≤ rhs.toNat ∨ rhs.toNat + 2 ^ 64 < lhs.toNat + delta.toNat
  | .ge => SubFits lhs rhs delta

section Compare

variable (lhs rhs delta : BitVec 64)

private theorem eq_window :
    CompOp.eq.Holds lhs.toNat rhs.toNat delta.toNat ↔
      rhs.toNat ≤ lhs.toNat + delta.toNat ∧ lhs.toNat ≤ rhs.toNat + delta.toNat := by
  rw [CompOp.Holds, abs_le]
  omega

/-- The two-sided test holds when the integers do and both ends of the window fit. -/
theorem compareDelta_eq_iff :
    compareDelta .eq lhs rhs delta = true ↔
      (rhs.toNat ≤ lhs.toNat + delta.toNat ∧ SubFits lhs rhs delta) ∧
        (lhs.toNat ≤ rhs.toNat + delta.toNat ∧ AddFits lhs rhs delta) := by
  rw [compareDelta, Bool.and_eq_true, decide_eq_true_eq, decide_eq_true_eq, sub_le_iff, le_add_iff]

theorem compareDelta_ne :
    compareDelta .ne lhs rhs delta = !compareDelta .eq lhs rhs delta := by
  simp only [compareDelta, Bool.not_and, ← decide_not, BitVec.not_le]

private theorem eq_exact_iff :
    (compareDelta .eq lhs rhs delta = true ↔ CompOp.eq.Holds lhs.toNat rhs.toNat delta.toNat) ↔
      CompOp.eq.Fits lhs rhs delta := by
  rw [compareDelta_eq_iff, eq_window, CompOp.Fits]
  have apart : delta.toNat < (lhs.toNat - rhs.toNat : Int).natAbs ↔
      ¬ (rhs.toNat ≤ lhs.toNat + delta.toNat ∧ lhs.toNat ≤ rhs.toNat + delta.toNat) := by
    omega
  rw [apart]
  tauto

/-- A comparator is exact when its sums and differences fit, and only then. -/
theorem compareDelta_exact_iff (op : CompOp) :
    (compareDelta op lhs rhs delta = true ↔ op.Holds lhs.toNat rhs.toNat delta.toNat) ↔
      op.Fits lhs rhs delta := by
  cases op with
  | eq => exact eq_exact_iff lhs rhs delta
  | ne =>
      have converse : CompOp.ne.Holds lhs.toNat rhs.toNat delta.toNat ↔
          ¬ CompOp.eq.Holds lhs.toNat rhs.toNat delta.toNat := not_le.symm
      rw [compareDelta_ne, Bool.not_eq_true', ← Bool.not_eq_true, converse, not_iff_not]
      exact eq_exact_iff lhs rhs delta
  | lt =>
      rw [compareDelta, decide_eq_true_eq, lt_add_iff, CompOp.Holds, CompOp.Fits]
      omega
  | le =>
      rw [compareDelta, decide_eq_true_eq, le_add_iff, CompOp.Holds, CompOp.Fits, AddFits]
      omega
  | gt =>
      rw [compareDelta, decide_eq_true_eq, sub_lt_iff, CompOp.Holds, CompOp.Fits]
      omega
  | ge =>
      rw [compareDelta, decide_eq_true_eq, sub_le_iff, CompOp.Holds, CompOp.Fits, SubFits]
      omega

end Compare

/-- The filter and group-filter comparators are exact on precisely the operands whose
sums and differences with the delta fit. -/
theorem filterFuncs_exact_iff (term : FilterTerm) (record : Record) (gterm : GroupfilterTerm)
    (group : Group) :
    ((term.func record = true ↔
        term.op.Holds (readField term.fieldType record term.fieldOffset).toNat term.value.toNat
          term.delta.toNat) ↔
      term.op.Fits (readField term.fieldType record term.fieldOffset) term.value term.delta) ∧
    ((gterm.func group = true ↔
        gterm.op.Holds (readField gterm.fieldType group.record gterm.field).toNat
          gterm.value.toNat gterm.delta.toNat) ↔
      gterm.op.Fits (readField gterm.fieldType group.record gterm.field) gterm.value
        gterm.delta) :=
  ⟨compareDelta_exact_iff _ term.value term.delta term.op,
    compareDelta_exact_iff _ gterm.value gterm.delta gterm.op⟩

/-- A delta above the value: 3 is not found within 5 of 3. -/
theorem filterFuncs_wrap :
    ¬ ∀ (term : FilterTerm) (record : Record),
      (term.func record = true ↔
        term.op.Holds (readField term.fieldType record term.fieldOffset).toNat term.value.toNat
          term.delta.toNat) := by
  intro exact
  have within := (exact ⟨0, 3#64, 5#64, .eq, .w8⟩ fun _ => 3#8).mpr (by decide)
  revert within
  decide

end Nfql
