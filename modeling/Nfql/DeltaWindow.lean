import Mathlib.Algebra.Order.Ring.Nat

set_option autoImplicit false

/- Comparisons of an unsigned machine word with another one shifted by a delta: what
they say in the integers, and when. -/
namespace DeltaWindow

variable {w : Nat}

/-- A sum either fits the word or has lost exactly one turn. -/
theorem add_turn (value delta : BitVec w) :
    value.toNat + delta.toNat < 2 ^ w ∧ (value + delta).toNat = value.toNat + delta.toNat ∨
      2 ^ w ≤ value.toNat + delta.toNat ∧
        (value + delta).toNat + 2 ^ w = value.toNat + delta.toNat := by
  have value_lt := value.isLt
  have delta_lt := delta.isLt
  rw [BitVec.toNat_add]
  rcases Nat.lt_or_ge (value.toNat + delta.toNat) (2 ^ w) with fits | wraps
  · exact .inl ⟨fits, Nat.mod_eq_of_lt fits⟩
  · refine .inr ⟨wraps, ?_⟩
    rw [Nat.mod_eq_sub_mod wraps, Nat.mod_eq_of_lt (by omega)]
    omega

/-- A difference is either exact or has gained exactly one turn. -/
theorem sub_turn (value delta : BitVec w) :
    delta.toNat ≤ value.toNat ∧ (value - delta).toNat + delta.toNat = value.toNat ∨
      value.toNat < delta.toNat ∧
        (value - delta).toNat + delta.toNat = value.toNat + 2 ^ w := by
  have value_lt := value.isLt
  have delta_lt := delta.isLt
  rw [BitVec.toNat_sub]
  rcases Nat.lt_or_ge value.toNat delta.toNat with wraps | fits
  · refine .inr ⟨wraps, ?_⟩
    rw [Nat.mod_eq_of_lt (by omega)]
    omega
  · refine .inl ⟨fits, ?_⟩
    rw [Nat.mod_eq_sub_mod (by omega), Nat.mod_eq_of_lt (by omega)]
    omega

variable (lhs rhs delta : BitVec w)

/-- `lhs` is below `rhs + delta` also when the sum wraps. -/
def AddFits : Prop :=
  rhs.toNat + delta.toNat < 2 ^ w ∨ lhs.toNat + 2 ^ w ≤ rhs.toNat + delta.toNat

/-- `lhs` is above `rhs - delta` also when the difference wraps. -/
def SubFits : Prop :=
  delta.toNat ≤ rhs.toNat ∨ rhs.toNat + 2 ^ w ≤ lhs.toNat + delta.toNat

theorem le_add_iff :
    lhs ≤ rhs + delta ↔ lhs.toNat ≤ rhs.toNat + delta.toNat ∧ AddFits lhs rhs delta := by
  have lhs_lt := lhs.isLt
  rw [BitVec.le_def, AddFits]
  rcases add_turn rhs delta with ⟨fits, same⟩ | ⟨wraps, same⟩ <;> omega

theorem sub_le_iff :
    rhs - delta ≤ lhs ↔ rhs.toNat ≤ lhs.toNat + delta.toNat ∧ SubFits lhs rhs delta := by
  have rhs_lt := rhs.isLt
  rw [BitVec.le_def, SubFits]
  rcases sub_turn rhs delta with ⟨fits, same⟩ | ⟨wraps, same⟩ <;> omega

theorem lt_add_iff :
    lhs < rhs + delta ↔ lhs.toNat < rhs.toNat + delta.toNat ∧
      (rhs.toNat + delta.toNat < 2 ^ w ∨ lhs.toNat + 2 ^ w < rhs.toNat + delta.toNat) := by
  have lhs_lt := lhs.isLt
  rw [BitVec.lt_def]
  rcases add_turn rhs delta with ⟨fits, same⟩ | ⟨wraps, same⟩ <;> omega

theorem sub_lt_iff :
    rhs - delta < lhs ↔ rhs.toNat < lhs.toNat + delta.toNat ∧
      (delta.toNat ≤ rhs.toNat ∨ rhs.toNat + 2 ^ w < lhs.toNat + delta.toNat) := by
  have rhs_lt := rhs.isLt
  rw [BitVec.lt_def]
  rcases sub_turn rhs delta with ⟨fits, same⟩ | ⟨wraps, same⟩ <;> omega

end DeltaWindow
