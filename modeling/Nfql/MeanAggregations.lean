import Mathlib.Algebra.Order.Ring.Nat
import Mathlib.Tactic.Ring
import Nfql.FoldAggregations

set_option autoImplicit false

/- The aggregations that divide by the number of members: `RULE_MEAN` and `RULE_STDDEV`. -/
namespace Nfql

section Roots

/-- Two quotients by one number have the same integer root. -/
theorem sqrt_div_eq_iff (part whole count : Nat) (positive : 0 < count) (below : part ≤ whole) :
    Nat.sqrt (part / count) = Nat.sqrt (whole / count) ↔
      ∃ root, count * root ^ 2 ≤ part ∧ whole < count * (root + 1) ^ 2 := by
  have lower : ∀ root number, root ^ 2 ≤ number / count ↔ count * root ^ 2 ≤ number := by
    intro root number
    rw [Nat.le_div_iff_mul_le positive, Nat.mul_comm]
  have upper : ∀ root number, number / count < root ^ 2 ↔ number < count * root ^ 2 := by
    intro root number
    rw [Nat.div_lt_iff_lt_mul positive, Nat.mul_comm]
  constructor
  · intro same
    have left := Nat.eq_sqrt'.mp (rfl : Nat.sqrt (part / count) = _)
    have right := Nat.eq_sqrt'.mp same
    exact ⟨_, (lower _ _).mp left.1, (upper _ _).mp right.2⟩
  · rintro ⟨root, least, greatest⟩
    have left := Nat.eq_sqrt'.mpr ⟨(lower root part).mpr least,
      (upper (root + 1) part).mpr (by omega)⟩
    have right := Nat.eq_sqrt'.mpr ⟨(lower root whole).mpr (by omega),
      (upper (root + 1) whole).mpr greatest⟩
    rw [← left, ← right]

/-- If a number and its remainder have the same root so divided, the number is below the
modulus, or the divisor is not much below it. -/
theorem modulus_lt_of_root (whole modulus count root : Nat) (positive : 0 < modulus)
    (least : count * root ^ 2 ≤ whole % modulus) (greatest : whole < count * (root + 1) ^ 2)
    (beyond : modulus ≤ whole) : modulus < 5 * count := by
  have remainder := Nat.mod_lt whole positive
  have multiple := Nat.mod_add_div whole modulus
  have one : modulus * 1 ≤ modulus * (whole / modulus) :=
    Nat.mul_le_mul_left _ (Nat.div_pos beyond positive)
  have square : count * (root + 1) ^ 2 = count * root ^ 2 + count * (2 * root + 1) := by ring
  have gap : count * root ^ 2 < count * (2 * root + 1) := by omega
  have small : root ^ 2 < 2 * root + 1 := Nat.lt_of_mul_lt_mul_left gap
  have root_le : root ≤ 2 := by
    by_contra greater
    have cube : 3 * root ≤ root * root := Nat.mul_le_mul_right root (by omega)
    rw [Nat.pow_two] at small
    omega
  have five : count * (2 * root + 1) ≤ count * 5 := Nat.mul_le_mul_left _ (by omega)
  omega

end Roots

section Exact

/-- The exact sum of the values. -/
def exactSum (values : List (BitVec 64)) : Nat := (values.map BitVec.toNat).sum

/-- The exact sum of the squared distances from a mean. -/
def exactSquares (mean : Nat) (values : List (BitVec 64)) : Nat :=
  (values.map fun value => ((value.toNat : Int) - mean).natAbs ^ 2).sum

/-- An unsigned difference that went below zero has the right square. -/
theorem sub_square_toNat (value mean : BitVec 64) :
    ((value - mean) * (value - mean)).toNat =
      ((value.toNat : Int) - mean.toNat).natAbs ^ 2 % 2 ^ 64 := by
  by_cases below : mean.toNat ≤ value.toNat
  · have difference : (value - mean).toNat = ((value.toNat : Int) - mean.toNat).natAbs := by bv_omega
    rw [BitVec.toNat_mul, difference, Nat.pow_two]
  · have difference : (mean - value).toNat = ((value.toNat : Int) - mean.toNat).natAbs := by bv_omega
    have swap : value - mean = -(mean - value) := by
      rw [BitVec.neg_sub, BitVec.sub_eq_add_neg, BitVec.add_comm]
    rw [swap, BitVec.neg_mul_neg, BitVec.toNat_mul, difference, Nat.pow_two]

theorem foldl_squares_toNat (mean : BitVec 64) (values : List (BitVec 64)) (start : BitVec 32) :
    (values.foldl (fun stddev value =>
        stddev + ((value - mean) * (value - mean)).setWidth 32) start).toNat =
      (start.toNat + exactSquares mean.toNat values) % 2 ^ 32 := by
  induction values generalizing start with
  | nil => exact (Nat.mod_eq_of_lt start.isLt).symm
  | cons value rest ih =>
      have square : exactSquares mean.toNat (value :: rest) =
          ((value.toNat : Int) - mean.toNat).natAbs ^ 2 + exactSquares mean.toNat rest := rfl
      have narrow : 2 ^ 32 ∣ 2 ^ 64 := by decide
      rw [List.foldl_cons, ih, BitVec.toNat_add, BitVec.toNat_setWidth, sub_square_toNat, square,
        Nat.mod_mod_of_dvd _ narrow, Nat.mod_add_mod, Nat.add_right_comm, Nat.add_mod_mod]
      ac_rfl

theorem meanValue_toNat (values : List (BitVec 64)) (small : values.length < 2 ^ 64) :
    (meanValue values).toNat = exactSum values % 2 ^ 64 / values.length := by
  rw [meanValue, BitVec.toNat_udiv, foldl_add_toNat, BitVec.toNat_ofNat, BitVec.toNat_ofNat,
    Nat.mod_eq_of_lt small, Nat.zero_mod, Nat.zero_add]
  rfl

/-- The mean is exact unless the sum overflows. -/
theorem meanValue_exact_iff (values : List (BitVec 64)) (positive : 0 < values.length)
    (small : values.length < 2 ^ 64) :
    (meanValue values).toNat = exactSum values / values.length ↔ exactSum values < 2 ^ 64 := by
  rw [meanValue_toNat values small]
  constructor
  · intro same
    by_contra overflow
    have kept : exactSum values % 2 ^ 64 + values.length ≤ exactSum values := by omega
    have lost := Nat.div_le_div_right (c := values.length) kept
    rw [Nat.add_div_right _ positive] at lost
    omega
  · intro inside
    rw [Nat.mod_eq_of_lt inside]

/-- With an exact mean, the deviation is the root of the squares modulo 2^32. -/
theorem stddevValue_toNat (values : List (BitVec 64)) (mean : Nat)
    (exact : (meanValue values).toNat = mean) :
    (stddevValue values).toNat =
      Nat.sqrt (exactSquares mean values % 2 ^ 32 / values.length) := by
  have squares := foldl_squares_toNat (meanValue values) values 0#32
  rw [BitVec.toNat_ofNat, Nat.zero_mod, Nat.zero_add, exact] at squares
  rw [stddevValue, BitVec.toNat_ofNat, squares]
  apply Nat.mod_eq_of_lt
  have root := Nat.sqrt_le_self (exactSquares mean values % 2 ^ 32 / values.length)
  have quotient := Nat.div_le_self (exactSquares mean values % 2 ^ 32) values.length
  omega

end Exact

section Returned

variable (libc : Libc) (field : Field) (members : List RecordPtr) (record : Record) (common : Bool)

/-- The members' mean, rounded down. -/
def Field.mean : Nat := exactSum (field.values members) / members.length

/-- The sum of the members' squared distances from their mean. -/
def Field.squares : Nat := exactSquares (field.mean members) (field.values members)

def MeanReturned : Prop :=
  ∃ value, Aggregates libc .mean field members record common value ∧
    value.toNat = field.mean members

def StddevReturned : Prop :=
  ∃ value, Aggregates libc .stddev field members record common value ∧
    value.toNat = Nat.sqrt (field.squares members / members.length)

/-- The sum of squares fits a 32-bit word, or its low 32 bits have the same root. -/
def SquaresFit (count squares : Nat) : Prop :=
  squares < 2 ^ 32 ∨ ∃ root, count * root ^ 2 ≤ squares % 2 ^ 32 ∧ squares < count * (root + 1) ^ 2

variable {libc field members record common}

theorem mean_run (nonempty : members ≠ []) (inside : members.length ≤ intMax) :
    Aggregates libc .mean field members record common (meanValue (field.values members)) :=
  aggregates_saveValue (aggrFunc_ok libc .mean field members record common nonempty fun _ => inside)

theorem stddev_run (nonempty : members ≠ []) (inside : members.length ≤ intMax) :
    Aggregates libc .stddev field members record common (stddevValue (field.values members)) :=
  aggregates_saveValue
    (aggrFunc_ok libc .stddev field members record common nonempty fun _ => inside)

/-- Apart from the number of members, only the 64-bit sum limits the mean. -/
theorem mean_iff (nonempty : members ≠ []) :
    MeanReturned libc field members record common ↔
      members.length ≤ intMax ∧ exactSum (field.values members) < 2 ^ 64 := by
  have exact (inside : members.length ≤ intMax) :=
    meanValue_exact_iff (field.values members)
      (values_length field members ▸ List.length_pos_of_ne_nil nonempty)
      (by rw [values_length]; unfold intMax at inside; omega)
  simp only [values_length] at exact
  constructor
  · rintro ⟨value, run, same⟩
    have inside := aggrFunc_inside rfl run.choose_spec.1
    rw [run.unique (mean_run nonempty inside)] at same
    exact ⟨inside, (exact inside).mp same⟩
  · rintro ⟨inside, small⟩
    exact ⟨_, mean_run nonempty inside, (exact inside).mpr small⟩

/-- Given an exact mean, only the 32-bit sum of squares limits the deviation. -/
theorem stddev_iff (nonempty : members ≠ []) (inside : members.length ≤ intMax)
    (small : exactSum (field.values members) < 2 ^ 64) :
    StddevReturned libc field members record common ↔
      SquaresFit members.length (field.squares members) := by
  have positive := List.length_pos_of_ne_nil nonempty
  have returned : MeanReturned libc field members record common :=
    (mean_iff nonempty).mpr ⟨inside, small⟩
  obtain ⟨value, run, mean⟩ := returned
  rw [run.unique (mean_run nonempty inside)] at mean
  have root := stddevValue_toNat (field.values members) _ mean
  rw [values_length] at root
  have part := sqrt_div_eq_iff (field.squares members % 2 ^ 32) (field.squares members)
    members.length positive (Nat.mod_le _ _)
  constructor
  · rintro ⟨value, run, same⟩
    rw [run.unique (stddev_run nonempty inside), root] at same
    exact .inr (part.mp same)
  · intro fits
    refine ⟨_, stddev_run nonempty inside, root.trans ?_⟩
    rcases fits with fits | fits
    · exact congrArg (fun squares => Nat.sqrt (squares / members.length)) (Nat.mod_eq_of_lt fits)
    · exact part.mpr fits

/-- For groups of at most a fifth of 2^32 members the sum of squares itself has to fit. -/
theorem squaresFit_iff (count squares : Nat) (few : 5 * count ≤ 2 ^ 32) :
    SquaresFit count squares ↔ squares < 2 ^ 32 := by
  constructor
  · rintro (fits | ⟨root, least, greatest⟩)
    · exact fits
    · by_contra beyond
      have := modulus_lt_of_root squares (2 ^ 32) count root (by decide) least greatest (by omega)
      omega
  · exact .inl

end Returned

/-- Mean and deviation are exact exactly when neither of the two sums overflows, up to
sums of squares that share their root with what is left of them. -/
theorem meanStddev_iff (libc : Libc) (field : Field) (first : RecordPtr) (rest : List RecordPtr)
    (record : Record) (common : Bool) :
    (MeanReturned libc field (first :: rest) record common ∧
      StddevReturned libc field (first :: rest) record common) ↔
      (first :: rest).length ≤ intMax ∧ exactSum (field.values (first :: rest)) < 2 ^ 64 ∧
        SquaresFit (first :: rest).length (field.squares (first :: rest)) := by
  constructor
  · rintro ⟨mean, stddev⟩
    obtain ⟨inside, small⟩ := (mean_iff (by simp)).mp mean
    exact ⟨inside, small, (stddev_iff (by simp) inside small).mp stddev⟩
  · rintro ⟨inside, small, fits⟩
    exact ⟨(mean_iff (by simp)).mpr ⟨inside, small⟩, (stddev_iff (by simp) inside small).mpr fits⟩

/-- The 32-bit values 0 and 2^17 deviate by 2^16, whose square is beyond 32 bits. -/
theorem meanStddev_fail :
    ¬ ∀ (libc : Libc) (field : Field) (members : List RecordPtr) (record : Record) (common : Bool),
      members ≠ [] → members.length < 2 ^ 32 → MeanReturned libc field members record common ∧
        StddevReturned libc field members record common := by
  intro exact
  let members : List RecordPtr :=
    [⟨0, fun _ => 0#8⟩, ⟨1, fun index => if index = 2 then 2#8 else 0#8⟩]
  have stddev := (exact Libc.insertion ⟨0, .w32⟩ members (fun _ => 0#8) false (by simp [members])
    (by decide)).2
  rw [stddev_iff (by simp [members]) (by decide) (by decide), squaresFit_iff _ _ (by decide)]
    at stddev
  exact absurd stddev (by decide)

end Nfql
