import Mathlib.Algebra.Group.Nat.Even
import Nfql.MeanAggregations
import Nfql.SortedAggregations

set_option autoImplicit false

/- The bytes of the values that the operators make: when they are those of the first
member's value. -/
namespace Nfql

section Bytes

/-- A byte of a number. -/
def numberByte (number position : Nat) : BitVec 8 := BitVec.ofNat 8 (number / 256 ^ position)

/-- A byte of a value. -/
def byteOf (value : BitVec 64) (position : Nat) : BitVec 8 :=
  BitVec.ofNat 8 (value.toNat / 256 ^ position)

theorem numberByte_mod (number position : Nat) (inside : position < 8) :
    numberByte (number % 2 ^ 64) position = numberByte number position := by
  have split : 2 ^ 64 = 256 ^ position * 256 ^ (8 - position) := by
    rw [← Nat.pow_add, Nat.add_sub_cancel' (Nat.le_of_lt inside)]
    rfl
  have byte : 256 ∣ 256 ^ (8 - position) := dvd_pow_self 256 (by omega)
  apply BitVec.eq_of_toNat_eq
  simp only [numberByte, BitVec.toNat_ofNat]
  rw [split, Nat.mod_mul_right_div_self]
  exact Nat.mod_mod_of_dvd _ byte

theorem byteOf_ofNat (number position : Nat) (inside : position < 8) :
    byteOf (BitVec.ofNat 64 number) position = numberByte number position := by
  rw [byteOf, BitVec.toNat_ofNat]
  exact numberByte_mod number position inside

theorem byteOf_zero (position : Nat) : byteOf 0#64 position = 0#8 := by
  rw [byteOf, BitVec.toNat_ofNat, Nat.zero_mod, Nat.zero_div]

theorem byteOf_bit (value : BitVec 64) (position bit : Nat) (inside : bit < 8) :
    (byteOf value position).getLsbD bit = value.getLsbD (8 * position + bit) := by
  have power : 256 ^ position = 2 ^ (8 * position) := by rw [Nat.pow_mul]
  rw [byteOf, BitVec.getLsbD_ofNat, power, Nat.testBit_div_two_pow, BitVec.getLsbD,
    Nat.add_comm bit]
  simp [inside]

theorem byte_ext {byte byte' : BitVec 8}
    (same : ∀ bit < 8, byte.getLsbD bit = byte'.getLsbD bit) : byte = byte' :=
  BitVec.eq_of_getLsbD_eq same

variable (values : List (BitVec 64)) (start : BitVec 64) (position : Nat)

theorem foldl_or_bit (index : Nat) :
    (values.foldl (· ||| ·) start).getLsbD index = true ↔
      start.getLsbD index = true ∨ ∃ value ∈ values, value.getLsbD index = true := by
  induction values generalizing start with
  | nil => simp
  | cons value rest ih =>
      rw [List.foldl_cons, ih, BitVec.getLsbD_or, Bool.or_eq_true, or_assoc]
      simp

theorem foldl_xor_bit (index : Nat) :
    (values.foldl (· ^^^ ·) start).getLsbD index = start.getLsbD index ↔
      Even (values.countP fun value => value.getLsbD index) := by
  induction values generalizing start with
  | nil => simp
  | cons value rest ih =>
      have later := ih (start ^^^ value)
      rw [BitVec.getLsbD_xor] at later
      rw [List.foldl_cons, List.countP_cons]
      cases set : value.getLsbD index with
      | false =>
          rw [set, Bool.xor_false] at later
          simpa using later
      | true =>
          rw [set, Bool.xor_true] at later
          simp only [↓reduceIte, Nat.even_add_one, ← later]
          cases start.getLsbD index <;> simp

theorem foldl_or_byte :
    byteOf (values.foldl (· ||| ·) start) position = byteOf start position ↔
      ∀ value ∈ values, byteOf value position ||| byteOf start position =
        byteOf start position := by
  constructor
  · intro same value isValue
    apply byte_ext
    intro bit inside
    rw [BitVec.getLsbD_or, byteOf_bit _ _ _ inside, byteOf_bit _ _ _ inside]
    by_cases set : value.getLsbD (8 * position + bit) = true
    · have joined := (foldl_or_bit values start (8 * position + bit)).mpr (.inr ⟨value, isValue, set⟩)
      rw [← byteOf_bit _ _ _ inside, same, byteOf_bit _ _ _ inside] at joined
      rw [joined, Bool.or_true]
    · rw [Bool.not_eq_true] at set
      rw [set, Bool.false_or]
  · intro absorbed
    apply byte_ext
    intro bit inside
    rw [byteOf_bit _ _ _ inside, byteOf_bit _ _ _ inside, Bool.eq_iff_iff, foldl_or_bit]
    refine or_iff_left_of_imp ?_
    rintro ⟨value, isValue, set⟩
    have byte := congrArg (BitVec.getLsbD · bit) (absorbed value isValue)
    simp only [BitVec.getLsbD_or, byteOf_bit _ _ _ inside, set, Bool.true_or] at byte
    exact byte.symm

theorem foldl_xor_byte :
    byteOf (values.foldl (· ^^^ ·) start) position = byteOf start position ↔
      ∀ bit < 8, Even (values.countP fun value => (byteOf value position).getLsbD bit) := by
  have counted (bit : Nat) (inside : bit < 8) :
      (values.countP fun value => (byteOf value position).getLsbD bit) =
        values.countP fun value => value.getLsbD (8 * position + bit) := by
    simp only [byteOf_bit _ _ _ inside]
  constructor
  · intro same bit inside
    rw [counted bit inside, ← foldl_xor_bit values start, ← byteOf_bit _ _ _ inside, same,
      byteOf_bit _ _ _ inside]
  · intro even
    apply byte_ext
    intro bit inside
    have parity := even bit inside
    rw [counted bit inside, ← foldl_xor_bit values start] at parity
    rw [byteOf_bit _ _ _ inside, byteOf_bit _ _ _ inside, parity]

end Bytes

section Operators

/-- Of a group's values, the first and the others, the operator makes one with the first
value's byte at a position. -/
def AggrOp.Repeats (libc : Libc) (op : AggrOp) (common : Bool) (position : Nat)
    (first : BitVec 64) (rest : List (BitVec 64)) : Prop :=
  let mean := exactSum (first :: rest) % 2 ^ 64 / (rest.length + 1)
  match op with
  | .union | .min | .max => True
  | .static => common = true ∨ byteOf first position = 0#8
  | .count => numberByte (rest.length + 1) position = byteOf first position
  | .sum => numberByte (exactSum (first :: rest)) position = byteOf first position
  | .prod | .and => byteOf first position = 0#8
  | .or => ∀ value ∈ rest, byteOf value position ||| byteOf first position = byteOf first position
  | .xor => ∀ bit < 8, Even (rest.countP fun value => (byteOf value position).getLsbD bit)
  | .mean => numberByte mean position = byteOf first position
  | .stddev =>
      numberByte (Nat.sqrt (exactSquares mean (first :: rest) % 2 ^ 32 / (rest.length + 1)))
        position = byteOf first position
  | .median => ∃ middle,
      (libc.qsort.run compar (first :: rest))[(rest.length + 1) / 2]? = some middle ∧
        byteOf middle position = byteOf first position

variable (libc : Libc) (op : AggrOp) (common : Bool) (position : Nat) (first : BitVec 64)
  (rest : List (BitVec 64))

theorem sum_byte (inside : position < 8) :
    byteOf ((first :: rest).foldl (· + ·) 0#64) position =
      numberByte (exactSum (first :: rest)) position := by
  rw [byteOf, foldl_add_toNat, BitVec.toNat_ofNat, Nat.zero_mod, Nat.zero_add]
  exact numberByte_mod _ _ inside

theorem mean_byte (small : rest.length + 1 < 2 ^ 64) :
    byteOf (meanValue (first :: rest)) position =
      numberByte (exactSum (first :: rest) % 2 ^ 64 / (rest.length + 1)) position := by
  rw [byteOf, meanValue_toNat (first :: rest) small]
  rfl

theorem stddev_byte (small : rest.length + 1 < 2 ^ 64) :
    byteOf (stddevValue (first :: rest)) position =
      numberByte (Nat.sqrt (exactSquares (exactSum (first :: rest) % 2 ^ 64 / (rest.length + 1))
        (first :: rest) % 2 ^ 32 / (rest.length + 1))) position := by
  rw [byteOf, stddevValue_toNat _ _ (meanValue_toNat (first :: rest) small)]
  rfl

/-- A looping operator has seen at most `INT_MAX` values. -/
theorem repeats_iff (writes : op ≠ .union) (inside : position < 8)
    (few : op.loops common = true → rest.length + 1 ≤ intMax) :
    byteOf ((aggrValue libc op (first :: rest) common).getD 0#64) position = byteOf first position ↔
      op.Repeats libc common position first rest := by
  have small (loops : op.loops common = true) : rest.length + 1 < 2 ^ 64 := by
    have most := few loops
    have limit : intMax < 2 ^ 64 := by decide
    omega
  cases op with
  | union => exact absurd rfl writes
  | min | max => exact iff_of_true rfl trivial
  | static =>
      cases common with
      | true => exact iff_of_true rfl (.inl rfl)
      | false =>
          show byteOf 0#64 position = byteOf first position ↔ _ ∨ _
          rw [byteOf_zero, eq_comm]
          simp
  | count =>
      show byteOf (BitVec.ofNat 64 (rest.length + 1)) position = _ ↔ _
      rw [byteOf_ofNat _ _ inside]
      rfl
  | sum =>
      show byteOf ((first :: rest).foldl (· + ·) 0#64) position = _ ↔ _
      rw [sum_byte position first rest inside]
      rfl
  | prod =>
      have absorbed : (first :: rest).foldl (· * ·) 0#64 = 0#64 :=
        List.foldl_fixed' (fun value => BitVec.zero_mul) _
      show byteOf ((first :: rest).foldl (· * ·) 0#64) position = _ ↔ _
      rw [absorbed, byteOf_zero]
      exact eq_comm
  | and =>
      have absorbed : (first :: rest).foldl (· &&& ·) 0#64 = 0#64 :=
        List.foldl_fixed' (fun value => BitVec.zero_and) _
      show byteOf ((first :: rest).foldl (· &&& ·) 0#64) position = _ ↔ _
      rw [absorbed, byteOf_zero]
      exact eq_comm
  | or =>
      show byteOf ((first :: rest).foldl (· ||| ·) 0#64) position = _ ↔ _
      rw [List.foldl_cons, BitVec.zero_or]
      exact foldl_or_byte rest first position
  | xor =>
      show byteOf ((first :: rest).foldl (· ^^^ ·) 0#64) position = _ ↔ _
      rw [List.foldl_cons, BitVec.zero_xor]
      exact foldl_xor_byte rest first position
  | mean =>
      show byteOf (meanValue (first :: rest)) position = _ ↔ _
      rw [mean_byte position first rest (small rfl)]
      rfl
  | stddev =>
      show byteOf (stddevValue (first :: rest)) position = _ ↔ _
      rw [stddev_byte position first rest (small rfl)]
      rfl
  | median =>
      have length : (libc.qsort.run compar (first :: rest)).length = rest.length + 1 :=
        (libc.qsort.perm compar (first :: rest)).length_eq
      have middle : (rest.length + 1) / 2 < (libc.qsort.run compar (first :: rest)).length := by
        omega
      show byteOf ((libc.qsort.run compar (first :: rest))[(rest.length + 1) / 2]?.getD 0#64) _ = _ ↔
        ∃ _, _
      rw [List.getElem?_eq_getElem middle, Option.getD_some]
      simp

end Operators

section Shared

variable (libc : Libc) (op : AggrOp) (common : Bool) (position : Nat) (value : BitVec 64)
  (others : Nat)

/-- The operators that keep the byte of a value that all members share. -/
def AggrOp.RepeatsShared : Prop :=
  match op with
  | .union | .min | .max | .or | .median | .mean => True
  | .static => common = true ∨ byteOf value position = 0#8
  | .count => numberByte (others + 1) position = byteOf value position
  | .sum => numberByte ((others + 1) * value.toNat) position = byteOf value position
  | .prod | .and | .stddev => byteOf value position = 0#8
  | .xor => Even others ∨ byteOf value position = 0#8

theorem exactSum_shared :
    exactSum (value :: List.replicate others value) = (others + 1) * value.toNat := by
  rw [← List.replicate_succ, exactSum, List.map_replicate, List.sum_replicate_nat]

theorem exactSquares_shared :
    exactSquares value.toNat (value :: List.replicate others value) = 0 := by
  rw [← List.replicate_succ, exactSquares, List.map_replicate, List.sum_replicate_nat]
  simp

/-- For members that share their value the operators' arithmetic is that of one value. -/
theorem repeats_shared_iff (small : (others + 1) * value.toNat < 2 ^ 64) :
    op.Repeats libc common position value (List.replicate others value) ↔
      op.RepeatsShared common position value others := by
  have mean : exactSum (value :: List.replicate others value) % 2 ^ 64 / (others + 1) =
      value.toNat := by
    rw [exactSum_shared, Nat.mod_eq_of_lt small, Nat.mul_div_cancel_left _ (Nat.succ_pos others)]
  cases op with
  | union | min | max | static | prod | and => exact Iff.rfl
  | count =>
      simp only [AggrOp.Repeats, AggrOp.RepeatsShared, List.length_replicate]
  | sum =>
      simp only [AggrOp.Repeats, AggrOp.RepeatsShared, exactSum_shared]
  | or =>
      refine iff_of_true (fun other member => ?_) trivial
      rw [List.eq_of_mem_replicate member, BitVec.or_self]
  | xor =>
      simp only [AggrOp.Repeats, AggrOp.RepeatsShared, List.countP_replicate]
      constructor
      · intro even
        by_cases odd : Even others
        · exact .inl odd
        · right
          apply byte_ext
          intro bit inside
          rw [BitVec.getLsbD_zero]
          by_contra set
          have all := even bit inside
          rw [if_pos (by simpa using set)] at all
          exact odd all
      · rintro (even | zero) bit inside
        · split
          · exact even
          · exact Even.zero
        · rw [zero, BitVec.getLsbD_zero, if_neg Bool.false_ne_true]
          exact Even.zero
  | mean =>
      simp only [AggrOp.Repeats, AggrOp.RepeatsShared, List.length_replicate, mean]
      exact iff_of_true rfl trivial
  | stddev =>
      simp only [AggrOp.Repeats, AggrOp.RepeatsShared, List.length_replicate, mean,
        exactSquares_shared]
      rw [Nat.zero_mod, Nat.zero_div, Nat.sqrt_zero, numberByte, Nat.zero_div, eq_comm]
  | median =>
      have sorted := libc.qsort.perm compar (value :: List.replicate others value)
      have each : ∀ other ∈ libc.qsort.run compar (value :: List.replicate others value),
          other = value := by
        intro other member
        have given := sorted.mem_iff.mp member
        rw [← List.replicate_succ] at given
        exact List.eq_of_mem_replicate given
      have length := sorted.length_eq
      rw [List.length_cons] at length
      refine iff_of_true ⟨value, ?_, rfl⟩ trivial
      rw [List.eq_replicate_of_mem each, List.getElem?_replicate, if_pos]
      rw [length, List.length_replicate]
      omega

end Shared

end Nfql
