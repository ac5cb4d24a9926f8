import Mathlib.Data.List.Basic
import Nfql.Aggregations

set_option autoImplicit false

/- The aggregations that keep one value while they walk over the members. -/
namespace Nfql

/-- The call returns this one value and stores it, cut to the field's width. -/
def Aggregates (libc : Libc) (op : AggrOp) (field : Field) (members : List RecordPtr)
    (record : Record) (common : Bool) (value : BitVec 64) : Prop :=
  ∃ stored, aggrFunc libc op field.width members record field.offset common =
    .ok (⟨[value]⟩, stored) ∧ (field.read stored).toNat = value.toNat % 2 ^ field.width.bits

section Single

variable {libc : Libc} {op : AggrOp} {field : Field} {members : List RecordPtr} {record : Record}
  {common : Bool} {value : BitVec 64}

/-- What a function saves is what it returns and stores. -/
theorem aggregates_saveValue (run : aggrFunc libc op field.width members record field.offset common =
    .ok (saveValue field.width record field.offset value)) :
    Aggregates libc op field members record common value :=
  ⟨_, run, readField_writeField _ _ _ _⟩

/-- An aggregation returns at most one value. -/
theorem Aggregates.unique {value' : BitVec 64}
    (run : Aggregates libc op field members record common value)
    (run' : Aggregates libc op field members record common value') : value = value' := by
  obtain ⟨stored, run, -⟩ := run
  obtain ⟨stored', run', -⟩ := run'
  rw [run] at run'
  cases run'
  rfl

/-- A looping aggregation that returns has a group in the range of its counter. -/
theorem aggrFunc_inside (loops : op.loops common = true) {result : Aggr × Record}
    (run : aggrFunc libc op field.width members record field.offset common = .ok result) :
    members.length ≤ intMax := by
  by_contra beyond
  rw [aggrFunc_error libc op field members record common loops (by omega)] at run
  cases run

end Single

section Extremes

variable (libc : Libc) (field : Field) (first : RecordPtr) (rest : List RecordPtr)
  (record : Record) (common : Bool)

/-- `RULE_MIN` returns and stores a least value of the members, `RULE_MAX` a greatest. -/
def ExtremeReturned (op : AggrOp) (within : BitVec 64 → BitVec 64 → Prop)
    (members : List RecordPtr) : Prop :=
  ∃ value stored, aggrFunc libc op field.width members record field.offset common =
      .ok (⟨[value]⟩, stored) ∧ field.read stored = value ∧
    value ∈ field.values members ∧ ∀ other ∈ field.values members, within value other

variable {libc field first rest record common}

/-- In range both return the first member's value, and store it whole. -/
theorem extremes_first (op : AggrOp) (extreme : op = .min ∨ op = .max)
    (inside : (first :: rest).length ≤ intMax) :
    ∃ stored, aggrFunc libc op field.width (first :: rest) record field.offset common =
      .ok (⟨[field.read first.record]⟩, stored) ∧ field.read stored = field.read first.record := by
  have narrow := readField_lt field.width first.record field.offset
  have whole := readField_writeField field.width record field.offset
    (readField field.width first.record field.offset)
  rw [Nat.mod_eq_of_lt narrow, BitVec.toNat_inj] at whole
  refine ⟨_, ?_, whole⟩
  rcases extreme with rfl | rfl
  · exact aggrFunc_ok libc .min field _ record common (List.cons_ne_nil _ _) fun _ => inside
  · exact aggrFunc_ok libc .max field _ record common (List.cons_ne_nil _ _) fun _ => inside

/-- The value is extreme exactly if the first member's is. -/
theorem extreme_iff (op : AggrOp) (within : BitVec 64 → BitVec 64 → Prop)
    (extreme : op = .min ∨ op = .max) (reflexive : ∀ value, within value value) :
    ExtremeReturned libc field record common op within (first :: rest) ↔
      (first :: rest).length ≤ intMax ∧
        ∀ member ∈ rest, within (field.read first.record) (field.read member.record) := by
  have loops : op.loops common = true := by
    rcases extreme with rfl | rfl
    · rfl
    · rfl
  constructor
  · rintro ⟨value, stored, run, -, -, least⟩
    have inside := aggrFunc_inside loops run
    obtain ⟨stored', run', -⟩ := extremes_first op extreme inside
    rw [run'] at run
    cases run
    refine ⟨inside, fun member isMember => least _ ?_⟩
    exact List.mem_map.mpr ⟨member, List.mem_cons_of_mem _ isMember, rfl⟩
  · rintro ⟨inside, least⟩
    obtain ⟨stored, run, whole⟩ := extremes_first op extreme inside
    refine ⟨_, stored, run, whole, List.mem_cons_self, fun other isValue => ?_⟩
    obtain ⟨member, isMember, rfl⟩ := List.mem_map.mp isValue
    rcases List.mem_cons.mp isMember with rfl | later
    · exact reflexive _
    · exact least member later

end Extremes

/-- The extrema are returned exactly when the first member has them. -/
theorem extremes_iff (libc : Libc) (field : Field) (first : RecordPtr) (rest : List RecordPtr)
    (record : Record) (common : Bool) :
    (ExtremeReturned libc field record common .min (· ≤ ·) (first :: rest) ↔
      (first :: rest).length ≤ intMax ∧
        ∀ member ∈ rest, field.read first.record ≤ field.read member.record) ∧
    (ExtremeReturned libc field record common .max (· ≥ ·) (first :: rest) ↔
      (first :: rest).length ≤ intMax ∧
        ∀ member ∈ rest, field.read member.record ≤ field.read first.record) := by
  constructor
  · exact extreme_iff .min _ (.inl rfl) fun value => BitVec.le_refl value
  · exact extreme_iff .max _ (.inr rfl) fun value => BitVec.le_refl value

/-- Of the values 2 and 1 both functions return 2. -/
theorem extremes_fail :
    ¬ ∀ (libc : Libc) (field : Field) (members : List RecordPtr) (record : Record) (common : Bool),
      members ≠ [] → ExtremeReturned libc field record common .min (· ≤ ·) members ∧
        ExtremeReturned libc field record common .max (· ≥ ·) members := by
  intro extremes
  have least := (extremes Libc.insertion ⟨0, .w8⟩ [⟨0, fun _ => 2#8⟩, ⟨1, fun _ => 1#8⟩]
    (fun _ => 0#8) false (by simp)).1
  rw [extreme_iff .min _ (.inl rfl) fun value => BitVec.le_refl value] at least
  exact absurd (least.2 ⟨1, fun _ => 1#8⟩ (by simp)) (by decide)

section Folds

/-- The operators that fold. -/
inductive FoldOp where
  | sum | prod | and | or | xor
  deriving DecidableEq, Repr

def FoldOp.op : FoldOp → AggrOp
  | .sum => .sum
  | .prod => .prod
  | .and => .and
  | .or => .or
  | .xor => .xor

def FoldOp.step : FoldOp → BitVec 64 → BitVec 64 → BitVec 64
  | .sum => (· + ·)
  | .prod => (· * ·)
  | .and => (· &&& ·)
  | .or => (· ||| ·)
  | .xor => (· ^^^ ·)

/-- The operator folded over the values, beginning with the first of them. -/
def FoldOp.fold (op : FoldOp) : List (BitVec 64) → BitVec 64
  | [] => 0#64
  | first :: rest => rest.foldl op.step first

/-- The zero that the accumulator starts with does no harm: it is the unit of the
operator, or the values fold to zero anyway. -/
def FoldOp.Harmless (op : FoldOp) (values : List (BitVec 64)) : Prop :=
  match op with
  | .sum | .or | .xor => True
  | .prod => 2 ^ 64 ∣ (values.map BitVec.toNat).prod
  | .and => ∀ index < 64, ∃ value ∈ values, value.getLsbD index = false

/-- In range the accumulator starts with zero. -/
theorem folds_zero (libc : Libc) (op : FoldOp) (field : Field) (first : RecordPtr)
    (rest : List RecordPtr) (record : Record) (common : Bool)
    (inside : (first :: rest).length ≤ intMax) :
    Aggregates libc op.op field (first :: rest) record common
      ((field.values (first :: rest)).foldl op.step 0#64) := by
  apply aggregates_saveValue
  have run := aggrFunc_ok libc op.op field _ record common (List.cons_ne_nil first rest)
    fun _ => inside
  cases op with
  | sum | prod | and | or | xor => exact run

theorem foldl_add_toNat (values : List (BitVec 64)) (start : BitVec 64) :
    (values.foldl (· + ·) start).toNat =
      (start.toNat + (values.map BitVec.toNat).sum) % 2 ^ 64 := by
  induction values generalizing start with
  | nil => rw [List.foldl_nil, List.map_nil, List.sum_nil, Nat.add_zero, Nat.mod_eq_of_lt start.isLt]
  | cons value rest ih =>
      rw [List.foldl_cons, ih, List.map_cons, List.sum_cons, BitVec.toNat_add, Nat.mod_add_mod,
        Nat.add_assoc]

theorem foldl_mul_toNat (values : List (BitVec 64)) (start : BitVec 64) :
    (values.foldl (· * ·) start).toNat =
      start.toNat * (values.map BitVec.toNat).prod % 2 ^ 64 := by
  induction values generalizing start with
  | nil => simp [Nat.mod_eq_of_lt start.isLt]
  | cons value rest ih =>
      rw [List.foldl_cons, ih, BitVec.toNat_mul, Nat.mod_mul_mod, List.map_cons, List.prod_cons,
        Nat.mul_assoc]

theorem foldl_and_bit (values : List (BitVec 64)) (start : BitVec 64) (index : Nat) :
    (values.foldl (· &&& ·) start).getLsbD index = true ↔
      ∀ value ∈ start :: values, value.getLsbD index = true := by
  induction values generalizing start with
  | nil => simp
  | cons value rest ih =>
      rw [List.foldl_cons, ih]
      simp only [List.forall_mem_cons, BitVec.getLsbD_and, Bool.and_eq_true, and_assoc]

theorem prod_eq_zero_iff (first : BitVec 64) (rest : List (BitVec 64)) :
    FoldOp.prod.fold (first :: rest) = 0#64 ↔ FoldOp.prod.Harmless (first :: rest) := by
  rw [← BitVec.toNat_inj]
  show (rest.foldl (· * ·) first).toNat = 0 ↔ _
  rw [foldl_mul_toNat, FoldOp.Harmless, List.map_cons, List.prod_cons]
  exact (Nat.dvd_iff_mod_eq_zero).symm

theorem and_eq_zero_iff (first : BitVec 64) (rest : List (BitVec 64)) :
    FoldOp.and.fold (first :: rest) = 0#64 ↔ FoldOp.and.Harmless (first :: rest) := by
  have bit := foldl_and_bit rest first
  show rest.foldl (· &&& ·) first = 0#64 ↔ ∀ index < 64, _
  constructor
  · intro zero index _
    by_contra allSet
    have set : ∀ value ∈ first :: rest, value.getLsbD index = true := by simpa using allSet
    rw [zero] at bit
    have set := (bit index).mpr set
    rw [BitVec.getLsbD_zero] at set
    cases set
  · intro clear
    apply BitVec.eq_of_getLsbD_eq
    intro index inside
    obtain ⟨value, isValue, unset⟩ := clear index inside
    rw [BitVec.getLsbD_zero, ← Bool.not_eq_true, bit]
    intro set
    rw [set value isValue] at unset
    cases unset

/-- Starting with zero gives the fold exactly when the zero does no harm. -/
theorem foldl_zero_iff (op : FoldOp) (first : BitVec 64) (rest : List (BitVec 64)) :
    (first :: rest).foldl op.step 0#64 = op.fold (first :: rest) ↔
      op.Harmless (first :: rest) := by
  cases op with
  | sum | or | xor => simp [FoldOp.step, FoldOp.fold, FoldOp.Harmless]
  | prod =>
      have absorbed : (first :: rest).foldl FoldOp.prod.step 0#64 = 0#64 :=
        List.foldl_fixed' (fun value => BitVec.zero_mul) _
      rw [absorbed, eq_comm, prod_eq_zero_iff]
  | and =>
      have absorbed : (first :: rest).foldl FoldOp.and.step 0#64 = 0#64 :=
        List.foldl_fixed' (fun value => BitVec.zero_and) _
      rw [absorbed, eq_comm, and_eq_zero_iff]

end Folds

/-- The operator is folded over all members, except that the zero at the start of a
product or a conjunction stays a zero. -/
theorem folds_iff (libc : Libc) (op : FoldOp) (field : Field) (first : RecordPtr)
    (rest : List RecordPtr) (record : Record) (common : Bool) :
    Aggregates libc op.op field (first :: rest) record common
        (op.fold (field.values (first :: rest))) ↔
      (first :: rest).length ≤ intMax ∧ op.Harmless (field.values (first :: rest)) := by
  have loops : op.op.loops common = true := by cases op <;> rfl
  have zero := folds_zero libc op field first rest record common
  have exact := foldl_zero_iff op (field.read first.record) (field.values rest)
  constructor
  · intro run
    have inside := aggrFunc_inside loops run.choose_spec.1
    exact ⟨inside, exact.mp ((zero inside).unique run)⟩
  · rintro ⟨inside, harmless⟩
    have same := exact.mpr harmless
    have run := zero inside
    exact same ▸ run

/-- The product of the single value 1 is returned as 0. -/
theorem folds_fail :
    ¬ ∀ (libc : Libc) (op : FoldOp) (field : Field) (members : List RecordPtr) (record : Record)
      (common : Bool), members ≠ [] →
        Aggregates libc op.op field members record common (op.fold (field.values members)) := by
  intro folds
  have run := folds Libc.insertion .prod ⟨0, .w8⟩ [⟨0, fun _ => 1#8⟩] (fun _ => 0#8) false (by simp)
  have zero := folds_zero Libc.insertion .prod ⟨0, .w8⟩ ⟨0, fun _ => 1#8⟩ [] (fun _ => 0#8) false
    (by decide)
  exact absurd (run.unique zero) (by decide)

end Nfql
