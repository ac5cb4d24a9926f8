import Nfql.Comparators
import Nfql.ThreeWay
import Mathlib.Data.Nat.Sqrt

set_option autoImplicit false

/- The aggregation functions that scripts/generate-functions.py writes into auto-comps.c. -/
namespace Nfql

open ThreeWay

/-- The sorting functions of the C library, at the types the engine sorts. -/
structure Libc where
  qsort : Qsort (BitVec 64)
  qsortR : Qsort RecordPtr

def Libc.insertion : Libc := ⟨Qsort.insertion, Qsort.insertion⟩

/-- `compar`: it looks at the low 32 bits of the values it sorts. -/
def compar (a b : BitVec 64) : Int :=
  compareNat (a.toNat % 2 ^ 32) (b.toNat % 2 ^ 32)

/-- `*(uintN_t*)(records[i] + field_offset)` for every `i`. -/
def fieldValues (atype : Width) (records : List RecordPtr) (fieldOffset : Nat) :
    List (BitVec 64) :=
  records.map fun member => readField atype member.record fieldOffset

/-- A single value, returned and written to the group record. -/
def saveValue (atype : Width) (groupAggregation : Record) (fieldOffset : Nat)
    (value : BitVec 64) : Aggr × Record :=
  (⟨[value]⟩, writeField atype groupAggregation fieldOffset value)

/-- What every aggregation function does for `num_records == 0`. -/
def noValues (groupAggregation : Record) : Aggr × Record := (⟨[]⟩, groupAggregation)

/-- The loop of `aggr_union_*` over the sorted values. -/
def distinctFrom (last : BitVec 64) : List (BitVec 64) → List (BitVec 64)
  | [] => []
  | value :: rest =>
      if value ≠ last then value :: distinctFrom value rest else distinctFrom last rest

/-- `aggr_union_<atype>`, which leaves the group record alone. -/
def aggrUnion (libc : Libc) (atype : Width) (records : List RecordPtr)
    (groupAggregation : Record) (fieldOffset : Nat) : Except Fault (Aggr × Record) := do
  intLoop records.length
  match libc.qsort.run compar (fieldValues atype records fieldOffset) with
  | [] => .ok (noValues groupAggregation)
  | first :: rest => .ok (⟨first :: distinctFrom first rest⟩, groupAggregation)

/-- `aggr_static_<atype>`: the first member's value if the field is common to the
group, else the union of the values and a zero in the group record. -/
def aggrStatic (libc : Libc) (atype : Width) (records : List RecordPtr)
    (groupAggregation : Record) (fieldOffset : Nat) (ifAggrCommon : Bool) :
    Except Fault (Aggr × Record) :=
  match records with
  | [] => .ok (noValues groupAggregation)
  | first :: _ =>
      if ifAggrCommon then
        .ok (saveValue atype groupAggregation fieldOffset
          (readField atype first.record fieldOffset))
      else do
        let (aggr, groupAggregation) ←
          aggrUnion libc atype records groupAggregation fieldOffset
        .ok (aggr, writeField atype groupAggregation fieldOffset 0#64)

/-- `aggr_count_<atype>`. -/
def aggrCount (atype : Width) (records : List RecordPtr) (groupAggregation : Record)
    (fieldOffset : Nat) : Except Fault (Aggr × Record) :=
  match records with
  | [] => .ok (noValues groupAggregation)
  | _ => .ok (saveValue atype groupAggregation fieldOffset (BitVec.ofNat 64 records.length))

/-- `aggr_<op>_<atype>` for the operators that fold over the values, starting
from the zero of `calloc`. -/
def aggrFold (step : BitVec 64 → BitVec 64 → BitVec 64) (atype : Width)
    (records : List RecordPtr) (groupAggregation : Record) (fieldOffset : Nat) :
    Except Fault (Aggr × Record) :=
  match records with
  | [] => .ok (noValues groupAggregation)
  | _ => do
      intLoop records.length
      let value := (fieldValues atype records fieldOffset).foldl step 0#64
      .ok (saveValue atype groupAggregation fieldOffset value)

/-- The sum of the values divided by their number, in 64 bits. -/
def meanValue (values : List (BitVec 64)) : BitVec 64 :=
  values.foldl (· + ·) 0#64 / BitVec.ofNat 64 values.length

/-- `aggr_mean_<atype>`. -/
def aggrMean (atype : Width) (records : List RecordPtr) (groupAggregation : Record)
    (fieldOffset : Nat) : Except Fault (Aggr × Record) :=
  match records with
  | [] => .ok (noValues groupAggregation)
  | _ => do
      intLoop records.length
      .ok (saveValue atype groupAggregation fieldOffset
        (meanValue (fieldValues atype records fieldOffset)))

/-- The squares are accumulated in the `uint32_t stddev`, whose root is truncated. -/
def stddevValue (values : List (BitVec 64)) : BitVec 64 :=
  let mean := meanValue values
  let squares : BitVec 32 := values.foldl
    (fun stddev value => stddev + ((value - mean) * (value - mean)).setWidth 32) 0#32
  BitVec.ofNat 64 (Nat.sqrt (squares.toNat / values.length))

/-- `aggr_stddev_<atype>`. -/
def aggrStddev (atype : Width) (records : List RecordPtr) (groupAggregation : Record)
    (fieldOffset : Nat) : Except Fault (Aggr × Record) :=
  match records with
  | [] => .ok (noValues groupAggregation)
  | _ => do
      intLoop records.length
      .ok (saveValue atype groupAggregation fieldOffset
        (stddevValue (fieldValues atype records fieldOffset)))

/-- `aggr_median_<atype>`. -/
def aggrMedian (libc : Libc) (atype : Width) (records : List RecordPtr)
    (groupAggregation : Record) (fieldOffset : Nat) : Except Fault (Aggr × Record) :=
  match records with
  | [] => .ok (noValues groupAggregation)
  | _ => do
      intLoop records.length
      match (libc.qsort.run compar (fieldValues atype records fieldOffset))[records.length / 2]? with
      | none => .error .outOfBounds
      | some value => .ok (saveValue atype groupAggregation fieldOffset value)

/-- `aggr_min_<atype>` and `aggr_max_<atype>`: the loop runs over all members, but
each turn compares the value kept so far with `records[0]` again. -/
def aggrExtreme (better : BitVec 64 → BitVec 64 → Bool) (atype : Width)
    (records : List RecordPtr) (groupAggregation : Record) (fieldOffset : Nat) :
    Except Fault (Aggr × Record) :=
  match records with
  | [] => .ok (noValues groupAggregation)
  | first :: rest => do
      intLoop records.length
      let value := readField atype first.record fieldOffset
      .ok (saveValue atype groupAggregation fieldOffset
        (rest.foldl (fun kept _ => if better value kept then value else kept) value))

/-- `aggr_<op>_<atype>`. -/
def aggrFunc (libc : Libc) (op : AggrOp) (atype : Width) (records : List RecordPtr)
    (groupAggregation : Record) (fieldOffset : Nat) (ifAggrCommon : Bool) :
    Except Fault (Aggr × Record) :=
  match op with
  | .static => aggrStatic libc atype records groupAggregation fieldOffset ifAggrCommon
  | .count => aggrCount atype records groupAggregation fieldOffset
  | .union => aggrUnion libc atype records groupAggregation fieldOffset
  | .min => aggrExtreme (fun value kept => decide (value < kept)) atype records
      groupAggregation fieldOffset
  | .max => aggrExtreme (fun value kept => decide (kept < value)) atype records
      groupAggregation fieldOffset
  | .median => aggrMedian libc atype records groupAggregation fieldOffset
  | .mean => aggrMean atype records groupAggregation fieldOffset
  | .stddev => aggrStddev atype records groupAggregation fieldOffset
  | .xor => aggrFold (· ^^^ ·) atype records groupAggregation fieldOffset
  | .sum => aggrFold (· + ·) atype records groupAggregation fieldOffset
  | .prod => aggrFold (· * ·) atype records groupAggregation fieldOffset
  | .and => aggrFold (· &&& ·) atype records groupAggregation fieldOffset
  | .or => aggrFold (· ||| ·) atype records groupAggregation fieldOffset

/-- A field of a record: the bytes a term reads or writes. -/
structure Field where
  offset : Nat
  width : Width
  deriving DecidableEq, Repr

def Field.covers (field : Field) (index : Nat) : Prop :=
  field.offset ≤ index ∧ index < field.offset + field.width.bytes

instance (field : Field) (index : Nat) : Decidable (field.covers index) :=
  inferInstanceAs (Decidable (_ ∧ _))

def Field.read (field : Field) (record : Record) : BitVec 64 :=
  readField field.width record field.offset

/-- The values of a field in all members. -/
def Field.values (field : Field) (members : List RecordPtr) : List (BitVec 64) :=
  members.map fun member => field.read member.record

/-- No byte belongs to both fields. -/
def Field.Apart (field other : Field) : Prop :=
  ByteMemory.Apart field.offset field.width.bytes other.offset other.width.bytes

/-- The values an aggregation writes to the group record: none for `RULE_UNION`,
a zero for a `RULE_STATIC` field that is not common to the group. -/
def aggrValue (libc : Libc) (op : AggrOp) (values : List (BitVec 64)) (common : Bool) :
    Option (BitVec 64) :=
  match op with
  | .static => some (if common then values.headD 0#64 else 0#64)
  | .count => some (BitVec.ofNat 64 values.length)
  | .union => none
  | .min | .max => some (values.headD 0#64)
  | .median => some ((libc.qsort.run compar values)[values.length / 2]?.getD 0#64)
  | .mean => some (meanValue values)
  | .stddev => some (stddevValue values)
  | .xor => some (values.foldl (· ^^^ ·) 0#64)
  | .sum => some (values.foldl (· + ·) 0#64)
  | .prod => some (values.foldl (· * ·) 0#64)
  | .and => some (values.foldl (· &&& ·) 0#64)
  | .or => some (values.foldl (· ||| ·) 0#64)

/-- What `aggr_union_*` makes of the sorted values. -/
def distinct : List (BitVec 64) → List (BitVec 64)
  | [] => []
  | value :: later => value :: distinctFrom value later

/-- The operators that return the distinct values of the members. -/
def AggrOp.isSet (op : AggrOp) (common : Bool) : Bool :=
  match op with
  | .union => true
  | .static => !common
  | _ => false

/-- The values that an aggregation of these values returns. -/
def aggrResults (libc : Libc) (op : AggrOp) (values : List (BitVec 64)) (common : Bool) :
    List (BitVec 64) :=
  if op.isSet common then distinct (libc.qsort.run compar values)
  else [(aggrValue libc op values common).getD 0#64]

/-- The group record after an aggregation. -/
def recordWith (field : Field) (record : Record) : Option (BitVec 64) → Record
  | none => record
  | some value => writeField field.width record field.offset value

theorem fieldValues_eq (field : Field) (members : List RecordPtr) :
    fieldValues field.width members field.offset = field.values members := rfl

theorem fieldValues_length (atype : Width) (records : List RecordPtr) (fieldOffset : Nat) :
    (fieldValues atype records fieldOffset).length = records.length :=
  List.length_map _

theorem values_length (field : Field) (members : List RecordPtr) :
    (field.values members).length = members.length :=
  fieldValues_length field.width members field.offset

/-- The loop of `aggr_min_*` and `aggr_max_*` never changes the value it keeps. -/
theorem aggrExtreme_ok (better : BitVec 64 → BitVec 64 → Bool) (field : Field)
    (first : RecordPtr) (rest : List RecordPtr) (record : Record)
    (inside : (first :: rest).length ≤ intMax) :
    aggrExtreme better field.width (first :: rest) record field.offset =
      .ok (saveValue field.width record field.offset (field.read first.record)) := by
  have constant : ∀ members : List RecordPtr, ∀ value, members.foldl
      (fun kept _ => if better value kept then value else kept) value = value := by
    intro members value
    induction members with
    | nil => rfl
    | cons member later ih => simp only [List.foldl_cons, ite_self, ih]
  simp only [aggrExtreme, intLoop_ok _ inside, ok_bind, constant, Field.read]

theorem aggrUnion_ok (libc : Libc) (field : Field) (members : List RecordPtr) (record : Record)
    (inside : members.length ≤ intMax) :
    aggrUnion libc field.width members record field.offset =
      .ok (⟨distinct (libc.qsort.run compar (field.values members))⟩, record) := by
  simp only [aggrUnion, intLoop_ok _ inside, ok_bind, fieldValues_eq]
  generalize libc.qsort.run compar (field.values members) = sorted
  cases sorted with
  | nil => rfl
  | cons value later => rfl

/-- `RULE_MEDIAN` finds a value in the middle of the sorted ones. -/
theorem sorted_middle (libc : Libc) (field : Field) (members : List RecordPtr)
    (nonempty : members ≠ []) :
    ∃ value, (libc.qsort.run compar (field.values members))[members.length / 2]? = some value := by
  have length : (libc.qsort.run compar (field.values members)).length = members.length :=
    (libc.qsort.perm compar (field.values members)).length_eq.trans (values_length field members)
  have positive := List.length_pos_of_ne_nil nonempty
  have bound : members.length / 2 < (libc.qsort.run compar (field.values members)).length := by
    omega
  exact ⟨_, List.getElem?_eq_getElem bound⟩

/-- Whether the operator's loop over the members counts with an `int`. -/
def AggrOp.loops (op : AggrOp) (common : Bool) : Bool :=
  match op with
  | .static => !common
  | .count => false
  | _ => true

/-- On a group in range every aggregation succeeds: it returns these values, and writes
its one value if it has one. -/
theorem aggrFunc_ok (libc : Libc) (op : AggrOp) (field : Field) (members : List RecordPtr)
    (record : Record) (common : Bool) (nonempty : members ≠ [])
    (inside : op.loops common = true → members.length ≤ intMax) :
    aggrFunc libc op field.width members record field.offset common =
      .ok (⟨aggrResults libc op (field.values members) common⟩,
        recordWith field record (aggrValue libc op (field.values members) common)) := by
  obtain ⟨first, rest, rfl⟩ := List.exists_cons_of_ne_nil nonempty
  cases op with
  | static =>
      cases common with
      | true => rfl
      | false =>
          have union := aggrUnion_ok libc field _ record (inside rfl)
          simp only [aggrFunc, aggrStatic, Bool.false_eq_true, ↓reduceIte, union, ok_bind]
          rfl
  | count =>
      simp only [aggrFunc, aggrCount, aggrResults, aggrValue, values_length]
      rfl
  | union => exact aggrUnion_ok libc field _ record (inside rfl)
  | median =>
      obtain ⟨value, middle⟩ := sorted_middle libc field (first :: rest) nonempty
      simp only [aggrFunc, aggrMedian, intLoop_ok _ (inside rfl), ok_bind, fieldValues_eq, middle,
        aggrResults, aggrValue, values_length]
      rfl
  | min | max =>
      simp only [aggrFunc, aggrExtreme_ok _ _ _ _ _ (inside rfl)]
      rfl
  | mean | stddev | xor | sum | prod | and | or =>
      simp only [aggrFunc, aggrMean, aggrStddev, aggrFold, intLoop_ok _ (inside rfl), ok_bind]
      rfl

/-- Beyond `INT_MAX` members an aggregation that loops runs into the overflow. -/
theorem aggrFunc_error (libc : Libc) (op : AggrOp) (field : Field) (members : List RecordPtr)
    (record : Record) (common : Bool) (loops : op.loops common = true)
    (beyond : intMax < members.length) :
    aggrFunc libc op field.width members record field.offset common = .error .intOverflow := by
  obtain ⟨first, rest, rfl⟩ : ∃ first rest, members = first :: rest := by
    cases members with
    | nil => cases beyond
    | cons first rest => exact ⟨first, rest, rfl⟩
  have overflow := intLoop_error _ beyond
  cases op with
  | static =>
      have apart : common = false := by simpa [AggrOp.loops] using loops
      simp only [aggrFunc, aggrStatic, apart, Bool.false_eq_true, ↓reduceIte, aggrUnion, overflow,
        error_bind]
  | count => cases loops
  | union | min | max | median | mean | stddev | xor | sum | prod | and | or =>
      simp only [aggrFunc, aggrUnion, aggrExtreme, aggrMedian, aggrMean, aggrStddev, aggrFold,
        overflow, error_bind]

end Nfql
