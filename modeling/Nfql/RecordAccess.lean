import Nfql.Grouper

set_option autoImplicit false

/- The generated functions once more, over a given way to read and write records: as it
is, or with a fault behind the end of the record. -/
namespace Nfql

structure Access where
  read : Width → Record → Nat → Except Fault (BitVec 64)
  write : Width → Record → Nat → BitVec 64 → Except Fault Record

/-- Every byte position belongs to the record. -/
def Access.direct : Access where
  read width record offset := .ok (readField width record offset)
  write width record offset value := .ok (writeField width record offset value)

/-- Only the byte positions smaller than the size belong to the record. -/
def Access.within (size : Nat) : Access where
  read width record offset :=
    if offset + width.bytes ≤ size then .ok (readField width record offset)
    else .error .outOfBounds
  write width record offset value :=
    if offset + width.bytes ≤ size then .ok (writeField width record offset value)
    else .error .outOfBounds

section Comparators

variable (access : Access)

/-- `filter_<op>_<atype>`. -/
def FilterTerm.funcOn (term : FilterTerm) (record : Record) : Except Fault Bool := do
  let lhs ← access.read term.fieldType record term.fieldOffset
  .ok (compareDelta term.op lhs term.value term.delta)

/-- `comp_uintN_t`. -/
def GrouperTerm.qsortCompOn (term : GrouperTerm) (record1 record2 : Record) :
    Except Fault Int := do
  let value1 ← access.read term.field2Type record1 term.fieldOffset2
  let value2 ← access.read term.field2Type record2 term.fieldOffset2
  .ok (ThreeWay.compareNat value1.toNat value2.toNat)

/-- `grouper_<op>_<atype1>_<atype2>_<dtype>`. -/
def GrouperTerm.funcOn (term : GrouperTerm) (members : List RecordPtr) (record2 : Record) :
    Except Fault Bool :=
  match groupMember term.optype members with
  | none => .ok false
  | some member => do
      let rec1 ← access.read term.field1Type member.record term.fieldOffset1
      let rec2 ← access.read term.field2Type record2 term.fieldOffset2
      match term.optype with
      | .no => .ok (compareNo term.op rec1 rec2)
      | .abs | .rel => .ok (compareDelta term.op rec1 rec2 term.delta)

/-- `gfilter_<op>_<atype>`. -/
def GroupfilterTerm.funcOn (term : GroupfilterTerm) (group : Group) : Except Fault Bool := do
  let lhs ← access.read term.fieldType group.record term.field
  .ok (compareDelta term.op lhs term.value term.delta)

end Comparators

section Aggregations

variable (access : Access) (libc : Libc) (atype : Width) (records : List RecordPtr)
  (groupAggregation : Record) (fieldOffset : Nat)

def fieldValuesOn : Except Fault (List (BitVec 64)) :=
  records.mapM fun member => access.read atype member.record fieldOffset

def saveValueOn (value : BitVec 64) : Except Fault (Aggr × Record) := do
  let groupAggregation ← access.write atype groupAggregation fieldOffset value
  .ok (⟨[value]⟩, groupAggregation)

def aggrUnionOn : Except Fault (Aggr × Record) := do
  intLoop records.length
  let values ← fieldValuesOn access atype records fieldOffset
  match libc.qsort.run compar values with
  | [] => .ok (noValues groupAggregation)
  | first :: rest => .ok (⟨first :: distinctFrom first rest⟩, groupAggregation)

def aggrStaticOn (ifAggrCommon : Bool) : Except Fault (Aggr × Record) :=
  match records with
  | [] => .ok (noValues groupAggregation)
  | first :: _ =>
      if ifAggrCommon then do
        let value ← access.read atype first.record fieldOffset
        saveValueOn access atype groupAggregation fieldOffset value
      else do
        let (aggr, groupAggregation) ←
          aggrUnionOn access libc atype records groupAggregation fieldOffset
        let groupAggregation ← access.write atype groupAggregation fieldOffset 0#64
        .ok (aggr, groupAggregation)

def aggrCountOn : Except Fault (Aggr × Record) :=
  match records with
  | [] => .ok (noValues groupAggregation)
  | _ => saveValueOn access atype groupAggregation fieldOffset (BitVec.ofNat 64 records.length)

/-- The functions that compute one value from those of all members: the folds, the mean
and the standard deviation. -/
def aggrValuesOn (value : List (BitVec 64) → BitVec 64) : Except Fault (Aggr × Record) :=
  match records with
  | [] => .ok (noValues groupAggregation)
  | _ => do
      intLoop records.length
      let values ← fieldValuesOn access atype records fieldOffset
      saveValueOn access atype groupAggregation fieldOffset (value values)

def aggrMedianOn : Except Fault (Aggr × Record) :=
  match records with
  | [] => .ok (noValues groupAggregation)
  | _ => do
      intLoop records.length
      let values ← fieldValuesOn access atype records fieldOffset
      match (libc.qsort.run compar values)[records.length / 2]? with
      | none => .error .outOfBounds
      | some value => saveValueOn access atype groupAggregation fieldOffset value

/-- The loop reads the first member's field in every turn. -/
def aggrExtremeOn (better : BitVec 64 → BitVec 64 → Bool) : Except Fault (Aggr × Record) :=
  match records with
  | [] => .ok (noValues groupAggregation)
  | first :: rest => do
      intLoop records.length
      let kept ← access.read atype first.record fieldOffset
      let kept ← rest.foldlM (fun kept _ => do
        let value ← access.read atype first.record fieldOffset
        .ok (if better value kept then value else kept)) kept
      saveValueOn access atype groupAggregation fieldOffset kept

/-- `aggr_<op>_<atype>`. -/
def aggrFuncOn (op : AggrOp) (ifAggrCommon : Bool) : Except Fault (Aggr × Record) :=
  match op with
  | .static => aggrStaticOn access libc atype records groupAggregation fieldOffset ifAggrCommon
  | .count => aggrCountOn access atype records groupAggregation fieldOffset
  | .union => aggrUnionOn access libc atype records groupAggregation fieldOffset
  | .min => aggrExtremeOn access atype records groupAggregation fieldOffset
      fun value kept => decide (value < kept)
  | .max => aggrExtremeOn access atype records groupAggregation fieldOffset
      fun value kept => decide (kept < value)
  | .median => aggrMedianOn access libc atype records groupAggregation fieldOffset
  | .mean => aggrValuesOn access atype records groupAggregation fieldOffset meanValue
  | .stddev => aggrValuesOn access atype records groupAggregation fieldOffset stddevValue
  | .xor => aggrValuesOn access atype records groupAggregation fieldOffset (·.foldl (· ^^^ ·) 0#64)
  | .sum => aggrValuesOn access atype records groupAggregation fieldOffset (·.foldl (· + ·) 0#64)
  | .prod => aggrValuesOn access atype records groupAggregation fieldOffset (·.foldl (· * ·) 0#64)
  | .and => aggrValuesOn access atype records groupAggregation fieldOffset (·.foldl (· &&& ·) 0#64)
  | .or => aggrValuesOn access atype records groupAggregation fieldOffset (·.foldl (· ||| ·) 0#64)

end Aggregations

section Served

/-- The access lets the field through. -/
structure Access.Serves (access : Access) (field : Field) : Prop where
  read : ∀ record, access.read field.width record field.offset = .ok (field.read record)
  write : ∀ record value, access.write field.width record field.offset value =
    .ok (writeField field.width record field.offset value)

/-- The access faults on the field. -/
structure Access.Refuses (access : Access) (field : Field) : Prop where
  read : ∀ record, access.read field.width record field.offset = .error .outOfBounds
  write : ∀ record value, access.write field.width record field.offset value = .error .outOfBounds

/-- All bytes of the field are smaller than the size. -/
def Field.Fits (size : Nat) (field : Field) : Prop := field.offset + field.width.bytes ≤ size

instance (size : Nat) (field : Field) : Decidable (field.Fits size) :=
  inferInstanceAs (Decidable (_ ≤ _))

/-- A field fits if every byte position that it covers is smaller than the size. -/
theorem Field.fits_iff (size : Nat) (field : Field) :
    field.Fits size ↔ ∀ index, field.covers index → index < size := by
  have positive : 0 < field.width.bytes := by cases field.width <;> decide
  unfold Field.Fits Field.covers
  constructor
  · intro fits index covered
    omega
  · intro inside
    have last := inside (field.offset + field.width.bytes - 1) (by omega)
    omega

theorem direct_serves (field : Field) : Access.direct.Serves field :=
  ⟨fun _ => rfl, fun _ _ => rfl⟩

theorem within_serves (size : Nat) (field : Field) (fits : field.Fits size) :
    (Access.within size).Serves field :=
  ⟨fun _ => if_pos fits, fun _ _ => if_pos fits⟩

theorem within_refuses (size : Nat) (field : Field) (behind : ¬ field.Fits size) :
    (Access.within size).Refuses field :=
  ⟨fun _ => if_neg behind, fun _ _ => if_neg behind⟩

variable {access : Access} {field : Field}

theorem Access.Serves.values (serves : access.Serves field) (records : List RecordPtr) :
    fieldValuesOn access field.width records field.offset =
      .ok (fieldValues field.width records field.offset) := by
  unfold fieldValuesOn fieldValues
  induction records with
  | nil => rfl
  | cons member rest ih =>
      rw [List.mapM_cons, serves.read, ok_bind, ih]
      rfl

theorem Access.Serves.save (serves : access.Serves field) (groupAggregation : Record)
    (value : BitVec 64) : saveValueOn access field.width groupAggregation field.offset value =
      .ok (saveValue field.width groupAggregation field.offset value) := by
  rw [saveValueOn, serves.write]
  rfl

theorem Access.Serves.union (serves : access.Serves field) (libc : Libc)
    (records : List RecordPtr) (groupAggregation : Record) :
    aggrUnionOn access libc field.width records groupAggregation field.offset =
      aggrUnion libc field.width records groupAggregation field.offset := by
  simp only [aggrUnionOn, serves.values, ok_bind]
  rfl

/-- The loop of the minimum and the maximum, read by read. -/
theorem Access.Serves.extreme (serves : access.Serves field)
    (better : BitVec 64 → BitVec 64 → Bool) (records : List RecordPtr)
    (groupAggregation : Record) :
    aggrExtremeOn access field.width records groupAggregation field.offset better =
      aggrExtreme better field.width records groupAggregation field.offset := by
  cases records with
  | nil => rfl
  | cons first rest =>
      have loop : ∀ kept, rest.foldlM (fun kept (_ : RecordPtr) => do
          let value ← access.read field.width first.record field.offset
          .ok (if better value kept then value else kept)) kept =
            (.ok (rest.foldl (fun kept _ =>
              if better (field.read first.record) kept then field.read first.record else kept)
                kept) : Except Fault (BitVec 64)) := by
        intro kept
        rw [serves.read]
        induction rest generalizing kept with
        | nil => rfl
        | cons member rest ih =>
            rw [List.foldlM_cons, ok_bind, ok_bind]
            exact ih _
      unfold aggrExtremeOn aggrExtreme
      simp only [loop]
      rw [serves.read]
      simp only [ok_bind, serves.save]
      rfl

/-- On a field that is let through, the aggregation functions do what they do. -/
theorem aggrFuncOn_eq (serves : access.Serves field) (libc : Libc) (op : AggrOp)
    (records : List RecordPtr) (groupAggregation : Record) (common : Bool) :
    aggrFuncOn access libc field.width records groupAggregation field.offset op common =
      aggrFunc libc op field.width records groupAggregation field.offset common := by
  cases op with
  | static =>
      cases records with
      | nil => rfl
      | cons first rest =>
          simp only [aggrFuncOn, aggrFunc, aggrStaticOn, aggrStatic, serves.read, serves.save,
            serves.union, serves.write, ok_bind]
          rfl
  | count =>
      cases records with
      | nil => rfl
      | cons first rest => exact serves.save _ _
  | union => exact serves.union libc records groupAggregation
  | min | max => exact serves.extreme _ records groupAggregation
  | median =>
      cases records with
      | nil => rfl
      | cons first rest =>
          simp only [aggrFuncOn, aggrMedianOn, serves.values, serves.save, ok_bind]
          rfl
  | mean | stddev | xor | sum | prod | and | or =>
      cases records with
      | nil => rfl
      | cons first rest =>
          simp only [aggrFuncOn, aggrFunc, aggrValuesOn, aggrMean, aggrStddev, aggrFold,
            serves.values, serves.save, ok_bind]

/-- Over plain memory they are the generated functions. -/
theorem aggrFuncOn_direct (libc : Libc) (op : AggrOp) (records : List RecordPtr)
    (groupAggregation : Record) (common : Bool) :
    aggrFuncOn Access.direct libc field.width records groupAggregation field.offset op common =
      aggrFunc libc op field.width records groupAggregation field.offset common :=
  aggrFuncOn_eq (direct_serves field) libc op records groupAggregation common

/-- On a field that is refused, all of them fault as soon as there is a member. -/
theorem aggrFuncOn_refused (refuses : access.Refuses field) (libc : Libc) (op : AggrOp)
    (member : RecordPtr) (groupAggregation : Record) (common : Bool) :
    aggrFuncOn access libc field.width [member] groupAggregation field.offset op common =
      .error .outOfBounds := by
  have values : fieldValuesOn access field.width [member] field.offset = .error .outOfBounds := by
    rw [fieldValuesOn, List.mapM_cons, refuses.read, error_bind]
  have one : intLoop [member].length = .ok () := intLoop_ok 1 (by decide)
  cases op with
  | static =>
      cases common with
      | true => simp only [aggrFuncOn, aggrStaticOn, ↓reduceIte, refuses.read, error_bind]
      | false =>
          simp only [aggrFuncOn, aggrStaticOn, Bool.false_eq_true, ↓reduceIte, aggrUnionOn, one,
            ok_bind, values, error_bind]
  | count => simp only [aggrFuncOn, aggrCountOn, saveValueOn, refuses.write, error_bind]
  | union => simp only [aggrFuncOn, aggrUnionOn, one, ok_bind, values, error_bind]
  | min | max => simp only [aggrFuncOn, aggrExtremeOn, one, ok_bind, refuses.read, error_bind]
  | median => simp only [aggrFuncOn, aggrMedianOn, one, ok_bind, values, error_bind]
  | mean | stddev | xor | sum | prod | and | or =>
      simp only [aggrFuncOn, aggrValuesOn, one, ok_bind, values, error_bind]

end Served

section Inside

variable (size : Nat)

/-- The comparator of a filter term stays inside records of that size. -/
theorem filterFunc_inside_iff (term : FilterTerm) :
    (∀ record, term.funcOn (Access.within size) record = .ok (term.func record)) ↔
      Field.Fits size ⟨term.fieldOffset, term.fieldType⟩ := by
  constructor
  · intro inside
    by_contra behind
    have refused := (within_refuses size _ behind).read fun _ => 0#8
    have served := inside fun _ => 0#8
    rw [FilterTerm.funcOn, refused] at served
    cases served
  · intro fits record
    rw [FilterTerm.funcOn, (within_serves size _ fits).read]
    rfl

theorem gfilterFunc_inside_iff (term : GroupfilterTerm) :
    (∀ group, term.funcOn (Access.within size) group = .ok (term.func group)) ↔
      Field.Fits size ⟨term.field, term.fieldType⟩ := by
  constructor
  · intro inside
    by_contra behind
    have refused := (within_refuses size _ behind).read fun _ => 0#8
    have served := inside ⟨[], ⟨⟨fun _ => 0#8, 0#64, 0#64⟩, none⟩⟩
    rw [GroupfilterTerm.funcOn] at served
    rw [show (Group.record ⟨[], ⟨⟨fun _ => 0#8, 0#64, 0#64⟩, none⟩⟩) = fun _ => 0#8 from rfl,
      refused] at served
    cases served
  · intro fits group
    rw [GroupfilterTerm.funcOn, (within_serves size _ fits).read]
    rfl

theorem qsortComp_inside_iff (term : GrouperTerm) :
    (∀ record1 record2, term.qsortCompOn (Access.within size) record1 record2 =
        .ok (term.qsortComp record1 record2)) ↔
      Field.Fits size ⟨term.fieldOffset2, term.field2Type⟩ := by
  constructor
  · intro inside
    by_contra behind
    have refused := (within_refuses size _ behind).read fun _ => 0#8
    have served := inside (fun _ => 0#8) fun _ => 0#8
    rw [GrouperTerm.qsortCompOn, refused] at served
    cases served
  · intro fits record1 record2
    have serves := within_serves size _ fits
    rw [GrouperTerm.qsortCompOn, serves.read, serves.read]
    rfl

/-- A grouper term's comparator reads both fields, each at its own width. -/
theorem grouperFunc_inside_iff (term : GrouperTerm) :
    (∀ members record2, term.funcOn (Access.within size) members record2 =
        .ok (term.func members record2)) ↔
      Field.Fits size ⟨term.fieldOffset1, term.field1Type⟩ ∧
        Field.Fits size ⟨term.fieldOffset2, term.field2Type⟩ := by
  constructor
  · intro inside
    have served := inside [⟨0, fun _ => 0#8⟩] fun _ => 0#8
    have member : groupMember term.optype [⟨0, fun _ => 0#8⟩] = some ⟨0, fun _ => 0#8⟩ := by
      cases term.optype <;> rfl
    simp only [GrouperTerm.funcOn, member] at served
    by_cases fits1 : Field.Fits size ⟨term.fieldOffset1, term.field1Type⟩
    · refine ⟨fits1, ?_⟩
      by_contra behind
      rw [(within_serves size _ fits1).read, ok_bind, (within_refuses size _ behind).read] at served
      cases served
    · rw [(within_refuses size _ fits1).read] at served
      cases served
  · rintro ⟨fits1, fits2⟩ members record2
    have serves1 := within_serves size _ fits1
    have serves2 := within_serves size _ fits2
    unfold GrouperTerm.funcOn GrouperTerm.func
    cases groupMember term.optype members with
    | none => rfl
    | some member =>
        simp only [serves1.read, serves2.read, ok_bind]
        cases term.optype <;> rfl

/-- So does an aggregation function. -/
theorem aggrFunc_inside_iff (libc : Libc) (op : AggrOp) (common : Bool) (field : Field) :
    (∀ members groupAggregation,
      aggrFuncOn (Access.within size) libc field.width members groupAggregation field.offset op
          common =
        aggrFunc libc op field.width members groupAggregation field.offset common) ↔
      field.Fits size := by
  constructor
  · intro inside
    by_contra behind
    have served := inside [⟨0, fun _ => 0#8⟩] fun _ => 0#8
    rw [aggrFuncOn_refused (within_refuses size field behind)] at served
    have run := aggrFunc_ok libc op field [⟨0, fun _ => 0#8⟩] (fun _ => 0#8) common
      (by simp) (fun _ => by decide)
    rw [run] at served
    cases served
  · intro fits members groupAggregation
    exact aggrFuncOn_eq (within_serves size field fits) libc op members groupAggregation common

end Inside

end Nfql
