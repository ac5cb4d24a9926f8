import Nfql.ByteMemory

set_option autoImplicit false

namespace Nfql

open ByteMemory

/-- The ways a run of the engine ends without a result. -/
inductive Fault where
  /-- `errExit(message)` prints the message and aborts the process. -/
  | errExit (message : String)
  /-- A signed `int` loop counter is incremented past `INT_MAX`. -/
  | intOverflow
  /-- A NULL pointer is dereferenced. -/
  | nullPointer
  /-- An array is accessed behind its last element. -/
  | outOfBounds
  deriving DecidableEq, Repr

/-- A count kept in a `uint32_t`. -/
def uint32 (count : Nat) : Nat := count % 2 ^ 32

/-- The largest value of a signed `int`. -/
def intMax : Nat := 2 ^ 31 - 1

/-- `realloc(array, count * sizeof(...))` on a live array. Asked for zero bytes
it frees the array and returns NULL, which every caller answers with `errExit`. -/
def realloc (count : Nat) : Except Fault Unit :=
  if count = 0 then .error (.errExit "realloc") else .ok ()

/-- `for (int i = 0; i < count; i++)`: the last increment takes `i` to `count`. -/
def intLoop (count : Nat) : Except Fault Unit :=
  if intMax < count then .error .intOverflow else .ok ()

@[simp] theorem ok_bind {α β : Type} (value : α) (next : α → Except Fault β) :
    (Except.ok value >>= next) = next value := rfl

@[simp] theorem error_bind {α β : Type} (fault : Fault) (next : α → Except Fault β) :
    (Except.error fault >>= next) = Except.error fault := rfl

theorem bind_eq_ok {α β : Type} {first : Except Fault α} {next : α → Except Fault β} {result : β}
    (success : (first >>= next) = .ok result) :
    ∃ value, first = .ok value ∧ next value = .ok result := by
  cases first with
  | error fault => cases success
  | ok value => exact ⟨value, rfl, success⟩

/-- A run of which something is seen has succeeded. -/
theorem ok_of_toOption {α β : Type} {outcome : Except Fault α} {view : α → β} {seen : β}
    (evaluated : outcome.toOption.map view = some seen) :
    ∃ value, outcome = .ok value ∧ view value = seen := by
  cases outcome with
  | error fault => cases evaluated
  | ok value => exact ⟨value, rfl, Option.some.inj evaluated⟩

theorem uint32_lt (count : Nat) : uint32 count < 2 ^ 32 :=
  Nat.mod_lt _ (by decide)

theorem uint32_succ (count : Nat) (room : count + 1 < 2 ^ 32) :
    uint32 (count + 1) = count + 1 :=
  Nat.mod_eq_of_lt room

/-- A 32-bit count that does not wrap to zero is exact. -/
theorem uint32_exact (count : Nat) (start : count < 2 ^ 32) (positive : uint32 (count + 1) ≠ 0) :
    uint32 (count + 1) = count + 1 := by
  apply uint32_succ
  by_contra full
  have last : count + 1 = 2 ^ 32 := by omega
  rw [last] at positive
  exact positive rfl

theorem uint32_snoc {α : Type} (items : List α) (item : α) (room : items.length + 1 < 2 ^ 32) :
    uint32 (items.length + 1) = (items ++ [item]).length := by
  rw [uint32_succ _ room, List.length_append, List.length_singleton]

theorem realloc_snoc {α : Type} (items : List α) (item : α) :
    realloc (items ++ [item]).length = .ok () := by
  rw [List.length_append, List.length_singleton]
  rfl

theorem realloc_positive {count : Nat} (allocated : realloc count = .ok ()) : count ≠ 0 := by
  rintro rfl
  cases allocated

theorem intLoop_ok (count : Nat) (inside : count ≤ intMax) : intLoop count = .ok () := by
  simp only [intLoop, Nat.not_lt.mpr inside, ↓reduceIte]

theorem intLoop_error (count : Nat) (beyond : intMax < count) :
    intLoop count = .error .intOverflow := by
  simp only [intLoop, beyond, ↓reduceIte]

/-- The `RULE_S1_*` and `RULE_S2_*` datatypes of a field. -/
inductive Width where
  | w8 | w16 | w32 | w64
  deriving DecidableEq, Repr

def Width.bytes : Width → Nat
  | .w8 => 1
  | .w16 => 2
  | .w32 => 4
  | .w64 => 8

def Width.bits (width : Width) : Nat := 8 * width.bytes

/-- `RULE_EQ` to `RULE_GE`. -/
inductive CompOp where
  | eq | ne | gt | lt | le | ge
  deriving DecidableEq, Repr

/-- `RULE_ABS`, `RULE_REL` and `RULE_NO`. -/
inductive DeltaType where
  | abs | rel | no
  deriving DecidableEq, Repr

/-- `RULE_STATIC` to `RULE_OR`. -/
inductive AggrOp where
  | static | count | union | min | max | median | mean | stddev | xor | sum | prod | and | or
  deriving DecidableEq, Repr

/-- `RULE_ALLEN_BF` to `RULE_ALLEN_EQ`. -/
inductive AllenOp where
  | bf | af | m | mi | o | oi | s | si | d | di | f | fi | eq
  deriving DecidableEq, Repr

/-- The operators of a merger term. -/
inductive MergerOp where
  | comp (op : CompOp)
  | isIn
  | allen (op : AllenOp)
  deriving DecidableEq, Repr

/-- The bytes of a flow record, in host byte order. -/
abbrev Record := Memory

/-- `*(uintN_t*)(record + offset)`, converted to `uint64_t`. -/
def readField (width : Width) (record : Record) (offset : Nat) : BitVec 64 :=
  BitVec.ofNat 64 (load record offset width.bytes)

/-- `*(uintN_t*)(record + offset) = (uintN_t)value`. -/
def writeField (width : Width) (record : Record) (offset : Nat) (value : BitVec 64) : Record :=
  store record offset width.bytes value.toNat

/-- A `char*` to a record that `read_trace` copied: its index in the trace data
and the bytes it points to, which no stage changes afterwards. -/
structure RecordPtr where
  index : Nat
  record : Record

structure Aggr where
  values : List (BitVec 64)

structure AggrRecord where
  aggrRecord : Record
  startTsMsec : BitVec 64
  endTsMsec : BitVec 64

/-- `aggrset` stays NULL unless `grouper_aggregations` allocates it. -/
structure AggrResult where
  aggrRecord : AggrRecord
  aggrset : Option (List Aggr)

structure Group where
  members : List RecordPtr
  aggrResult : AggrResult

/-- A group collects pointers out of one array of fewer than 2^32 records, so
its `uint32_t` member count is the length of the member list. -/
def Group.numMembers (group : Group) : Nat := group.members.length

/-- The bytes of the synthetic group record. -/
def Group.record (group : Group) : Record := group.aggrResult.aggrRecord.aggrRecord

/-- A filter term. As in every other term, the operator and datatype are the ones
by which its `assign_*_func` picked `term->func`. -/
structure FilterTerm where
  fieldOffset : Nat
  value : BitVec 64
  delta : BitVec 64
  op : CompOp
  fieldType : Width
  deriving DecidableEq, Repr

structure GrouperTerm where
  fieldOffset1 : Nat
  fieldOffset2 : Nat
  delta : BitVec 64
  op : CompOp
  field1Type : Width
  field2Type : Width
  optype : DeltaType
  deriving DecidableEq, Repr

structure AggrTerm where
  fieldOffset : Nat
  op : AggrOp
  fieldType : Width
  deriving DecidableEq, Repr

structure GroupfilterTerm where
  field : Nat
  value : BitVec 64
  delta : BitVec 64
  op : CompOp
  fieldType : Width
  deriving DecidableEq, Repr

/-- A query branch. Its clause and term counts are the lengths of the lists;
the JSON reader hands them over as `int`, so the loops over them stay in range. -/
structure Branch where
  filterClauseset : List (List FilterTerm)
  grouperClauseset : List (List GrouperTerm)
  aggrClauseTermset : List AggrTerm
  groupfilterClauseset : List (List GroupfilterTerm)
  deriving DecidableEq, Repr

/-- A merger term points to two of the `numBranches` branches of its query. -/
structure MergerTerm (numBranches : Nat) where
  branch1 : Fin numBranches
  field1 : Nat
  branch2 : Fin numBranches
  field2 : Nat
  op : MergerOp
  field1Type : Width
  field2Type : Width
  delta : BitVec 64
  deriving DecidableEq, Repr

/-- A merger term that compares the first bytes of two groups' records. -/
def MergerTerm.firstBytes (op : MergerOp) : MergerTerm 2 := ⟨0, 0, 1, 0, op, .w8, .w8, 0#64⟩

/-- The io handler functions that the stages call on a record. -/
structure IoHandler where
  readGetRecordSize : Nat
  recordGetStartTS : Record → BitVec 64
  recordGetEndTS : Record → BitVec 64

theorem Width.pow_bytes (width : Width) : 256 ^ width.bytes = 2 ^ width.bits := by
  cases width <;> decide

theorem Width.pow_bits_le (width : Width) : 2 ^ width.bits ≤ 2 ^ 64 := by
  cases width <;> decide

theorem Width.pow_bits_dvd (width : Width) : 2 ^ width.bits ∣ 2 ^ 64 := by
  cases width <;> decide

theorem load_width_lt (width : Width) (record : Record) (offset : Nat) :
    load record offset width.bytes < 2 ^ width.bits := by
  rw [← width.pow_bytes]
  exact load_lt record offset width.bytes

theorem readField_toNat (width : Width) (record : Record) (offset : Nat) :
    (readField width record offset).toNat = load record offset width.bytes := by
  have narrow := load_width_lt width record offset
  have wide := width.pow_bits_le
  rw [readField, BitVec.toNat_ofNat]
  exact Nat.mod_eq_of_lt (by omega)

theorem readField_lt (width : Width) (record : Record) (offset : Nat) :
    (readField width record offset).toNat < 2 ^ width.bits := by
  rw [readField_toNat]
  exact load_width_lt width record offset

/-- Two records agree on a field exactly when they agree on its bytes. -/
theorem readField_eq_iff (width : Width) (record record' : Record) (offset : Nat) :
    readField width record offset = readField width record' offset ↔
      ∀ index, offset ≤ index → index < offset + width.bytes → record index = record' index := by
  constructor
  · intro same
    apply load_injective
    rw [← readField_toNat, ← readField_toNat, same]
  · intro same
    rw [readField, readField, load_congr record record' offset width.bytes same]

/-- A written field reads back truncated to its own width. -/
theorem readField_writeField (width : Width) (record : Record) (offset : Nat)
    (value : BitVec 64) :
    (readField width (writeField width record offset value) offset).toNat =
      value.toNat % 2 ^ width.bits := by
  rw [readField_toNat, writeField, load_store_same, width.pow_bytes]

theorem readField_writeField_apart (width width' : Width) (record : Record)
    (offset offset' : Nat) (value : BitVec 64)
    (apart : Apart offset width.bytes offset' width'.bytes) :
    readField width' (writeField width record offset value) offset' =
      readField width' record offset' := by
  rw [readField, readField, writeField, load_store_apart _ _ _ _ _ _ apart]

/-- Writing a field read from another record copies that record's bytes. -/
theorem writeField_readField (width : Width) (record source : Record) (offset index : Nat) :
    writeField width record offset (readField width source offset) index =
      if offset ≤ index ∧ index < offset + width.bytes then source index else record index := by
  rw [writeField, readField_toNat, store_load]

end Nfql
