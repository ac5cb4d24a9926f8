import Nfql.GroupFields

set_option autoImplicit false

/- What a group's members say about it whatever order they are in. -/
namespace Nfql

open GreedyRuns

/-- Two arrays of pointers lead to the same records, in any order. -/
def SameRecords (members members' : List RecordPtr) : Prop :=
  (members.map RecordPtr.record).Perm (members'.map RecordPtr.record)

theorem SameRecords.length_eq {members members' : List RecordPtr}
    (same : SameRecords members members') : members.length = members'.length := by
  have lengths := List.Perm.length_eq same
  rwa [List.length_map, List.length_map] at lengths

theorem SameRecords.mem {members members' : List RecordPtr} (same : SameRecords members members')
    (item : RecordPtr) (inside : item ∈ members) :
    ∃ item' ∈ members', item'.record = item.record :=
  List.mem_map.mp (List.Perm.mem_iff same |>.mp (List.mem_map_of_mem inside))

theorem SameRecords.symm {members members' : List RecordPtr}
    (same : SameRecords members members') : SameRecords members' members :=
  List.Perm.symm same

section Values

theorem fieldValues_perm (atype : Width) (fieldOffset : Nat) (members members' : List RecordPtr)
    (same : SameRecords members members') :
    (fieldValues atype members fieldOffset).Perm (fieldValues atype members' fieldOffset) := by
  have values := List.Perm.map (fun record => readField atype record fieldOffset) same
  rwa [List.map_map, List.map_map] at values

/-- The operators whose value does not depend on the order of their operands. -/
def AggrOp.Commutes (op : AggrOp) : Prop :=
  op = .sum ∨ op = .count ∨ op = .or ∨ op = .xor

/-- No sort is called for these operators. -/
theorem aggrValue_perm (libc libc' : Libc) (op : AggrOp) (commutes : op.Commutes)
    (values values' : List (BitVec 64)) (perm : values.Perm values') (common : Bool) :
    aggrValue libc op values common = aggrValue libc' op values' common := by
  have fold : ∀ step : BitVec 64 → BitVec 64 → BitVec 64,
      (∀ a b c, step (step a b) c = step (step a c) b) →
      values.foldl step 0#64 = values'.foldl step 0#64 := by
    intro step comm
    apply perm.foldl_eq'
    intro b _ c _ a
    exact comm a b c
  rcases commutes with rfl | rfl | rfl | rfl
  · show some (values.foldl (· + ·) 0#64) = some (values'.foldl (· + ·) 0#64)
    rw [fold _ fun a b c => by ac_rfl]
  · show some (BitVec.ofNat 64 values.length) = some (BitVec.ofNat 64 values'.length)
    rw [perm.length_eq]
  · show some (values.foldl (· ||| ·) 0#64) = some (values'.foldl (· ||| ·) 0#64)
    rw [fold _ fun a b c => by ac_rfl]
  · show some (values.foldl (· ^^^ ·) 0#64) = some (values'.foldl (· ^^^ ·) 0#64)
    rw [fold _ fun a b c => by ac_rfl]

theorem aggrValue_commutes (libc : Libc) (op : AggrOp) (commutes : op.Commutes)
    (values : List (BitVec 64)) (common : Bool) :
    ∃ value, aggrValue libc op values common = some value := by
  rcases commutes with rfl | rfl | rfl | rfl <;> exact ⟨_, rfl⟩

end Values

section Fields

theorem Field.Apart.symm {field other : Field} (apart : field.Apart other) : other.Apart field :=
  ByteMemory.Apart.symm apart

theorem copyFields_apart (source record : Record) (fields : List Field) (field : Field)
    (apart : ∀ other ∈ fields, field.Apart other) :
    field.read (copyFields source record fields) = field.read record := by
  induction fields generalizing record with
  | nil => rfl
  | cons other rest ih =>
      show field.read (copyFields source (writeField _ record _ (other.read source)) rest) = _
      rw [ih _ fun later member => apart later (by simp [member])]
      exact readField_writeField_apart _ _ _ _ _ _ (apart other (by simp)).symm

/-- A field apart from all named ones is zero before aggregations. -/
theorem commonRecord_apart (branch : Branch) (members : List RecordPtr) (field : Field)
    (apart : ∀ named ∈ branch.namedFields, field.Apart named) :
    field.read (branch.commonRecord members) = field.read fun _ => 0#8 := by
  cases members with
  | nil => rfl
  | cons first rest => exact copyFields_apart first.record _ branch.namedFields field apart

end Fields

section Timestamps

variable (io : IoHandler)

/-- The timestamps before any record: every record is a new minimum and maximum. -/
def Span.start : Span := ⟨BitVec.allOnes 64, 0#64⟩

theorem Span.widen_start (item : RecordPtr) : Span.start.widen io item = Span.of io item := by
  have bound := (io.recordGetStartTS item.record).isLt
  have greatest : (BitVec.allOnes 64).toNat = 2 ^ 64 - 1 := rfl
  unfold Span.widen Span.start Span.of
  congr 1
  · split
    · rfl
    · bv_omega
  · split
    · rfl
    · bv_omega

theorem Span.ofMembers_foldl (members : List RecordPtr) (nonempty : members ≠ []) :
    Span.ofMembers io members = members.foldl (Span.widen io) Span.start := by
  obtain ⟨first, rest, rfl⟩ := List.exists_cons_of_ne_nil nonempty
  rw [List.foldl_cons, Span.widen_start, Span.ofMembers]

theorem Span.widen_comm (span : Span) (a b : RecordPtr) :
    (span.widen io a).widen io b = (span.widen io b).widen io a := by
  unfold Span.widen
  congr 1 <;> split_ifs <;> bv_omega

/-- A group's timestamps do not depend on the order of its members. -/
theorem Span.ofMembers_perm (members members' : List RecordPtr) (nonempty : members ≠ [])
    (same : SameRecords members members') :
    Span.ofMembers io members = Span.ofMembers io members' := by
  have nonempty' : members' ≠ [] := by
    apply List.ne_nil_of_length_pos
    rw [← same.length_eq]
    exact List.length_pos_iff.mpr nonempty
  have byRecord : ∀ items : List RecordPtr, items.foldl (Span.widen io) Span.start =
      (items.map RecordPtr.record).foldl (fun span record => span.widen io ⟨0, record⟩)
        Span.start := by
    intro items
    rw [List.foldl_map]
    rfl
  rw [Span.ofMembers_foldl io members nonempty, Span.ofMembers_foldl io members' nonempty',
    byRecord, byRecord]
  apply List.Perm.foldl_eq' same
  intro a _ b _ span
  exact Span.widen_comm io span _ _

end Timestamps

end Nfql
