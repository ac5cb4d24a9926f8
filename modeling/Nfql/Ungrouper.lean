import Nfql.Merger

set_option autoImplicit false

/- The ungrouper stage: ungrouper.c. -/
namespace Nfql

structure Stream where
  numRecords : Nat
  recordset : List RecordPtr

structure UngrouperResult where
  numStreams : Nat
  streamset : List Stream

/-- Append a group's members to a stream. The new size is a sum of two 32-bit counts;
where it wraps, `realloc` cuts the recordset and the copy loop ends at once. -/
def appendGroup (stream : Stream) (group : Group) : Except Fault Stream := do
  let numRecords := uint32 (stream.numRecords + group.numMembers)
  realloc numRecords
  .ok
    { numRecords
      recordset := stream.recordset.take numRecords ++
        group.members.take (numRecords - stream.numRecords) }

/-- One stream out of one group tuple. -/
def ungroupTuple (numBranches : Nat) (groupTuple : List Group) : Except Fault Stream :=
  if groupTuple.length < numBranches then .error .outOfBounds
  else (groupTuple.take numBranches).foldlM appendGroup ⟨0, []⟩

def ungroupTuples (numBranches : Nat) : List (List Group) → Except Fault (List Stream)
  | [] => .ok []
  | groupTuple :: rest => do
      let stream ← ungroupTuple numBranches groupTuple
      let streams ← ungroupTuples numBranches rest
      .ok (stream :: streams)

/-- `ungrouper`, without the output it writes to files. Where the merger is off,
`merger_result` is NULL. -/
def ungrouper (numBranches : Nat) (mresult : Option MergerResult) :
    Except Fault UngrouperResult :=
  match mresult with
  | none => .ok ⟨0, []⟩
  | some mresult =>
      if mresult.groupTuples.length < mresult.numGroupTuples then .error .outOfBounds
      else do
        let streamset ←
          ungroupTuples numBranches (mresult.groupTuples.take mresult.numGroupTuples)
        intLoop mresult.numGroupTuples
        .ok ⟨mresult.numGroupTuples, streamset⟩

/-- What a stream should hold: the members of all groups of the tuple, in order. -/
def concatenated (groupTuple : List Group) : List RecordPtr :=
  groupTuple.flatMap Group.members

theorem appendGroup_ok (stream : Stream) (group : Group)
    (exact : stream.numRecords = stream.recordset.length)
    (nonempty : group.members ≠ [])
    (room : stream.recordset.length + group.members.length < 2 ^ 32) :
    appendGroup stream group =
      .ok ⟨(stream.recordset ++ group.members).length, stream.recordset ++ group.members⟩ := by
  have positive := List.length_pos_iff.mpr nonempty
  have sum : uint32 (stream.recordset.length + group.numMembers) =
      stream.recordset.length + group.members.length := Nat.mod_eq_of_lt room
  have allocated : realloc (stream.recordset.length + group.members.length) = .ok () := by
    rw [realloc, if_neg (by omega)]
  have old : stream.recordset.take (stream.recordset.length + group.members.length) =
      stream.recordset := List.take_of_length_le (by omega)
  have fresh : group.members.take
      (stream.recordset.length + group.members.length - stream.recordset.length) =
        group.members := List.take_of_length_le (by omega)
  simp only [appendGroup, sum, allocated, ok_bind, exact, old, fresh, List.length_append]

/-- A stream of fewer than 2^32 records is the concatenation of its groups. -/
theorem appendGroups_ok (groups : List Group) (nonempty : ∀ group ∈ groups, group.members ≠ [])
    (start : List RecordPtr) (room : start.length + (concatenated groups).length < 2 ^ 32) :
    groups.foldlM appendGroup ⟨start.length, start⟩ =
      .ok ⟨(start ++ concatenated groups).length, start ++ concatenated groups⟩ := by
  induction groups generalizing start with
  | nil => rw [concatenated, List.flatMap_nil, List.append_nil]; rfl
  | cons group rest ih =>
      have split : concatenated (group :: rest) = group.members ++ concatenated rest :=
        List.flatMap_cons
      rw [split, List.length_append] at room
      have step := appendGroup_ok ⟨start.length, start⟩ group rfl (nonempty group (by simp)) (by
        show start.length + group.members.length < 2 ^ 32
        omega)
      rw [List.foldlM_cons, step, ok_bind, split, ← List.append_assoc]
      exact ih (fun other member => nonempty other (by simp [member])) (start ++ group.members)
        (by rw [List.length_append]; omega)

theorem ungroupTuple_ok (groupTuple : List Group)
    (nonempty : ∀ group ∈ groupTuple, group.members ≠ [])
    (room : (concatenated groupTuple).length < 2 ^ 32) :
    ungroupTuple groupTuple.length groupTuple =
      .ok ⟨(concatenated groupTuple).length, concatenated groupTuple⟩ := by
  have run := appendGroups_ok groupTuple nonempty [] (by rwa [List.length_nil, Nat.zero_add])
  rw [List.nil_append] at run
  rw [ungroupTuple, if_neg (Nat.lt_irrefl _), List.take_length]
  exact run

/-- Every tuple becomes a stream, in order. -/
theorem ungroupTuples_each (numBranches : Nat) (tuples : List (List Group))
    (streams : List Stream) (success : ungroupTuples numBranches tuples = .ok streams) :
    List.Forall₂ (fun tuple stream => ungroupTuple numBranches tuple = .ok stream)
      tuples streams := by
  induction tuples generalizing streams with
  | nil => cases success; exact List.Forall₂.nil
  | cons tuple rest ih =>
      obtain ⟨stream, head, success⟩ := bind_eq_ok success
      obtain ⟨others, later, success⟩ := bind_eq_ok success
      cases success
      exact List.Forall₂.cons head (ih others later)

theorem ungroupTuples_ok (numBranches : Nat) (tuples : List (List Group))
    (each : ∀ tuple ∈ tuples, ∃ stream, ungroupTuple numBranches tuple = .ok stream) :
    ∃ streams, ungroupTuples numBranches tuples = .ok streams := by
  induction tuples with
  | nil => exact ⟨[], rfl⟩
  | cons tuple rest ih =>
      obtain ⟨stream, head⟩ := each tuple (by simp)
      obtain ⟨streams, later⟩ := ih fun other member => each other (by simp [member])
      exact ⟨stream :: streams, by simp only [ungroupTuples, head, later, ok_bind]⟩

theorem ungrouper_each (numBranches : Nat) (mresult : MergerResult) (result : UngrouperResult)
    (exact : mresult.numGroupTuples = mresult.groupTuples.length)
    (success : ungrouper numBranches (some mresult) = .ok result) :
    result.numStreams = mresult.groupTuples.length ∧
      List.Forall₂ (fun tuple stream => ungroupTuple numBranches tuple = .ok stream)
        mresult.groupTuples result.streamset := by
  rw [ungrouper, if_neg (by omega), exact, List.take_length] at success
  obtain ⟨streams, run, success⟩ := bind_eq_ok success
  obtain ⟨_, _, success⟩ := bind_eq_ok success
  cases success
  exact ⟨rfl, ungroupTuples_each numBranches _ streams run⟩

end Nfql
