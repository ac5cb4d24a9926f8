import Nfql.Engine
import Nfql.GrouperOutput
import Nfql.ResultFiles

set_option autoImplicit false

/- The stages with all that they do to the files of the result directory. -/
namespace Nfql.Emit

open Emissions
open Output (Growing memberFile)

section Filter

variable (options : OutputOptions) (recordSize : Nat)

/-- One branch decides on the record and, if satisfied, also writes it. -/
def filterBranch (record : Record) (branchId : Nat) (pass : Pass) (branch : Branch)
    (filterResult : Option FilterResult) : Emission (Pass × Option FilterResult) := do
  let filtered ← .of (Nfql.filterBranch recordSize record pass branch filterResult)
  if Clauses.satisfied (fun term : FilterTerm => term.func record) branch.filterClauseset then
    options.write options.verboseV (.filteredRecords branchId) record
  pure filtered

/-- The branch loop over one record, from some branch on. -/
def filterRecord (record : Record) : Nat → Pass → List (Branch × Option FilterResult) →
    Emission (IoData × List (Branch × Option FilterResult))
  | _, pass, [] => pure (pass.data, [])
  | branchId, pass, (branch, result) :: rest => do
      let (pass, result) ← filterBranch options recordSize record branchId pass branch result
      let (data, rest) ← filterRecord record (branchId + 1) pass rest
      pure (data, (branch, result) :: rest)

/-- The loop over the trace. -/
def filterTrace : List Record → IoData → List (Branch × Option FilterResult) →
    Emission (IoData × List (Branch × Option FilterResult))
  | [], data, branches => pure (data, branches)
  | record :: rest, data, branches => do
      let (data, branches) ←
        filterRecord options recordSize record 0 ⟨data, none, true⟩ branches
      filterTrace rest data branches

/-- Initialize the output stream of a branch: `io_write_init` is passed the number of
records in `filter_result`, which is NULL if the filter stage is off. -/
def createFiltered (filterEnabled : Bool) (branchId : Nat) : Emission Unit := do
  options.create options.verboseV (.filteredRecords branchId)
  if options.verboseV && options.file && !filterEnabled then .error .nullPointer

/-- `read_trace`, without what it prints. -/
def readTrace (filterEnabled : Bool) (io : IoHandler) (branchset : List Branch)
    (trace : List Record) : Emission (IoData × List (Option FilterResult)) := do
  let initial : Option FilterResult := if filterEnabled then some ⟨0, []⟩ else none
  (List.range branchset.length).forM (createFiltered options filterEnabled)
  let (data, branches) ← filterTrace options io.readGetRecordSize trace ⟨0, []⟩
    (branchset.map fun branch => (branch, initial))
  (List.range branchset.length).forM fun branchId =>
    options.close options.verboseV (.filteredRecords branchId)
  let results := branches.map fun branch => branch.2
  if filterEnabled then do
    let results ← .of (terminateRecordsets results)
    pure (data, results)
  else pure (data, results)

end Filter

/-- What the grouper leaves in memory. -/
structure Left where
  gresult : GrouperResult
  sortedRecordset : List RecordPtr

section Grouper

variable (options : OutputOptions) (libc : Libc) (funcs : GrouperFuncs) (io : IoHandler)
  (groupaggregationsEnabled : Bool) (branch : Branch) (branchId : Nat)

section Scan

variable (clause : List GrouperTerm) (recordset : List (Option RecordPtr)) (lastItem : Nat)

/-- `while (current_item != last_item)`. -/
def growGroup (file : ResultFile) (currentItem : Nat) (group : Growing) :
    Emission ({reached : Nat // currentItem ≤ reached} × Growing) :=
  if currentItem = lastItem then pure (⟨currentItem, Nat.le_refl _⟩, group)
  else
    match _inside : recordset[currentItem + 1]? with
    | none => .error .outOfBounds
    | some none => .error .nullPointer
    | some (some item) =>
        if Clauses.stopIndex (fun term => funcs.func term group.members item.record) clause <
            clause.length then pure (⟨currentItem, Nat.le_refl _⟩, group)
        else do
          options.write options.verboseVv file item.record
          let (reached, grown) ← growGroup file (currentItem + 1) (group.add io item)
          pure (⟨reached, Nat.le_of_succ_le reached.property⟩, grown)
termination_by recordset.length - currentItem
decreasing_by
  have := (List.getElem?_eq_some_iff.mp _inside).1
  omega

variable (cook : List RecordPtr → Span → Except Fault Group)

/-- One turn: the stream of the members is open while the group grows. -/
def scanGroups (currentItem : Nat) (left : Left) : Emission Left :=
  match _inside : recordset[currentItem]? with
  | none => .error .outOfBounds
  | some none => pure left
  | some (some item) => do
      let numGroups := uint32 (left.gresult.numGroups + 1)
      .of (realloc numGroups)
      let file := .grouper (memberFile branchId numGroups)
      options.create options.verboseVv file
      let (⟨reached, _forward⟩, grown) ← growGroup options funcs io clause recordset lastItem file
        currentItem (Growing.start io [item] item)
      options.close options.verboseVv file
      let group ← .of (cook grown.members grown.groupAggrRecord)
      options.write options.verboseV (.grouper (.groups branchId)) group.record
      scanGroups (reached + 1)
        { left with gresult := ⟨numGroups, left.gresult.groupset ++ [group]⟩ }
termination_by recordset.length - currentItem
decreasing_by
  have := (List.getElem?_eq_some_iff.mp _inside).1
  omega

end Scan

/-- `if (verbose_vv)`. -/
def saveSorted (sorted : List RecordPtr) (left : Left) : Emission Left :=
  if options.verboseVv then do
    let file := .grouper (.sortedRecords branchId)
    options.create true file
    .of (intLoop sorted.length)
    sorted.forM fun item => options.write true file item.record
    options.close true file
    pure { left with sortedRecordset := sorted }
  else pure left

variable (numFilteredRecords : Nat)

/-- `get_grouper_intermediates`. -/
def getGrouperIntermediates (recordset : List (Option RecordPtr)) (clause : List GrouperTerm)
    (left : Left) : Emission (List (Option RecordPtr) × Left) := do
  let items ← .of (readItems numFilteredRecords recordset)
  let sorted := libc.qsortR.run (qsortComp funcs clause) items
  let left ← saveSorted options branchId sorted left
  if numFilteredRecords < recordset.length then
    pure (sorted.map some ++ none :: recordset.drop (numFilteredRecords + 1), left)
  else .error .outOfBounds

/-- The loop over the grouper clauses. -/
def groupClauses : List (List GrouperTerm) → List (Option RecordPtr) → Left → Emission Left
  | [], _, left => pure left
  | clause :: rest, recordset, left => do
      let (recordset, left) ← getGrouperIntermediates options libc funcs branchId
        numFilteredRecords recordset clause left
      let left ← scanGroups options funcs io branchId clause recordset (numFilteredRecords - 1)
        (cookGroup libc groupaggregationsEnabled branch) 0 left
      groupClauses rest recordset left

/-- Club all filtered records into one group. -/
def clubRecords (recordset : List (Option RecordPtr)) : Emission Left := do
  let members ← .of (readItems numFilteredRecords recordset)
  match members with
  | [] => .error .outOfBounds
  | first :: _ => do
      .of (intLoop members.length)
      let grown := members.foldl (Growing.add io) (Growing.start io [] first)
      let group ← .of (cookGroup libc groupaggregationsEnabled branch grown.members
        grown.groupAggrRecord)
      options.write options.verboseV (.grouper (.groups branchId)) group.record
      options.create options.verboseVv (.grouper (.groupRecords branchId 0))
      options.close options.verboseVv (.grouper (.groupRecords branchId 0))
      pure ⟨⟨1, [group]⟩, []⟩

/-- Group by the clauses, if there are any. -/
def groupRecords (fresult : FilterResult) : Emission Left :=
  if branch.grouperClauseset.isEmpty then
    clubRecords options libc io groupaggregationsEnabled branch branchId
      fresult.numFilteredRecords fresult.filteredRecordset
  else
    groupClauses options libc funcs io groupaggregationsEnabled branch branchId
      fresult.numFilteredRecords branch.grouperClauseset fresult.filteredRecordset ⟨⟨0, []⟩, []⟩

/-- `grouper`. -/
def grouper (fresult : FilterResult) : Emission Left :=
  if 0 < fresult.numFilteredRecords then do
    options.create options.verboseV (.grouper (.groups branchId))
    let left ← groupRecords options libc funcs io groupaggregationsEnabled branch branchId fresult
    options.close options.verboseV (.grouper (.groups branchId))
    pure left
  else pure ⟨⟨0, []⟩, []⟩

end Grouper

section Branches

variable (options : OutputOptions) (branch : Branch) (branchId : Nat)

/-- `for (int i = 0; i < num_groups; i++)`, from some group on. -/
def filterGroups : List Group → GroupfilterResult → Emission GroupfilterResult
  | [], gfilterResult => pure gfilterResult
  | group :: rest, gfilterResult =>
      if branch.satisfied group then do
        let numFilteredGroups := uint32 (gfilterResult.numFilteredGroups + 1)
        .of (realloc numFilteredGroups)
        options.write options.verboseV (.filteredGroups branchId) group.record
        filterGroups rest ⟨numFilteredGroups, gfilterResult.filteredGroupset ++ [group]⟩
      else filterGroups rest gfilterResult

/-- `groupfilter`. -/
def groupfilter (gresult : GrouperResult) : Emission GroupfilterResult := do
  options.create options.verboseV (.filteredGroups branchId)
  let gfilterResult ← filterGroups options branch branchId
    (gresult.groupset.take gresult.numGroups) ⟨0, []⟩
  if gresult.groupset.length < gresult.numGroups then .error .outOfBounds
  else do
    .of (intLoop gresult.numGroups)
    options.close options.verboseV (.filteredGroups branchId)
    pure gfilterResult

/-- What a branch's thread leaves in memory. -/
structure BranchLeft where
  grouperLeft : Option Left
  gfilterResult : Option GroupfilterResult

variable (libc : Libc) (io : IoHandler) (stages : Stages)

def branchGrouper (filterResult : Option FilterResult) : Emission (Option Left) :=
  if stages.grouperEnabled then
    match filterResult with
    | none => .error .nullPointer
    | some fresult => do
        let left ← grouper options libc GrouperFuncs.generated io stages.groupaggregationsEnabled
          branch branchId fresult
        pure (some left)
  else pure none

def branchGroupfilter (grouperLeft : Option Left) : Emission (Option GroupfilterResult) :=
  if stages.groupfilterEnabled then
    match grouperLeft with
    | none => .error .nullPointer
    | some left => do
        let gfilterResult ← groupfilter options branch branchId left.gresult
        pure (some gfilterResult)
  else pure none

/-- `branch_start`, the thread of a branch. -/
def branchStart (filterResult : Option FilterResult) : Emission BranchLeft := do
  let grouperLeft ← branchGrouper options branch branchId libc io stages filterResult
  let gfilterResult ← branchGroupfilter options branch branchId stages grouperLeft
  pure ⟨grouperLeft, gfilterResult⟩

end Branches

section Merger

variable (options : OutputOptions) {numBranches : Nat} (func : MergerFunc numBranches)
  (clauses : List (List (MergerTerm numBranches))) (gfilterResults : List GroupfilterResult)

/-- `for (int j = 0; j < num_branches; j++)` over a tuple: find the group of each branch
and write its record. -/
def writeTuple (asked : Bool) (file : ResultFile) : List GroupfilterResult → List Nat →
    Emission (List Group)
  | [], _ => pure []
  | gfilterResult :: rest, (groupId + 1) :: tuple =>
      match gfilterResult.filteredGroupset[groupId]? with
      | some group => do
          options.write asked file group.record
          let groups ← writeTuple asked file rest tuple
          pure (group :: groups)
      | none => .error .outOfBounds
  | _ :: _, _ => .error .outOfBounds

/-- The match over the clauses: if it succeeds the tuple is written and kept. -/
def keepTuple (mresult : MergerResult) (tuple : List Nat) : Emission MergerResult := do
  if ← .of (checkClauses (mergerTerm func gfilterResults tuple) clauses true) then do
    let groups ← writeTuple options options.verboseV .mergedGroups gfilterResults tuple
    let numGroupTuples := uint32 (mresult.numGroupTuples + 1)
    .of (realloc numGroupTuples)
    pure { mresult with numGroupTuples, groupTuples := mresult.groupTuples ++ [groups] }
  else pure mresult

/-- The body of `while(iter_next(iter))`. -/
def mergeTuple (mresult : MergerResult) (tuple : List Nat) : Emission MergerResult := do
  let mresult :=
    { mresult with totalNumGroupTuples := uint32 (mresult.totalNumGroupTuples + 1) }
  if options.verboseVv && options.file then
    let _ ← writeTuple options true .toBeMergedGroups gfilterResults tuple
  keepTuple options func clauses gfilterResults mresult tuple

def mergeTuples (slots : List Slot) (mresult : MergerResult) : Emission MergerResult :=
  match _next : iterNext slots with
  | (false, _) => pure mresult
  | (true, slots) => do
      let mresult ←
        mergeTuple options func clauses gfilterResults mresult (slots.map Slot.position)
      mergeTuples slots mresult
termination_by tuplesLeft slots
decreasing_by exact iterNext_closer _ _ _next

/-- `merger`. Without an iterator it returns before any stream is created. -/
def merger : Emission MergerResult :=
  if gfilterResults.any fun gfilterResult => gfilterResult.numFilteredGroups == 0 then
    pure ⟨0, 0, []⟩
  else if gfilterResults.isEmpty then .error .outOfBounds
  else do
    options.create options.verboseV .mergedGroups
    options.create options.verboseVv .toBeMergedGroups
    let mresult ← mergeTuples options func clauses gfilterResults
      (iterStart (gfilterResults.map GroupfilterResult.numFilteredGroups)) ⟨0, 0, []⟩
    options.close options.verboseVv .toBeMergedGroups
    options.close options.verboseV .mergedGroups
    pure mresult

end Merger

section Ungrouper

variable (options : OutputOptions) (numBranches : Nat)

/-- Append a group's members to a stream, and write those that the copy loop reaches. -/
def appendGroup (file : ResultFile) (stream : Stream) (group : Group) : Emission Stream := do
  let numRecords := uint32 (stream.numRecords + group.numMembers)
  .of (realloc numRecords)
  let added := group.members.take (numRecords - stream.numRecords)
  added.forM fun item => options.write true file item.record
  pure { numRecords, recordset := stream.recordset.take numRecords ++ added }

/-- One stream out of one group tuple. -/
def ungroupTuple (index : Nat) (groupTuple : List Group) : Emission Stream := do
  options.create true (.stream index)
  if groupTuple.length < numBranches then .error .outOfBounds
  else do
    let stream ← (groupTuple.take numBranches).foldlM (appendGroup options (.stream index)) ⟨0, []⟩
    options.close true (.stream index)
    pure stream

/-- The loop over the tuples, from some stream on. -/
def ungroupTuples : Nat → List (List Group) → Emission (List Stream)
  | _, [] => pure []
  | index, groupTuple :: rest => do
      let stream ← ungroupTuple options numBranches index groupTuple
      let streams ← ungroupTuples (index + 1) rest
      pure (stream :: streams)

/-- `ungrouper`. -/
def ungrouper (mresult : Option MergerResult) : Emission UngrouperResult :=
  match mresult with
  | none => pure ⟨0, []⟩
  | some mresult =>
      if mresult.groupTuples.length < mresult.numGroupTuples then .error .outOfBounds
      else do
        let streamset ← ungroupTuples options numBranches 0
          (mresult.groupTuples.take mresult.numGroupTuples)
        .of (intLoop mresult.numGroupTuples)
        pure ⟨mresult.numGroupTuples, streamset⟩

end Ungrouper

end Nfql.Emit
