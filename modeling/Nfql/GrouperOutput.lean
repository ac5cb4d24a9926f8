import Nfql.GrouperScan
import Nfql.StageFiles

set_option autoImplicit false

/- The grouper stage with all that it leaves behind: the locals `min` and `max`, the
sorted records of a verbose run, and the files. -/
namespace Nfql.Output

/-- A group while its members are added: `min` and `max` are locals, which are
mirrored into `group_aggr_record`. -/
structure Growing where
  members : List RecordPtr
  min : BitVec 64
  max : BitVec 64
  groupAggrRecord : Span

/-- Set minimum START and maximum END timestamp. -/
def Growing.start (io : IoHandler) (members : List RecordPtr) (item : RecordPtr) : Growing where
  members := members
  min := io.recordGetStartTS item.record
  max := io.recordGetEndTS item.record
  groupAggrRecord := ⟨io.recordGetStartTS item.record, io.recordGetEndTS item.record⟩

/-- Add a member, and update the timestamps if we have a new min or a new max. -/
def Growing.add (io : IoHandler) (group : Growing) (item : RecordPtr) : Growing :=
  let start := io.recordGetStartTS item.record
  let last := io.recordGetEndTS item.record
  { members := group.members ++ [item]
    min := if start < group.min then start else group.min
    max := if group.max < last then last else group.max
    groupAggrRecord :=
      { startTs := if start < group.min then start else group.groupAggrRecord.startTs
        endTs := if group.max < last then last else group.groupAggrRecord.endTs } }

/-- What the grouper leaves behind. -/
structure Produced where
  gresult : GrouperResult
  sortedRecordset : List RecordPtr
  files : Files

/-- The file of a group's records: `gresult->num_groups - 1` is an unsigned number that
is printed as a signed one. -/
def memberFile (branchId numGroups : Nat) : StageFile :=
  .groupRecords branchId (BitVec.ofNat 32 numGroups - 1#32).toInt

section Scan

variable (options : OutputOptions) (funcs : GrouperFuncs) (io : IoHandler) (branchId : Nat)
  (clause : List GrouperTerm) (recordset : List (Option RecordPtr)) (lastItem : Nat)

/-- `while (current_item != last_item)`, which writes every member that it adds. -/
def growGroup (file : StageFile) (currentItem : Nat) (group : Growing) (files : Files) :
    Except Fault (Nat × Growing × Files) :=
  if currentItem = lastItem then .ok (currentItem, group, files)
  else
    match _inside : recordset[currentItem + 1]? with
    | none => .error .outOfBounds
    | some none => .error .nullPointer
    | some (some item) =>
        if Clauses.stopIndex (fun term => funcs.func term group.members item.record) clause <
            clause.length then .ok (currentItem, group, files)
        else growGroup file (currentItem + 1) (group.add io item)
          (options.writeRecord options.verboseVv file item.record files)
termination_by recordset.length - currentItem
decreasing_by
  have := (List.getElem?_eq_some_iff.mp _inside).1
  omega

theorem growGroup_le (file : StageFile) (currentItem : Nat) (group : Growing) (files : Files)
    (reached : Nat) (grown : Growing × Files)
    (run : growGroup options funcs io clause recordset lastItem file currentItem group files =
      .ok (reached, grown)) : currentItem ≤ reached := by
  fun_induction growGroup options funcs io clause recordset lastItem file currentItem group
      files with
  | case1 group files =>
      cases run
      exact Nat.le_refl _
  | case2 | case3 => cases run
  | case4 currentItem group files _ item _ _ =>
      cases run
      exact Nat.le_refl _
  | case5 currentItem group files _ item _ _ ih =>
      have := ih run
      omega

variable (cook : List RecordPtr → Span → Except Fault Group)

/-- One turn writes the members to a file of their own, from the second one on, and
then the cooked record to the file of the groups. -/
def scanGroups (currentItem : Nat) (produced : Produced) : Except Fault Produced :=
  match _inside : recordset[currentItem]? with
  | none => .error .outOfBounds
  | some none => .ok produced
  | some (some item) =>
      let numGroups := uint32 (produced.gresult.numGroups + 1)
      match realloc numGroups with
      | .error fault => .error fault
      | .ok () =>
          let file := memberFile branchId numGroups
          match _grown : growGroup options funcs io clause recordset lastItem file currentItem
              (Growing.start io [item] item)
              (options.writeInit options.verboseVv file produced.files) with
          | .error fault => .error fault
          | .ok (reached, grown, files) =>
              match cook grown.members grown.groupAggrRecord with
              | .error fault => .error fault
              | .ok group =>
                  scanGroups (reached + 1)
                    { produced with
                      gresult := ⟨numGroups, produced.gresult.groupset ++ [group]⟩
                      files := options.writeRecord options.verboseV (.groups branchId) group.record
                        files }
termination_by recordset.length - currentItem
decreasing_by
  have := growGroup_le options funcs io clause recordset lastItem _ _ _ _ _ _ _grown
  have := (List.getElem?_eq_some_iff.mp _inside).1
  omega

end Scan

section Stage

variable (options : OutputOptions) (libc : Libc) (funcs : GrouperFuncs) (io : IoHandler)
  (groupaggregationsEnabled : Bool) (branch : Branch) (branchId numFilteredRecords : Nat)

/-- `if (verbose_vv)`: keep the sorted references, and write their records. -/
def saveSorted (sorted : List RecordPtr) (produced : Produced) : Except Fault Produced :=
  if options.verboseVv then do
    intLoop sorted.length
    let file := .sortedRecords branchId
    .ok { produced with
      sortedRecordset := sorted
      files := options.writeRecords true file sorted (options.writeInit true file produced.files) }
  else .ok produced

/-- `get_grouper_intermediates`. -/
def getGrouperIntermediates (recordset : List (Option RecordPtr)) (clause : List GrouperTerm)
    (produced : Produced) : Except Fault (List (Option RecordPtr) × Produced) := do
  let items ← readItems numFilteredRecords recordset
  let sorted := libc.qsortR.run (qsortComp funcs clause) items
  let produced ← saveSorted options branchId sorted produced
  if numFilteredRecords < recordset.length then
    .ok (sorted.map some ++ none :: recordset.drop (numFilteredRecords + 1), produced)
  else .error .outOfBounds

/-- The loop over the grouper clauses. -/
def groupClauses : List (List GrouperTerm) → List (Option RecordPtr) → Produced →
    Except Fault Produced
  | [], _, produced => .ok produced
  | clause :: rest, recordset, produced => do
      let (recordset, produced) ← getGrouperIntermediates options libc funcs branchId
        numFilteredRecords recordset clause produced
      let produced ← scanGroups options funcs io branchId clause recordset
        (numFilteredRecords - 1) (cookGroup libc groupaggregationsEnabled branch) 0 produced
      groupClauses rest recordset produced

/-- Club all filtered records into one group. The file of its members is opened and
closed after the group's record is written. -/
def clubRecords (recordset : List (Option RecordPtr)) (files : Files) :
    Except Fault Produced := do
  let members ← readItems numFilteredRecords recordset
  match members with
  | [] => .error .outOfBounds
  | first :: _ => do
      intLoop members.length
      let grown := members.foldl (Growing.add io) (Growing.start io [] first)
      let group ← cookGroup libc groupaggregationsEnabled branch grown.members
        grown.groupAggrRecord
      let files := options.writeRecord options.verboseV (.groups branchId) group.record files
      .ok ⟨⟨1, [group]⟩, [],
        options.writeInit options.verboseVv (.groupRecords branchId 0) files⟩

/-- `grouper`. -/
def grouper (fresult : FilterResult) (files : Files) : Except Fault Produced :=
  if 0 < fresult.numFilteredRecords then
    let files := options.writeInit options.verboseV (.groups branchId) files
    match branch.grouperClauseset with
    | [] => clubRecords options libc io groupaggregationsEnabled branch branchId
        fresult.numFilteredRecords fresult.filteredRecordset files
    | clauses => groupClauses options libc funcs io groupaggregationsEnabled branch branchId
        fresult.numFilteredRecords clauses fresult.filteredRecordset ⟨⟨0, []⟩, [], files⟩
  else .ok ⟨⟨0, []⟩, [], files⟩

end Stage

end Nfql.Output
