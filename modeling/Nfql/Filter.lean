import Nfql.Comparators
import Nfql.Clauses

set_option autoImplicit false

/- The filter stage: `read_trace` in f.c filters every record as it is read. -/
namespace Nfql

structure IoData where
  numRecords : Nat
  recordset : List Record

structure FilterResult where
  numFilteredRecords : Nat
  filteredRecordset : List (Option RecordPtr)

/-- `memcpy(target, record, record_size)` into freshly zeroed memory. -/
def copyRecord (recordSize : Nat) (record : Record) : Record := fun index =>
  if index < recordSize then record index else 0#8

/-- The trace data and the `target`/`first_time` pair that the branches share
while one record passes through them. -/
structure Pass where
  data : IoData
  target : Option RecordPtr
  firstTime : Bool

/-- Save the record in the trace data, once for all branches. -/
def Pass.save (recordSize : Nat) (record : Record) (pass : Pass) : Pass :=
  if pass.firstTime then
    let copy := copyRecord recordSize record
    { data :=
        { numRecords := pass.data.numRecords + 1
          recordset := pass.data.recordset ++ [copy] }
      target := some ⟨pass.data.recordset.length, copy⟩
      firstTime := false }
  else pass

/-- One branch decides on the record and, if satisfied, appends its pointer. -/
def filterBranch (recordSize : Nat) (record : Record) (pass : Pass) (branch : Branch)
    (filterResult : Option FilterResult) : Except Fault (Pass × Option FilterResult) :=
  if Clauses.satisfied (fun term : FilterTerm => term.func record) branch.filterClauseset then
    let pass := pass.save recordSize record
    match filterResult with
    | none => .error .nullPointer
    | some result => do
        let numFilteredRecords := uint32 (result.numFilteredRecords + 1)
        realloc numFilteredRecords
        .ok (pass, some
          { numFilteredRecords
            filteredRecordset := result.filteredRecordset ++ [pass.target] })
  else .ok (pass, filterResult)

/-- The branch loop over one record. -/
def filterRecord (recordSize : Nat) (record : Record) :
    Pass → List (Branch × Option FilterResult) →
      Except Fault (IoData × List (Branch × Option FilterResult))
  | pass, [] => .ok (pass.data, [])
  | pass, (branch, result) :: rest => do
      let (pass, result) ← filterBranch recordSize record pass branch result
      let (data, rest) ← filterRecord recordSize record pass rest
      .ok (data, (branch, result) :: rest)

/-- The loop over the trace. -/
def filterTrace (recordSize : Nat) : List Record → IoData → List (Branch × Option FilterResult) →
    Except Fault (IoData × List (Branch × Option FilterResult))
  | [], data, branches => .ok (data, branches)
  | record :: rest, data, branches => do
      let (data, branches) ← filterRecord recordSize record ⟨data, none, true⟩ branches
      filterTrace recordSize rest data branches

/-- Set the last item of a filtered recordset to NULL: one more element is
allocated, and its count is a sum of two 32-bit values. -/
def terminateRecordset : Option FilterResult → Except Fault (Option FilterResult)
  | none => .error .nullPointer
  | some result => do
      realloc (uint32 (result.numFilteredRecords + 1))
      .ok (some { result with filteredRecordset := result.filteredRecordset ++ [none] })

def terminateRecordsets : List (Option FilterResult) → Except Fault (List (Option FilterResult))
  | [] => .ok []
  | result :: rest => do
      let result ← terminateRecordset result
      let rest ← terminateRecordsets rest
      .ok (result :: rest)

/-- `read_trace`, without the output it prints or writes to files. Where the
filter stage is off, `filter_result` stays NULL. -/
def readTrace (filterEnabled : Bool) (io : IoHandler) (branchset : List Branch)
    (trace : List Record) : Except Fault (IoData × List (Option FilterResult)) := do
  let initial : Option FilterResult := if filterEnabled then some ⟨0, []⟩ else none
  let (data, branches) ←
    filterTrace io.readGetRecordSize trace ⟨0, []⟩ (branchset.map fun branch => (branch, initial))
  let results := branches.map fun branch => branch.2
  if filterEnabled then do
    let results ← terminateRecordsets results
    .ok (data, results)
  else .ok (data, results)

end Nfql
