import Nfql.Grouper
import Nfql.Ungrouper

set_option autoImplicit false

/- The whole pipeline, as `main` in f.c and `branch_start` in branch.c run it. -/
namespace Nfql

/-- The global flags of base.c that say which stages the query has. -/
structure Stages where
  filterEnabled : Bool
  grouperEnabled : Bool
  groupaggregationsEnabled : Bool
  groupfilterEnabled : Bool
  mergerEnabled : Bool
  ungrouperEnabled : Bool
  deriving DecidableEq, Repr

/-- All stages are on; aggregations may be. -/
def Stages.all (groupaggregationsEnabled : Bool) : Stages :=
  ⟨true, true, groupaggregationsEnabled, true, true, true⟩

structure Flowquery where
  branchset : List Branch
  mergerClauseset : List (List (MergerTerm branchset.length))

/-- The results a branch's thread leaves; NULL for a stage that is off. -/
structure BranchResult where
  grouperResult : Option GrouperResult
  gfilterResult : Option GroupfilterResult

structure EngineResult where
  data : IoData
  filterResults : List (Option FilterResult)
  branchResults : List BranchResult
  mergerResult : Option MergerResult
  ungrouperResult : Option UngrouperResult

section Run

variable (libc : Libc) (io : IoHandler) (stages : Stages)

/-- The grouper stage of a branch. It reads the filter result without a check. -/
def branchGrouper (branch : Branch) (filterResult : Option FilterResult) :
    Except Fault (Option GrouperResult) :=
  if stages.grouperEnabled then
    match filterResult with
    | none => .error .nullPointer
    | some fresult => do
        let gresult ← grouper libc GrouperFuncs.generated io stages.groupaggregationsEnabled branch
          fresult
        .ok (some gresult)
  else .ok none

/-- The group filter stage of a branch. -/
def branchGroupfilter (branch : Branch) (grouperResult : Option GrouperResult) :
    Except Fault (Option GroupfilterResult) :=
  if stages.groupfilterEnabled then
    match grouperResult with
    | none => .error .nullPointer
    | some gresult => do
        let gfilterResult ← groupfilter branch gresult
        .ok (some gfilterResult)
  else .ok none

/-- `branch_start`. The threads of the branches share nothing that they write. -/
def branchStart (branch : Branch) (filterResult : Option FilterResult) :
    Except Fault BranchResult := do
  let grouperResult ← branchGrouper libc io stages branch filterResult
  let gfilterResult ← branchGroupfilter stages branch grouperResult
  .ok ⟨grouperResult, gfilterResult⟩

def branchesStart : List Branch → List (Option FilterResult) → Except Fault (List BranchResult)
  | branch :: branchset, filterResult :: filterResults => do
      let result ← branchStart libc io stages branch filterResult
      let results ← branchesStart branchset filterResults
      .ok (result :: results)
  | _, _ => .ok []

/-- The `gfilter_result` of every branch, which the merger dereferences. -/
def gfilterResults : List BranchResult → Except Fault (List GroupfilterResult)
  | [] => .ok []
  | result :: rest =>
      match result.gfilterResult with
      | none => .error .nullPointer
      | some gfilterResult => do
          let results ← gfilterResults rest
          .ok (gfilterResult :: results)

/-- The merger stage. -/
def engineMerger (fquery : Flowquery) (branchResults : List BranchResult) :
    Except Fault (Option MergerResult) :=
  if stages.mergerEnabled then do
    let gfilterResults ← gfilterResults branchResults
    let mresult ← merger MergerTerm.func fquery.mergerClauseset gfilterResults
    .ok (some mresult)
  else .ok none

/-- The ungrouper stage. -/
def engineUngrouper (fquery : Flowquery) (mergerResult : Option MergerResult) :
    Except Fault (Option UngrouperResult) :=
  if stages.ungrouperEnabled then do
    let uresult ← ungrouper fquery.branchset.length mergerResult
    .ok (some uresult)
  else .ok none

/-- The stages after `prepare_flowquery`. -/
def engine (fquery : Flowquery) (trace : List Record) : Except Fault EngineResult := do
  let (data, filterResults) ← readTrace stages.filterEnabled io fquery.branchset trace
  let branchResults ← branchesStart libc io stages fquery.branchset filterResults
  let mergerResult ← engineMerger stages fquery branchResults
  let ungrouperResult ← engineUngrouper stages fquery mergerResult
  .ok ⟨data, filterResults, branchResults, mergerResult, ungrouperResult⟩

end Run

end Nfql
