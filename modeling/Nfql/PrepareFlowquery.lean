import Nfql.JsonQuery
import Nfql.RuleNames

set_option autoImplicit false

/- `prepare_flowquery` in f.c: from the structures of f.h to those of pipeline.h. -/
namespace Nfql

namespace Prepared

/-- A term as `prepare_flowquery` leaves it: operators and datatypes are numbers, and no
function is assigned yet. -/
structure FilterTerm where
  fieldOffset : Nat
  value : BitVec 64
  delta : BitVec 64
  op : BitVec 64
  fieldType : BitVec 64

structure GrouperTerm where
  fieldOffset1 : Nat
  fieldOffset2 : Nat
  delta : BitVec 64
  op : BitVec 64
  field1Type : BitVec 64
  field2Type : BitVec 64
  optype : BitVec 64

structure AggrTerm where
  fieldOffset : Nat
  op : BitVec 64
  fieldType : BitVec 64

/-- `struct groupfilter_term` has the members of `struct filter_term`, and calls the
first one `field`. -/
abbrev GroupfilterTerm := FilterTerm

structure MergerTerm where
  /-- The `branch_id` of `branch1`. -/
  branch1 : Nat
  field1 : Nat
  branch2 : Nat
  field2 : Nat
  op : BitVec 64
  field1Type : BitVec 64
  field2Type : BitVec 64
  optype : BitVec 64
  delta : BitVec 64

structure Branch where
  filterClauseset : List (List FilterTerm)
  grouperClauseset : List (List GrouperTerm)
  aggrClauseTermset : List AggrTerm
  groupfilterClauseset : List (List GroupfilterTerm)

structure Flowquery where
  branchset : List Branch
  mergerClauseset : List (List MergerTerm)

end Prepared

section Checks

variable (offset : String → Option Nat)

/-- `io_read_get_field_offset`, checked for -1. -/
def checkedOffset (name : String) (message : String) : Except Fault Nat :=
  match offset name with
  | none => .error (.errExit message)
  | some found => .ok found

theorem checkedOffset_ok {name message : String} {found : Nat}
    (success : checkedOffset offset name message = .ok found) : offset name = some found := by
  unfold checkedOffset at success
  cases known : offset name with
  | none =>
      rw [known] at success
      cases success
  | some other =>
      rw [known] at success
      cases success
      rfl

/-- `get_enum`, checked for -1. -/
def checkedEnum (name : String) (message : String) : Except Fault (BitVec 64) :=
  if getEnum name = minusOne then .error (.errExit message) else .ok (getEnum name)

/-- `fquery->branchset[id]`. -/
def branchAt (numBranches : Nat) (id : BitVec 64) : Except Fault Nat :=
  if id.toNat < numBranches then .ok id.toNat else .error .outOfBounds

def prepareFilterTerm (termJson : JsonFilterTerm) : Except Fault Prepared.FilterTerm := do
  let fieldOffset ← checkedOffset offset termJson.off.name
    "io_ft_get_offset(term_json->off->name) returned -1"
  let opEnum ← checkedEnum termJson.op "get_enum(term_json->op) returned -1"
  let typeEnum ← checkedEnum termJson.off.datatype
    "get_enum(term_json->off->datatype) returned -1"
  .ok ⟨fieldOffset, termJson.off.value, termJson.delta, opEnum, typeEnum⟩

/-- The check after the lookup of `f2_datatype` tests `f1_type_enum` once more. -/
def prepareGrouperTerm (termJson : JsonGrouperTerm) : Except Fault Prepared.GrouperTerm := do
  let f1Offset ← checkedOffset offset termJson.off.f1Name
    "io_ft_get_offset(term_json->off->f1_name) returned -1"
  let f2Offset ← checkedOffset offset termJson.off.f2Name
    "io_ft_get_offset(term_json->off->f2_name) returned -1"
  let opNameEnum ← checkedEnum termJson.op.name "get_enum(term_json->op->name) returned -1"
  let f1TypeEnum ← checkedEnum termJson.off.f1Datatype
    "get_enum(term_json->off->f1_datatype) returned -1"
  let f2TypeEnum := getEnum termJson.off.f2Datatype
  let opTypeEnum ←
    if f1TypeEnum = minusOne then
      .error (.errExit "get_enum(term_json->off->f2_datatype) returned -1")
    else checkedEnum termJson.op.type "get_enum(term_json->op->type) returned -1"
  .ok ⟨f1Offset, f2Offset, termJson.delta, opNameEnum, f1TypeEnum, f2TypeEnum, opTypeEnum⟩

def prepareAggrTerm (termJson : JsonAggrTerm) : Except Fault Prepared.AggrTerm := do
  let fieldOffset ← checkedOffset offset termJson.off.name
    "io_ft_get_offset(term_json->off->name) returned -1"
  let opEnum ← checkedEnum termJson.op "get_enum(term_json->op) returned -1"
  let typeEnum ← checkedEnum termJson.off.datatype
    "get_enum(term_json->off->datatype) returned -1"
  .ok ⟨fieldOffset, opEnum, typeEnum⟩

/-- The loop body over group filter terms repeats the one over filter terms. -/
def prepareGroupfilterTerm (termJson : JsonGroupfilterTerm) :
    Except Fault Prepared.GroupfilterTerm :=
  prepareFilterTerm offset termJson

/-- The delta of the query is not copied. -/
def prepareMergerTerm (numBranches : Nat) (termJson : JsonMergerTerm) :
    Except Fault Prepared.MergerTerm := do
  let f1Offset ← checkedOffset offset termJson.off.f1Name
    "io_ft_get_offset(grule_json->off->f1_name) returned -1"
  let f2Offset ← checkedOffset offset termJson.off.f2Name
    "io_ft_get_offset(grule_json->off->f2_name) returned -1"
  let opName ← checkedEnum termJson.op.name "get_enum(term_json->op->name) returned -1"
  let opType ← checkedEnum termJson.op.type "get_enum(term_json->op->type) returned -1"
  let f1Type ← checkedEnum termJson.off.f1Datatype
    "get_enum(term_json->off->f1_datatype) returned -1"
  let f2Type ← checkedEnum termJson.off.f2Datatype
    "get_enum(term_json->off->f2_datatype) returned -1"
  let branch1 ← branchAt numBranches termJson.b1Id
  let branch2 ← branchAt numBranches termJson.b2Id
  .ok ⟨branch1, f1Offset, branch2, f2Offset, opName, f1Type, f2Type, opType, 0#64⟩

end Checks

section Stages

variable {τ υ : Type}

/-- `if (<stage>_enabled)`: the terms of a stage, in order. -/
def prepareTerms (enabled : Bool) (prepare : τ → Except Fault υ) (terms : List τ) :
    Except Fault (List υ) :=
  if enabled then terms.mapM prepare else .ok []

def prepareClauses (enabled : Bool) (prepare : τ → Except Fault υ) (clauses : List (List τ)) :
    Except Fault (List (List υ)) :=
  prepareTerms enabled (fun clause => clause.mapM prepare) clauses

variable (offset : String → Option Nat) (stages : Stages)

def prepareBranch (jsonBranch : JsonBranch) : Except Fault Prepared.Branch := do
  let filterClauseset ← prepareClauses stages.filterEnabled (prepareFilterTerm offset)
    jsonBranch.filterClauseset
  let grouperClauseset ← prepareClauses stages.grouperEnabled (prepareGrouperTerm offset)
    jsonBranch.grouperClauseset
  let aggrClauseTermset ← prepareTerms stages.groupaggregationsEnabled (prepareAggrTerm offset)
    jsonBranch.aggrClauseTermset
  let groupfilterClauseset ← prepareClauses stages.groupfilterEnabled
    (prepareGroupfilterTerm offset) jsonBranch.groupfilterClauseset
  .ok ⟨filterClauseset, grouperClauseset, aggrClauseTermset, groupfilterClauseset⟩

/-- `prepare_flowquery`. -/
def prepareFlowquery (jsonQuery : JsonQuery) : Except Fault Prepared.Flowquery := do
  let branchset ← jsonQuery.branchset.mapM (prepareBranch offset stages)
  let mergerClauseset ← prepareClauses stages.mergerEnabled
    (prepareMergerTerm offset jsonQuery.branchset.length) jsonQuery.mergerClauseset
  .ok ⟨branchset, mergerClauseset⟩

variable {offset stages}

theorem prepareBranch_ok {jsonBranch : JsonBranch} {branch : Prepared.Branch}
    (success : prepareBranch offset stages jsonBranch = .ok branch) :
    prepareClauses stages.filterEnabled (prepareFilterTerm offset) jsonBranch.filterClauseset =
        .ok branch.filterClauseset ∧
      prepareClauses stages.grouperEnabled (prepareGrouperTerm offset)
        jsonBranch.grouperClauseset = .ok branch.grouperClauseset ∧
      prepareTerms stages.groupaggregationsEnabled (prepareAggrTerm offset)
        jsonBranch.aggrClauseTermset = .ok branch.aggrClauseTermset ∧
      prepareClauses stages.groupfilterEnabled (prepareGroupfilterTerm offset)
        jsonBranch.groupfilterClauseset = .ok branch.groupfilterClauseset := by
  obtain ⟨filterClauseset, filter, success⟩ := bind_eq_ok success
  obtain ⟨grouperClauseset, grouper, success⟩ := bind_eq_ok success
  obtain ⟨aggrClauseTermset, aggregation, success⟩ := bind_eq_ok success
  obtain ⟨groupfilterClauseset, groupfilter, success⟩ := bind_eq_ok success
  cases success
  exact ⟨filter, grouper, aggregation, groupfilter⟩

theorem prepareFlowquery_ok {jsonQuery : JsonQuery} {fquery : Prepared.Flowquery}
    (success : prepareFlowquery offset stages jsonQuery = .ok fquery) :
    jsonQuery.branchset.mapM (prepareBranch offset stages) = .ok fquery.branchset ∧
      prepareClauses stages.mergerEnabled (prepareMergerTerm offset jsonQuery.branchset.length)
        jsonQuery.mergerClauseset = .ok fquery.mergerClauseset := by
  obtain ⟨branchset, branches, success⟩ := bind_eq_ok success
  obtain ⟨mergerClauseset, merger, success⟩ := bind_eq_ok success
  cases success
  exact ⟨branches, merger⟩

end Stages

/-- What `main` makes of a query: the stage flags, the template and the flowquery. -/
def loadQuery {σ : Type} (reader : QueryReader σ) (templ : σ) (query : JsonC.Json) :
    Except Fault (Stages × σ × Prepared.Flowquery) := do
  let ((stages, jsonQuery), templ) ← parseJsonQuery reader (some query) templ
  let fquery ← prepareFlowquery (reader.ioReadGetFieldOffset templ) stages jsonQuery
  .ok (stages, templ, fquery)

end Nfql
