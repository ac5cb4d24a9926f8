import Nfql.Engine
import Nfql.JsonC

set_option autoImplicit false

/- `parse_json_query` in f.c: from a JSON object to the structures of f.h. -/
namespace Nfql

open JsonC

structure JsonFilterTermOffset where
  name : String
  value : BitVec 64
  datatype : String

structure JsonFilterTerm where
  op : String
  delta : BitVec 64
  off : JsonFilterTermOffset

structure JsonGrouperTermOffset where
  f1Name : String
  f2Name : String
  f1Datatype : String
  f2Datatype : String

structure JsonGrouperTermOp where
  name : String
  type : String

structure JsonGrouperTerm where
  delta : BitVec 64
  off : JsonGrouperTermOffset
  op : JsonGrouperTermOp

structure JsonAggrTermOffset where
  name : String
  datatype : String

structure JsonAggrTerm where
  op : String
  off : JsonAggrTermOffset

/-- `struct json_groupfilter_term` has the members of `struct json_filter_term`. -/
abbrev JsonGroupfilterTerm := JsonFilterTerm

structure JsonMergerTerm where
  b1Id : BitVec 64
  b2Id : BitVec 64
  delta : BitVec 64
  off : JsonGrouperTermOffset
  op : JsonGrouperTermOp

structure JsonBranch where
  filterClauseset : List (List JsonFilterTerm)
  grouperClauseset : List (List JsonGrouperTerm)
  aggrClauseTermset : List JsonAggrTerm
  groupfilterClauseset : List (List JsonGroupfilterTerm)

/-- `struct json`. -/
structure JsonQuery where
  branchset : List JsonBranch
  mergerClauseset : List (List JsonMergerTerm)

/-- What a query is read with: json-c, the template in which the IPFIX mode registers
the fields of the query, and the record layout of the trace. -/
structure QueryReader (σ : Type) where
  library : Library
  ipfixEnabled : Bool
  /-- `none` for a negative return value. -/
  ipfixTemplIeRegister : σ → String → Option σ
  /-- `none` for a return value of -1. -/
  ioReadGetFieldOffset : σ → String → Option Nat

/-- A run that may change the template and may fail. -/
abbrev Parser (σ : Type) := StateT σ (Except Fault)

section Accessors

variable {σ : Type}

def Parser.fail {α : Type} (fault : Fault) : Parser σ α := fun _ => .error fault

/-- `for (int i = 0; i < json_object_array_length(array); i++)`. The length of
something that is no array is read through a NULL. -/
def arrayEach {α : Type} (array : Option Json) (turn : Option Json → Parser σ α) :
    Parser σ (List α) :=
  match arrayLength array with
  | none => Parser.fail .nullPointer
  | some length => (List.range length).mapM fun index => turn (arrayGetIdx array index)

variable (reader : QueryReader σ)

/-- `strdup(json_object_get_string(json))`. -/
def strdup (json : Option Json) : Parser σ String :=
  match getString reader.library json with
  | none => Parser.fail .nullPointer
  | some text => pure text

/-- `json_object_get_int`, stored in a `uint64_t`. -/
def getUint64 (json : Option Json) : BitVec 64 :=
  BitVec.ofInt 64 (getInt reader.library json)

/-- `REGISTER_IPFIX_IE` of a name. -/
def registerName (name : String) : Parser σ Unit := fun templ =>
  if reader.ipfixEnabled then
    match reader.ipfixTemplIeRegister templ name with
    | none => .error (.errExit "ipfix_templ_ie_register")
    | some templ => .ok ((), templ)
  else .ok ((), templ)

/-- `REGISTER_IPFIX_IE`, which without IPFIX does not look at its argument. -/
def registerIpfixIe (ie : Option Json) : Parser σ Unit :=
  match getString reader.library ie with
  | none => if reader.ipfixEnabled then Parser.fail .nullPointer else pure ()
  | some name => registerName reader name

end Accessors

section Terms

variable {σ : Type} (reader : QueryReader σ)

def parseFilterTerm (termItems : Option Json) : Parser σ JsonFilterTerm := do
  let delta := objectGet termItems "delta"
  let op := objectGet termItems "op"
  let foffset := objectGet termItems "offset"
  let foName := objectGet foffset "name"
  registerIpfixIe reader foName
  let foVal := objectGet foffset "value"
  let foType := objectGet foffset "datatype"
  let op ← strdup reader op
  let name ← strdup reader foName
  let datatype ← strdup reader foType
  pure ⟨op, getUint64 reader delta, ⟨name, getUint64 reader foVal, datatype⟩⟩

def parseGrouperTerm (termItems : Option Json) : Parser σ JsonGrouperTerm := do
  let delta := objectGet termItems "delta"
  let op := objectGet termItems "op"
  let offset := objectGet termItems "offset"
  let f1Name := objectGet offset "f1_name"
  registerIpfixIe reader f1Name
  let f2Name := objectGet offset "f2_name"
  registerIpfixIe reader f2Name
  let opName ← strdup reader (objectGet op "name")
  let opType ← strdup reader (objectGet op "type")
  let f1Name ← strdup reader f1Name
  let f2Name ← strdup reader f2Name
  let f1Datatype ← strdup reader (objectGet offset "f1_datatype")
  let f2Datatype ← strdup reader (objectGet offset "f2_datatype")
  pure ⟨getUint64 reader delta, ⟨f1Name, f2Name, f1Datatype, f2Datatype⟩, ⟨opName, opType⟩⟩

def parseAggrTerm (termItems : Option Json) : Parser σ JsonAggrTerm := do
  let op := objectGet termItems "op"
  let offset := objectGet termItems "offset"
  let name := objectGet offset "name"
  registerIpfixIe reader name
  let datatype := objectGet offset "datatype"
  let op ← strdup reader op
  let name ← strdup reader name
  let datatype ← strdup reader datatype
  pure ⟨op, ⟨name, datatype⟩⟩

/-- The loop body over group filter terms repeats the one over filter terms. -/
def parseGroupfilterTerm (termItems : Option Json) : Parser σ JsonGroupfilterTerm :=
  parseFilterTerm reader termItems

def parseMergerTerm (termItems : Option Json) : Parser σ JsonMergerTerm := do
  let delta := objectGet termItems "delta"
  let op := objectGet termItems "op"
  let offset := objectGet termItems "offset"
  let b1Id := objectGet termItems "branch1_id"
  let b2Id := objectGet termItems "branch2_id"
  let f1Name := objectGet offset "f1_name"
  registerIpfixIe reader f1Name
  let f2Name := objectGet offset "f2_name"
  registerIpfixIe reader f2Name
  let opName ← strdup reader (objectGet op "name")
  let opType ← strdup reader (objectGet op "type")
  let f1Name ← strdup reader f1Name
  let f2Name ← strdup reader f2Name
  let f1Datatype ← strdup reader (objectGet offset "f1_datatype")
  let f2Datatype ← strdup reader (objectGet offset "f2_datatype")
  pure ⟨getUint64 reader b1Id, getUint64 reader b2Id, getUint64 reader delta,
    ⟨f1Name, f2Name, f1Datatype, f2Datatype⟩, ⟨opName, opType⟩⟩

end Terms

section Stages

variable {σ τ : Type} (reader : QueryReader σ)

/-- The terms of one clause object. -/
def parseClause (parseTerm : Option Json → Parser σ τ) (clause : Option Json) :
    Parser σ (List τ) :=
  arrayEach (objectGet clause "clause") fun term => parseTerm (objectGet term "term")

/-- The clauses of one stage object. -/
def parseDnf (parseTerm : Option Json → Parser σ τ) (stage : Option Json) :
    Parser σ (List (List τ)) :=
  arrayEach (objectGet stage "dnf-expr") (parseClause parseTerm)

/-- `if (<stage>_enabled)`: the counts of a stage that is off stay at the zero of `calloc`. -/
def whenEnabled (enabled : Bool) (parse : Parser σ (List τ)) : Parser σ (List τ) :=
  if enabled then parse else pure []

/-- The flags are global: once a branch has set one, it stays set. -/
def parseBranch (stages : Stages) (branchJson : Option Json) : Parser σ (Stages × JsonBranch) := do
  let filter := objectGet branchJson "filter"
  let filterEnabled := stages.filterEnabled || filter.isSome
  let filterClauseset ← whenEnabled filterEnabled (parseDnf (parseFilterTerm reader) filter)
  let grouper := objectGet branchJson "grouper"
  let grouperEnabled := stages.grouperEnabled || grouper.isSome
  let grouperClauseset ← whenEnabled grouperEnabled (parseDnf (parseGrouperTerm reader) grouper)
  let aggr := objectGet grouper "aggregation"
  let groupaggregationsEnabled :=
    stages.groupaggregationsEnabled || (grouperEnabled && aggr.isSome)
  let aggrClauseTermset ← whenEnabled (grouperEnabled && groupaggregationsEnabled)
    (parseClause (parseAggrTerm reader) aggr)
  let gfilter := objectGet branchJson "groupfilter"
  let groupfilterEnabled := stages.groupfilterEnabled || gfilter.isSome
  let groupfilterClauseset ← whenEnabled groupfilterEnabled
    (parseDnf (parseGroupfilterTerm reader) gfilter)
  pure ({ stages with filterEnabled, grouperEnabled, groupaggregationsEnabled, groupfilterEnabled },
    ⟨filterClauseset, grouperClauseset, aggrClauseTermset, groupfilterClauseset⟩)

/-- The loop over the branches. -/
def parseBranches : Stages → List (Option Json) → Parser σ (Stages × List JsonBranch)
  | stages, [] => pure (stages, [])
  | stages, branchJson :: rest => do
      let (stages, branch) ← parseBranch reader stages branchJson
      let (stages, branchset) ← parseBranches stages rest
      pure (stages, branch :: branchset)

/-- All flags are clear before a query is parsed. -/
def Stages.clear : Stages := ⟨false, false, false, false, false, false⟩

/-- `parse_json_query`, from the object that the tokener made of the file. -/
def parseJsonQuery (query : Option Json) : Parser σ (Stages × JsonQuery) := do
  let branchset := objectGet query "branchset"
  match arrayLength branchset with
  | none => Parser.fail .nullPointer
  | some numBranches => do
      let (stages, branches) ← parseBranches reader Stages.clear
        ((List.range numBranches).map (arrayGetIdx branchset))
      let merger := objectGet query "merger"
      let mergerEnabled := merger.isSome
      let mergerClauseset ← whenEnabled mergerEnabled (parseDnf (parseMergerTerm reader) merger)
      let ungrouperEnabled := (objectGet query "ungrouper").isSome
      pure ({ stages with mergerEnabled, ungrouperEnabled }, ⟨branches, mergerClauseset⟩)

end Stages

end Nfql
