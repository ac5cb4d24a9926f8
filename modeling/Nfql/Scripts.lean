import Nfql.ExactComparators
import Nfql.QueryMeaning
import Nfql.QueryRules

set_option autoImplicit false

/- The query scripts that group by keys and compare keys and totals: the rules they state,
and what they ask for, in names and whole numbers. -/
namespace Nfql

open RelationalQueries

section Syntax

/-- A field of the flow records and the datatype under which a script reads it. -/
structure NamedField where
  name : String
  width : Width
  deriving DecidableEq, Repr

/-- A comparison with a number that is an `int` and not below its delta. -/
structure Condition where
  op : CompOp
  number : Nat
  delta : Nat
  inside : delta ≤ number
  small : number < 2 ^ 31

/-- A field in which the records of a group agree. -/
structure Key where
  field : NamedField
  opType : DeltaType

/-- The aggregations that do not depend on the order of the records. -/
inductive TotalOp where
  | sum | count | or | xor
  deriving DecidableEq, Repr

structure Total where
  field : NamedField
  op : TotalOp

/-- A value that a group has. -/
inductive GroupValue (keys : List Key) (totals : List Total) where
  | ofKey (key : Key) (member : key ∈ keys)
  | ofTotal (total : Total) (member : total ∈ totals)

/-- A branch of a script. Besides the totals its aggregations may repeat the fields that
its filter and its grouper name. -/
structure BranchScript where
  filter : List (List (NamedField × Condition))
  grouper : Option (List Key)
  statics : List NamedField
  totals : List Total
  groupfilter : List (List (GroupValue (grouper.getD []) totals × Condition))
  named : ∀ field ∈ statics,
    field ∈ filter.flatten.map Prod.fst ++ (grouper.getD []).map Key.field

/-- The keys of the only grouper clause; without one all records make a single group. -/
def BranchScript.keys (branch : BranchScript) : List Key := branch.grouper.getD []

/-- The fields that the filter and the grouper name. -/
def BranchScript.namedFields (branch : BranchScript) : List NamedField :=
  branch.filter.flatten.map Prod.fst ++ branch.keys.map Key.field

abbrev BranchScript.Value (branch : BranchScript) := GroupValue branch.keys branch.totals

/-- A comparison of two groups. -/
structure Join (branches : List BranchScript) where
  branch1 : Fin branches.length
  value1 : (branches.get branch1).Value
  branch2 : Fin branches.length
  value2 : (branches.get branch2).Value
  op : CompOp
  opType : DeltaType

/-- A script with the only merger clause that matters, if any. Branches are numbered by
`int`s. -/
structure Script where
  branches : List BranchScript
  joins : Option (List (Join branches))
  some_branch : branches ≠ []
  few : branches.length ≤ 2 ^ 31

end Syntax

section Rules

/-- `FilterRule(...)`, and `GroupFilterRule(...)` with the same arguments. -/
def Condition.rule (condition : Condition) (field : NamedField) : FilterRule :=
  ⟨field.name, condition.number, .s1 field.width, condition.delta, .comp condition.op⟩

/-- `GrouperRule(...)`, with the key in both places. -/
def Key.rule (key : Key) : GrouperRule :=
  ⟨key.field.name, .s1 key.field.width, key.field.name, .s2 key.field.width, 0, .comp .eq,
    .delta key.opType⟩

def TotalOp.aggrOp : TotalOp → AggrOp
  | .sum => .sum
  | .count => .count
  | .or => .or
  | .xor => .xor

def NamedField.staticRule (field : NamedField) : AggregationRule :=
  ⟨field.name, .s1 field.width, .aggr .static⟩

def Total.rule (total : Total) : AggregationRule :=
  ⟨total.field.name, .s1 total.field.width, .aggr total.op.aggrOp⟩

variable {keys : List Key} {totals : List Total} {branches : List BranchScript}

def GroupValue.field (value : GroupValue keys totals) : NamedField :=
  match value with
  | .ofKey key _ => key.field
  | .ofTotal total _ => total.field

def Join.rule (join : Join branches) : MergerRule :=
  ⟨join.branch1.val, join.branch2.val, join.value1.field.name, .s1 join.value1.field.width,
    join.value2.field.name, .s2 join.value2.field.width, 0, .comp join.op, .delta join.opType⟩

def BranchScript.rules (branch : BranchScript) : BranchRules where
  filter := some (branch.filter.map (List.map fun term => term.2.rule term.1))
  grouper := some ⟨branch.grouper.toList.map (List.map Key.rule),
    some (branch.statics.map NamedField.staticRule ++ branch.totals.map Total.rule)⟩
  groupfilter := some (branch.groupfilter.map (List.map fun term => term.2.rule term.1.field))

/-- The query that the script dumps. -/
def Script.query (script : Script) : Query where
  branchset := script.branches.map BranchScript.rules
  merger := some (script.joins.toList.map (List.map Join.rule))
  ungrouper := true

end Rules

section Meaning

variable (offset : String → Option Nat)

/-- The place of a field in the records. -/
def NamedField.place (field : NamedField) : Field := ⟨(offset field.name).getD 0, field.width⟩

/-- The number in a field of a record. -/
def NamedField.number (field : NamedField) (row : Record) : Nat :=
  ByteMemory.load row ((offset field.name).getD 0) field.width.bytes

def Condition.holds (condition : Condition) (number : Nat) : Bool :=
  decide (condition.op.Holds number condition.number condition.delta)

def TotalOp.over (op : TotalOp) (numbers : Multiset Nat) : Nat :=
  match op with
  | .sum => numbers.sum
  | .count => numbers.card
  | .or => numbers.fold (· ||| ·) 0
  | .xor => numbers.fold (· ^^^ ·) 0

variable {keys : List Key} {totals : List Total} {branches : List BranchScript}

/-- The number that all rows of a group share, or their total. -/
def GroupValue.number (value : GroupValue keys totals) (rows : Multiset Record) : Nat :=
  match value with
  | .ofKey key _ => (rows.map (key.field.number offset)).sup
  | .ofTotal total _ => total.op.over (rows.map (total.field.number offset))

def BranchScript.selection (branch : BranchScript) (io : IoHandler) :
    Selection Record Record (List Nat) where
  accepts row := Clauses.dnf (fun term : NamedField × Condition =>
    term.2.holds (term.1.number offset row)) branch.filter
  project := copyRecord io.readGetRecordSize
  key row := branch.keys.map fun key => key.field.number offset row
  having rows := Clauses.dnf (fun term : branch.Value × Condition =>
    term.2.holds (term.1.number offset rows)) branch.groupfilter

/-- Whether two groups of a tuple join. A zero stands for no value. -/
def Join.holds (tuple : List (Multiset Record)) (join : Join branches) : Bool :=
  match tuple[join.branch1.val]?, tuple[join.branch2.val]? with
  | some rows1, some rows2 =>
      let number1 := join.value1.number offset rows1
      let number2 := join.value2.number offset rows2
      decide (number1 ≠ 0) && decide (number2 ≠ 0) && decide (join.op.Holds number1 number2 0)
  | _, _ => false

def Script.meaning (script : Script) (io : IoHandler) :
    RelationalQueries.Query Record Record (List Nat) where
  selections := script.branches.map fun branch => branch.selection offset io
  joins tuple := (script.joins.getD []).all (Join.holds offset tuple)

/-- The totals of a group are no wider than their fields. -/
def BranchScript.TotalsFit (branch : BranchScript) (rows : Multiset Record) : Prop :=
  ∀ total ∈ branch.totals,
    total.op.over (rows.map (total.field.number offset)) < 2 ^ total.field.width.bits

/-- So are those of all the groups that a trace has, before the group filters. -/
def Script.TotalsFit (script : Script) (io : IoHandler) (trace : List Record) : Prop :=
  ∀ branch ∈ script.branches, ∀ rows ∈ classes (branch.selection offset io).key
    ((branch.selection offset io).rows (trace : Multiset Record)), branch.TotalsFit offset rows

/-- No total lies over a field that is named, or over another total. -/
structure BranchScript.Independent (branch : BranchScript) : Prop where
  unnamed : ∀ total ∈ branch.totals, ∀ field ∈ branch.namedFields,
    (total.field.place offset).Apart (field.place offset)
  apart : branch.totals.Pairwise fun total other =>
    (total.field.place offset).Apart (other.field.place offset)

def Script.Independent (script : Script) : Prop :=
  ∀ branch ∈ script.branches, branch.Independent offset

end Meaning

section Terms

variable (offset : String → Option Nat)

def Condition.filterTerm (condition : Condition) (field : NamedField) : FilterTerm :=
  ⟨(field.place offset).offset, BitVec.ofNat 64 condition.number, BitVec.ofNat 64 condition.delta,
    condition.op, field.width⟩

def Condition.groupfilterTerm (condition : Condition) (field : NamedField) : GroupfilterTerm :=
  ⟨(field.place offset).offset, BitVec.ofNat 64 condition.number, BitVec.ofNat 64 condition.delta,
    condition.op, field.width⟩

def Key.term (key : Key) : GrouperTerm :=
  ⟨(key.field.place offset).offset, (key.field.place offset).offset, 0#64, .eq, key.field.width,
    key.field.width, key.opType⟩

def NamedField.staticTerm (field : NamedField) : AggrTerm :=
  ⟨(field.place offset).offset, .static, field.width⟩

def Total.term (total : Total) : AggrTerm :=
  ⟨(total.field.place offset).offset, total.op.aggrOp, total.field.width⟩

/-- The branch as it is run. -/
def BranchScript.branch (branch : BranchScript) : Branch where
  filterClauseset := branch.filter.map (List.map fun term => term.2.filterTerm offset term.1)
  grouperClauseset := branch.grouper.toList.map (List.map (Key.term offset))
  aggrClauseTermset :=
    branch.statics.map (NamedField.staticTerm offset) ++ branch.totals.map (Total.term offset)
  groupfilterClauseset :=
    branch.groupfilter.map (List.map fun term => term.2.groupfilterTerm offset term.1.field)

variable {branches : List BranchScript}

def Join.term (join : Join branches) :
    MergerTerm (branches.map (BranchScript.branch offset)).length :=
  ⟨join.branch1.cast (List.length_map _).symm, (join.value1.field.place offset).offset,
    join.branch2.cast (List.length_map _).symm, (join.value2.field.place offset).offset,
    .comp join.op, join.value1.field.width, join.value2.field.width, 0#64⟩

/-- The flowquery as it is run. -/
def Script.flowquery (script : Script) : Flowquery where
  branchset := script.branches.map (BranchScript.branch offset)
  mergerClauseset := script.joins.toList.map (List.map (Join.term offset))

end Terms

end Nfql
