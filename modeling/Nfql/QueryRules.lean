import Nfql.JsonC
import Nfql.RuleNames

set_option autoImplicit false

/- The rule classes of scripts/queries/pipeline.py, and the JSON objects that the
query scripts dump. -/
namespace Nfql

open JsonC

structure FilterRule where
  name : String
  value : Int
  datatype : Rule
  delta : Int
  op : Rule

/-- `GroupFilterRule` has the members of `FilterRule`. -/
abbrev GroupFilterRule := FilterRule

structure GrouperRule where
  field1Name : String
  field1Type : Rule
  field2Name : String
  field2Type : Rule
  delta : Int
  opName : Rule
  opType : Rule

structure AggregationRule where
  name : String
  datatype : Rule
  op : Rule

structure MergerRule where
  branch1Id : Int
  branch2Id : Int
  field1Name : String
  field1Type : Rule
  field2Name : String
  field2Type : Rule
  delta : Int
  opName : Rule
  opType : Rule

/-- `vars(FilterRule(...))`. -/
def FilterRule.vars (rule : FilterRule) : Json :=
  .obj [("offset", .obj [("name", .str rule.name), ("value", .int rule.value),
      ("datatype", .str rule.datatype.name)]),
    ("delta", .int rule.delta), ("op", .str rule.op.name)]

def GroupFilterRule.vars (rule : GroupFilterRule) : Json := FilterRule.vars rule

def GrouperRule.vars (rule : GrouperRule) : Json :=
  .obj [("offset", .obj [("f1_name", .str rule.field1Name),
      ("f1_datatype", .str rule.field1Type.name), ("f2_name", .str rule.field2Name),
      ("f2_datatype", .str rule.field2Type.name)]),
    ("delta", .int rule.delta),
    ("op", .obj [("name", .str rule.opName.name), ("type", .str rule.opType.name)])]

def AggregationRule.vars (rule : AggregationRule) : Json :=
  .obj [("offset", .obj [("name", .str rule.name), ("datatype", .str rule.datatype.name)]),
    ("op", .str rule.op.name)]

def MergerRule.vars (rule : MergerRule) : Json :=
  .obj [("offset", .obj [("f1_name", .str rule.field1Name),
      ("f1_datatype", .str rule.field1Type.name), ("f2_name", .str rule.field2Name),
      ("f2_datatype", .str rule.field2Type.name)]),
    ("op", .obj [("name", .str rule.opName.name), ("type", .str rule.opType.name)]),
    ("branch1_id", .int rule.branch1Id), ("branch2_id", .int rule.branch2Id),
    ("delta", .int rule.delta)]

/-- `{'clause': [{'term': vars(...)}, ...]}`. -/
def clauseJson {τ : Type} (vars : τ → Json) (clause : List τ) : Json :=
  .obj [("clause", .arr (clause.map fun rule => .obj [("term", vars rule)]))]

def dnfJson {τ : Type} (vars : τ → Json) (clauses : List (List τ)) : Json :=
  .arr (clauses.map (clauseJson vars))

/-- A grouper: its clauses and, if it has one, its aggregation clause. -/
structure GrouperRules where
  dnfExpr : List (List GrouperRule)
  aggregation : Option (List AggregationRule)

structure BranchRules where
  filter : Option (List (List FilterRule))
  grouper : Option GrouperRules
  groupfilter : Option (List (List GroupFilterRule))

/-- A query of the scripts. Every stage may be left out. -/
structure Query where
  branchset : List BranchRules
  merger : Option (List (List MergerRule))
  ungrouper : Bool

def BranchRules.aggregation (branch : BranchRules) : Option (List AggregationRule) :=
  branch.grouper.bind GrouperRules.aggregation

/-- The member of an object for a part that may be left out. -/
def member {τ : Type} (key : String) (json : τ → Json) (part : Option τ) :
    List (String × Json) :=
  match part with
  | none => []
  | some part => [(key, json part)]

def GrouperRules.json (grouper : GrouperRules) : Json :=
  .obj (("dnf-expr", dnfJson GrouperRule.vars grouper.dnfExpr) ::
    member "aggregation" (clauseJson AggregationRule.vars) grouper.aggregation)

def BranchRules.json (branch : BranchRules) : Json :=
  .obj (member "filter" (fun clauses => .obj [("dnf-expr", dnfJson FilterRule.vars clauses)])
      branch.filter ++
    member "grouper" GrouperRules.json branch.grouper ++
    member "groupfilter"
      (fun clauses => .obj [("dnf-expr", dnfJson GroupFilterRule.vars clauses)])
      branch.groupfilter)

/-- The object that a script dumps. -/
def Query.json (query : Query) : Json :=
  .obj (("branchset", .arr (query.branchset.map BranchRules.json)) ::
    (member "merger" (fun clauses => .obj [("dnf-expr", dnfJson MergerRule.vars clauses)])
        query.merger ++
      if query.ungrouper then [("ungrouper", .obj [])] else []))

/-- An integer fits a datatype. -/
def Rule.Fits : Rule → Int → Prop
  | .s1 width, value | .s2 width, value => 0 ≤ value ∧ value < 2 ^ width.bits
  | _, _ => False

end Nfql
