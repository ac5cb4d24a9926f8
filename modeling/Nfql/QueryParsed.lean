import Nfql.JsonQuery
import Nfql.Outcomes
import Nfql.QueryRules

set_option autoImplicit false

/- What `parse_json_query` makes of the queries that the scripts build. -/
namespace Nfql

open JsonC Outcomes

section Parsed

variable {σ : Type} (reader : QueryReader σ)

/-- An integer of the query, as a term holds it. -/
def parsedInt (value : Int) : BitVec 64 := getUint64 reader (some (.int value))

def FilterRule.parsed (rule : FilterRule) : JsonFilterTerm :=
  ⟨rule.op.name, parsedInt reader rule.delta,
    ⟨rule.name, parsedInt reader rule.value, rule.datatype.name⟩⟩

def GrouperRule.parsed (rule : GrouperRule) : JsonGrouperTerm :=
  ⟨parsedInt reader rule.delta,
    ⟨rule.field1Name, rule.field2Name, rule.field1Type.name, rule.field2Type.name⟩,
    ⟨rule.opName.name, rule.opType.name⟩⟩

def AggregationRule.parsed (rule : AggregationRule) : JsonAggrTerm :=
  ⟨rule.op.name, ⟨rule.name, rule.datatype.name⟩⟩

def MergerRule.parsed (rule : MergerRule) : JsonMergerTerm :=
  ⟨parsedInt reader rule.branch1Id, parsedInt reader rule.branch2Id, parsedInt reader rule.delta,
    ⟨rule.field1Name, rule.field2Name, rule.field1Type.name, rule.field2Type.name⟩,
    ⟨rule.opName.name, rule.opType.name⟩⟩

def BranchRules.parsed (branch : BranchRules) : JsonBranch where
  filterClauseset := (branch.filter.getD []).map (List.map (FilterRule.parsed reader))
  grouperClauseset := ((branch.grouper.map GrouperRules.dnfExpr).getD []).map
    (List.map (GrouperRule.parsed reader))
  aggrClauseTermset := (branch.aggregation.getD []).map AggregationRule.parsed
  groupfilterClauseset := (branch.groupfilter.getD []).map (List.map (FilterRule.parsed reader))

def Query.parsed (query : Query) : JsonQuery where
  branchset := query.branchset.map (BranchRules.parsed reader)
  mergerClauseset := (query.merger.getD []).map (List.map (MergerRule.parsed reader))

end Parsed

section Names

/-- The names that a term registers, in order. -/
def FilterRule.names (rule : FilterRule) : List String := [rule.name]

def GrouperRule.names (rule : GrouperRule) : List String := [rule.field1Name, rule.field2Name]

def AggregationRule.names (rule : AggregationRule) : List String := [rule.name]

def MergerRule.names (rule : MergerRule) : List String := [rule.field1Name, rule.field2Name]

def BranchRules.names (branch : BranchRules) : List String :=
  (branch.filter.getD []).flatMap (List.flatMap FilterRule.names) ++
    (((branch.grouper.map GrouperRules.dnfExpr).getD []).flatMap
        (List.flatMap GrouperRule.names) ++
      ((branch.aggregation.getD []).flatMap AggregationRule.names ++
        (branch.groupfilter.getD []).flatMap (List.flatMap FilterRule.names)))

def Query.names (query : Query) : List String :=
  query.branchset.flatMap BranchRules.names ++
    (query.merger.getD []).flatMap (List.flatMap MergerRule.names)

end Names

section Terms

variable {σ : Type} (reader : QueryReader σ)

/-- Register some names and go on with a value. -/
def registering {α : Type} (names : List String) (value : α) : Parser σ α :=
  forM names (registerName reader) >>= fun _ => pure value

theorem parseFilterTerm_vars (rule : FilterRule) :
    parseFilterTerm reader (some rule.vars) = registering reader rule.names (rule.parsed reader) := by
  unfold registering FilterRule.names
  rw [List.forM_cons, List.forM_nil, bind_assoc]
  rfl

theorem parseGrouperTerm_vars (rule : GrouperRule) :
    parseGrouperTerm reader (some rule.vars) =
      registering reader rule.names (rule.parsed reader) := by
  unfold registering GrouperRule.names
  rw [List.forM_cons, List.forM_cons, List.forM_nil, bind_assoc, bind_assoc]
  rfl

theorem parseAggrTerm_vars (rule : AggregationRule) :
    parseAggrTerm reader (some rule.vars) = registering reader rule.names rule.parsed := by
  unfold registering AggregationRule.names
  rw [List.forM_cons, List.forM_nil, bind_assoc]
  rfl

theorem parseMergerTerm_vars (rule : MergerRule) :
    parseMergerTerm reader (some rule.vars) =
      registering reader rule.names (rule.parsed reader) := by
  unfold registering MergerRule.names
  rw [List.forM_cons, List.forM_cons, List.forM_nil, bind_assoc, bind_assoc]
  rfl

end Terms

section Loops

variable {σ τ υ : Type} (reader : QueryReader σ)

theorem range_arrayGetIdx (items : List Json) :
    (List.range items.length).map (arrayGetIdx (some (.arr items))) = items.map some := by
  apply List.ext_getElem
  · rw [List.length_map, List.length_map, List.length_range]
  · intro index inside _
    rw [List.length_map, List.length_range] at inside
    rw [List.getElem_map, List.getElem_map, List.getElem_range]
    exact List.getElem?_eq_getElem inside

theorem arrayEach_arr {α : Type} (items : List Json) (turn : Option Json → Parser σ α) :
    arrayEach (some (.arr items)) turn = items.mapM fun item => turn (some item) := by
  have turns := congrArg (List.mapM turn) (range_arrayGetIdx items)
  rwa [List.mapM_map, List.mapM_map] at turns

/-- If a loop body registers names and returns a value, then the loop registers all
their names and returns all values. -/
theorem mapM_registering (parse : τ → Parser σ υ) (names : τ → List String) (value : τ → υ)
    (each : ∀ item, parse item = registering reader (names item) (value item))
    (items : List τ) :
    items.mapM parse = registering reader (items.flatMap names) (items.map value) :=
  mapM_effects (registerName reader) parse names value items fun item _ => each item

variable (vars : τ → Json) (parseTerm : Option Json → Parser σ υ) (names : τ → List String)
  (value : τ → υ)
  (each : ∀ rule, parseTerm (some (vars rule)) = registering reader (names rule) (value rule))

include each

theorem parseClause_clauseJson (clause : List τ) :
    parseClause parseTerm (some (clauseJson vars clause)) =
      registering reader (clause.flatMap names) (clause.map value) := by
  show arrayEach (some (.arr (clause.map fun rule => .obj [("term", vars rule)]))) _ = _
  rw [arrayEach_arr, List.mapM_map]
  exact mapM_registering reader _ names value each clause

theorem parseDnf_dnfJson (clauses : List (List τ)) (stage : Option Json)
    (found : objectGet stage "dnf-expr" = some (dnfJson vars clauses)) :
    parseDnf parseTerm stage =
      registering reader (clauses.flatMap (List.flatMap names)) (clauses.map (List.map value)) := by
  unfold parseDnf
  rw [found, dnfJson, arrayEach_arr, List.mapM_map]
  exact mapM_registering reader _ _ _ (parseClause_clauseJson reader vars parseTerm names value each)
    clauses

end Loops

end Nfql
