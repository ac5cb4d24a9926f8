import Nfql.QueryParsed

set_option autoImplicit false

/- The stage flags while a query is parsed: which queries get through, and with what. -/
namespace Nfql

open JsonC Outcomes

/-- The flags after a branch. -/
def Stages.after (stages : Stages) (branch : BranchRules) : Stages :=
  { stages with
    filterEnabled := stages.filterEnabled || branch.filter.isSome
    grouperEnabled := stages.grouperEnabled || branch.grouper.isSome
    groupaggregationsEnabled := stages.groupaggregationsEnabled || branch.aggregation.isSome
    groupfilterEnabled := stages.groupfilterEnabled || branch.groupfilter.isSome }

/-- The branch has every stage whose flag an earlier branch has set. -/
structure BranchRules.Keeps (stages : Stages) (branch : BranchRules) : Prop where
  filter : stages.filterEnabled = true → branch.filter.isSome = true
  grouper : stages.grouperEnabled = true → branch.grouper.isSome = true
  aggregation : stages.groupaggregationsEnabled = true → branch.aggregation.isSome = true
  groupfilter : stages.groupfilterEnabled = true → branch.groupfilter.isSome = true

/-- The later branch has every stage that the earlier one has. -/
structure BranchRules.Continues (earlier later : BranchRules) : Prop where
  filter : earlier.filter.isSome = true → later.filter.isSome = true
  grouper : earlier.grouper.isSome = true → later.grouper.isSome = true
  aggregation : earlier.aggregation.isSome = true → later.aggregation.isSome = true
  groupfilter : earlier.groupfilter.isSome = true → later.groupfilter.isSome = true

/-- Aggregations are looked up in groupers only. -/
def Stages.Consistent (stages : Stages) : Prop :=
  stages.groupaggregationsEnabled = true → stages.grouperEnabled = true

theorem grouper_of_aggregation (branch : BranchRules) (some : branch.aggregation.isSome = true) :
    branch.grouper.isSome = true := by
  unfold BranchRules.aggregation at some
  cases given : branch.grouper with
  | none =>
      rw [given] at some
      cases some
  | some grouper => rfl

theorem Stages.Consistent.after (stages : Stages) (consistent : stages.Consistent)
    (branch : BranchRules) : (stages.after branch).Consistent := by
  intro enabled
  show (stages.grouperEnabled || branch.grouper.isSome) = true
  rcases Bool.or_eq_true_iff.mp enabled with old | new
  · rw [consistent old, Bool.true_or]
  · rw [grouper_of_aggregation branch new, Bool.or_true]

theorem keeps_after (stages : Stages) (branch later : BranchRules) :
    later.Keeps (stages.after branch) ↔ later.Keeps stages ∧ branch.Continues later := by
  have split : ∀ (flag : Bool) (part : Bool) (goal : Prop),
      ((flag || part) = true → goal) ↔ (flag = true → goal) ∧ (part = true → goal) := by
    intro flag part goal
    rw [Bool.or_eq_true_iff, or_imp]
  constructor
  · intro keeps
    have filter := (split _ _ _).mp keeps.filter
    have grouper := (split _ _ _).mp keeps.grouper
    have aggregation := (split _ _ _).mp keeps.aggregation
    have groupfilter := (split _ _ _).mp keeps.groupfilter
    exact ⟨⟨filter.1, grouper.1, aggregation.1, groupfilter.1⟩,
      ⟨filter.2, grouper.2, aggregation.2, groupfilter.2⟩⟩
  · rintro ⟨keeps, continues⟩
    exact ⟨(split _ _ _).mpr ⟨keeps.filter, continues.filter⟩,
      (split _ _ _).mpr ⟨keeps.grouper, continues.grouper⟩,
      (split _ _ _).mpr ⟨keeps.aggregation, continues.aggregation⟩,
      (split _ _ _).mpr ⟨keeps.groupfilter, continues.groupfilter⟩⟩

/-- Every branch keeps the flags that it meets. -/
def StagesKept : Stages → List BranchRules → Prop
  | _, [] => True
  | stages, branch :: rest => branch.Keeps stages ∧ StagesKept (stages.after branch) rest

theorem stagesKept_iff (stages : Stages) (branches : List BranchRules) :
    StagesKept stages branches ↔
      (∀ branch ∈ branches, branch.Keeps stages) ∧ branches.Pairwise BranchRules.Continues := by
  induction branches generalizing stages with
  | nil => simp [StagesKept]
  | cons branch rest ih =>
      rw [StagesKept, ih, List.forall_mem_cons, List.pairwise_cons]
      constructor
      · rintro ⟨keeps, later, continues⟩
        exact ⟨⟨keeps, fun other member => ((keeps_after _ _ _).mp (later other member)).1⟩,
          fun other member => ((keeps_after _ _ _).mp (later other member)).2, continues⟩
      · rintro ⟨⟨keeps, later⟩, first, continues⟩
        exact ⟨keeps, fun other member =>
          (keeps_after _ _ _).mpr ⟨later other member, first other member⟩, continues⟩

/-- No flag is set before the first branch. -/
theorem kept_clear (branches : List BranchRules) :
    StagesKept Stages.clear branches ↔ branches.Pairwise BranchRules.Continues := by
  rw [stagesKept_iff]
  apply and_iff_right
  intro branch _
  constructor <;> (intro on; cases on)

section Stage

variable {σ : Type} (reader : QueryReader σ)

/-- No template makes the run succeed. -/
def Fails {α : Type} (run : Parser σ α) : Prop := ∀ templ result, run templ ≠ .ok result

theorem Fails.bind {α β : Type} {first : Parser σ α} (fails : Fails first)
    (next : α → Parser σ β) : Fails (first >>= next) := by
  intro templ result success
  obtain ⟨value, run, -⟩ := bind_eq_ok success
  exact fails templ value run

theorem Fails.after {α β : Type} (first : Parser σ α) {next : α → Parser σ β}
    (fails : ∀ value, Fails (next value)) : Fails (first >>= next) := by
  intro templ result success
  obtain ⟨⟨value, templ⟩, -, run⟩ := bind_eq_ok success
  exact fails value templ result run

theorem fail_fails {α : Type} (fault : Fault) : Fails (Parser.fail fault : Parser σ α) := by
  intro templ result success
  cases success

end Stage

section Lookups

variable (branch : BranchRules)

/-- `{'dnf-expr': ...}`. -/
def stageJson {τ : Type} (vars : τ → Json) (clauses : List (List τ)) : Json :=
  .obj [("dnf-expr", dnfJson vars clauses)]

theorem branchJson_filter : objectGet (some branch.json) "filter" =
    branch.filter.map (stageJson FilterRule.vars) := by
  obtain ⟨filter, grouper, groupfilter⟩ := branch
  cases filter <;> cases grouper <;> cases groupfilter <;> rfl

theorem branchJson_grouper : objectGet (some branch.json) "grouper" =
    branch.grouper.map GrouperRules.json := by
  obtain ⟨filter, grouper, groupfilter⟩ := branch
  cases filter <;> cases grouper <;> cases groupfilter <;> rfl

theorem branchJson_groupfilter : objectGet (some branch.json) "groupfilter" =
    branch.groupfilter.map (stageJson GroupFilterRule.vars) := by
  obtain ⟨filter, grouper, groupfilter⟩ := branch
  cases filter <;> cases grouper <;> cases groupfilter <;> rfl

theorem grouperJson_aggregation :
    objectGet (branch.grouper.map GrouperRules.json) "aggregation" =
      branch.aggregation.map (clauseJson AggregationRule.vars) := by
  obtain ⟨filter, grouper, groupfilter⟩ := branch
  cases grouper with
  | none => rfl
  | some grouper =>
      obtain ⟨dnfExpr, aggregation⟩ := grouper
      cases aggregation <;> rfl

end Lookups

section Branch

variable {σ τ υ : Type} (reader : QueryReader σ)

theorem whenEnabled_kept (enabled : Bool) (part : Option (List τ)) (parse : Parser σ (List υ))
    (names : τ → List String) (value : τ → υ)
    (kept : enabled = true → part.isSome = true)
    (given : ∀ rules, part = some rules →
      parse = registering reader (rules.flatMap names) (rules.map value)) :
    whenEnabled (enabled || part.isSome) parse =
      registering reader ((part.getD []).flatMap names) ((part.getD []).map value) := by
  cases part with
  | none =>
      have off : enabled = false := by
        cases enabled with
        | false => rfl
        | true => cases kept rfl
      rw [off]
      show pure [] = forM [] _ >>= fun _ => pure []
      rw [List.forM_nil, pure_bind]
  | some rules =>
      rw [Option.isSome_some, Bool.or_true]
      exact given rules rfl

/-- A stage whose terms are parsed one by one, in a branch that keeps its flag. -/
theorem whenEnabled_dnf (enabled : Bool) (part : Option (List (List τ))) (vars : τ → Json)
    (parseTerm : Option Json → Parser σ υ) (names : τ → List String) (value : τ → υ)
    (each : ∀ rule, parseTerm (some (vars rule)) = registering reader (names rule) (value rule))
    (kept : enabled = true → part.isSome = true) (stage : Option Json)
    (found : ∀ clauses, part = some clauses →
      objectGet stage "dnf-expr" = some (dnfJson vars clauses)) :
    whenEnabled (enabled || part.isSome) (parseDnf parseTerm stage) =
      registering reader ((part.getD []).flatMap (List.flatMap names))
        ((part.getD []).map (List.map value)) :=
  whenEnabled_kept reader enabled part _ _ _ kept fun clauses given =>
    parseDnf_dnfJson reader vars parseTerm names value each clauses stage (found clauses given)

theorem whenEnabled_lost (enabled : Bool) (parse : Parser σ (List υ)) (on : enabled = true)
    (fails : Fails parse) : Fails (whenEnabled enabled parse) := by
  rw [on]
  exact fails

theorem parse_filter (enabled : Bool) (part : Option (List (List FilterRule)))
    (kept : enabled = true → part.isSome = true) :
    whenEnabled (enabled || part.isSome)
        (parseDnf (parseFilterTerm reader) (part.map (stageJson FilterRule.vars))) =
      registering reader ((part.getD []).flatMap (List.flatMap FilterRule.names))
        ((part.getD []).map (List.map (FilterRule.parsed reader))) :=
  whenEnabled_dnf reader enabled part FilterRule.vars _ _ _ (parseFilterTerm_vars reader) kept _
    fun clauses given => by rw [given]; rfl

theorem parse_grouper (enabled : Bool) (part : Option GrouperRules)
    (kept : enabled = true → part.isSome = true) :
    whenEnabled (enabled || part.isSome)
        (parseDnf (parseGrouperTerm reader) (part.map GrouperRules.json)) =
      registering reader
        (((part.map GrouperRules.dnfExpr).getD []).flatMap (List.flatMap GrouperRule.names))
        (((part.map GrouperRules.dnfExpr).getD []).map (List.map (GrouperRule.parsed reader))) := by
  rw [← Option.isSome_map (f := GrouperRules.dnfExpr)] at kept ⊢
  exact whenEnabled_dnf reader enabled (part.map GrouperRules.dnfExpr) GrouperRule.vars _ _ _
    (parseGrouperTerm_vars reader) kept _ fun clauses given => by
      obtain ⟨grouper, rfl, rfl⟩ := Option.map_eq_some_iff.mp given
      rfl

/-- Aggregations are parsed if a grouper is; their flag is set only by groupers. -/
theorem parse_aggregation (stages : Stages) (consistent : stages.Consistent)
    (branch : BranchRules)
    (kept : stages.groupaggregationsEnabled = true → branch.aggregation.isSome = true) :
    whenEnabled ((stages.grouperEnabled || branch.grouper.isSome) &&
          (stages.groupaggregationsEnabled || branch.aggregation.isSome))
        (parseClause (parseAggrTerm reader)
          (branch.aggregation.map (clauseJson AggregationRule.vars))) =
      registering reader ((branch.aggregation.getD []).flatMap AggregationRule.names)
        ((branch.aggregation.getD []).map AggregationRule.parsed) := by
  have narrower : ((stages.grouperEnabled || branch.grouper.isSome) &&
      (stages.groupaggregationsEnabled || branch.aggregation.isSome)) =
      (stages.groupaggregationsEnabled || branch.aggregation.isSome) := by
    cases on : stages.groupaggregationsEnabled || branch.aggregation.isSome with
    | false => exact Bool.and_false _
    | true =>
        rw [Bool.and_true]
        exact Stages.Consistent.after stages consistent branch on
  rw [narrower]
  exact whenEnabled_kept reader _ branch.aggregation _ _ _ kept fun rules given => by
    rw [given]
    exact parseClause_clauseJson reader AggregationRule.vars _ _ _ (parseAggrTerm_vars reader) rules

/-- A branch that keeps the flags registers its names and is parsed. -/
theorem parseBranch_kept (stages : Stages) (consistent : stages.Consistent)
    (branch : BranchRules) (keeps : branch.Keeps stages) :
    parseBranch reader stages (some branch.json) =
      registering reader branch.names (stages.after branch, branch.parsed reader) := by
  have aggregation : (stages.groupaggregationsEnabled ||
      ((stages.grouperEnabled || branch.grouper.isSome) && branch.aggregation.isSome)) =
      (stages.groupaggregationsEnabled || branch.aggregation.isSome) := by
    cases some : branch.aggregation.isSome with
    | false => rw [Bool.and_false]
    | true => rw [grouper_of_aggregation branch some, Bool.or_true, Bool.and_true]
  have groupfilter : whenEnabled (stages.groupfilterEnabled || branch.groupfilter.isSome)
      (parseDnf (parseGroupfilterTerm reader)
        (branch.groupfilter.map (stageJson GroupFilterRule.vars))) = _ :=
    parse_filter reader _ _ keeps.groupfilter
  unfold parseBranch
  simp only [branchJson_filter, branchJson_grouper, branchJson_groupfilter,
    grouperJson_aggregation, Option.isSome_map, aggregation, groupfilter,
    parse_filter reader _ _ keeps.filter, parse_grouper reader _ _ keeps.grouper,
    parse_aggregation reader stages consistent branch keeps.aggregation]
  unfold registering BranchRules.names
  simp only [List.forM_append, bind_assoc, pure_bind]
  rfl

theorem parse_lost (part : Option τ) (json : τ → Json) (key : String)
    (lost : ¬ part.isSome = true) (turn : Option Json → Parser σ υ) :
    Fails (arrayEach (objectGet (part.map json) key) turn) := by
  rw [Option.not_isSome_iff_eq_none.mp lost]
  exact fail_fails _

/-- A branch that lacks a stage of an earlier branch takes the length of a missing array. -/
theorem parseBranch_lost (stages : Stages) (consistent : stages.Consistent)
    (branch : BranchRules) (lost : ¬ branch.Keeps stages) :
    Fails (parseBranch reader stages (some branch.json)) := by
  unfold parseBranch
  simp only [branchJson_filter, branchJson_grouper, branchJson_groupfilter,
    grouperJson_aggregation, Option.isSome_map]
  by_cases filter : stages.filterEnabled = true → branch.filter.isSome = true
  · refine Fails.after _ fun filterClauseset => ?_
    by_cases grouper : stages.grouperEnabled = true → branch.grouper.isSome = true
    · refine Fails.after _ fun grouperClauseset => ?_
      by_cases aggregation :
          stages.groupaggregationsEnabled = true → branch.aggregation.isSome = true
      · refine Fails.after _ fun aggrClauseTermset => ?_
        have groupfilter :
            ¬ (stages.groupfilterEnabled = true → branch.groupfilter.isSome = true) :=
          fun groupfilter => lost ⟨filter, grouper, aggregation, groupfilter⟩
        obtain ⟨on, missing⟩ := Classical.not_imp.mp groupfilter
        apply Fails.bind
        exact whenEnabled_lost _ _ (by rw [on, Bool.true_or]) (parse_lost _ _ _ missing _)
      · obtain ⟨on, missing⟩ := Classical.not_imp.mp aggregation
        apply Fails.bind
        exact whenEnabled_lost _ _ (by rw [consistent on, on]; rfl) (parse_lost _ _ _ missing _)
    · obtain ⟨on, missing⟩ := Classical.not_imp.mp grouper
      apply Fails.bind
      exact whenEnabled_lost _ _ (by rw [on, Bool.true_or]) (parse_lost _ _ _ missing _)
  · obtain ⟨on, missing⟩ := Classical.not_imp.mp filter
    apply Fails.bind
    exact whenEnabled_lost _ _ (by rw [on, Bool.true_or]) (parse_lost _ _ _ missing _)

/-- The flags after all branches. -/
def Stages.afterAll (stages : Stages) (branches : List BranchRules) : Stages :=
  branches.foldl Stages.after stages

theorem parseBranches_kept (stages : Stages) (consistent : stages.Consistent)
    (branches : List BranchRules) (kept : StagesKept stages branches) :
    parseBranches reader stages (branches.map fun branch => some branch.json) =
      registering reader (branches.flatMap BranchRules.names)
        (stages.afterAll branches, branches.map (BranchRules.parsed reader)) := by
  induction branches generalizing stages with
  | nil =>
      show pure _ = forM [] _ >>= fun _ => pure _
      rw [List.forM_nil, pure_bind]
      rfl
  | cons branch rest ih =>
      obtain ⟨keeps, later⟩ := kept
      rw [List.map_cons, parseBranches, parseBranch_kept reader stages consistent branch keeps]
      have others := ih (stages.after branch) (consistent.after stages branch) later
      unfold registering at others ⊢
      simp only [bind_assoc, pure_bind, others, List.flatMap_cons, List.forM_append]
      rfl

theorem parseBranches_lost (stages : Stages) (consistent : stages.Consistent)
    (branches : List BranchRules) (lost : ¬ StagesKept stages branches) :
    Fails (parseBranches reader stages (branches.map fun branch => some branch.json)) := by
  induction branches generalizing stages with
  | nil => exact absurd trivial lost
  | cons branch rest ih =>
      rw [List.map_cons, parseBranches]
      by_cases keeps : branch.Keeps stages
      · have later : ¬ StagesKept (stages.after branch) rest := fun kept => lost ⟨keeps, kept⟩
        rw [parseBranch_kept reader stages consistent branch keeps]
        unfold registering
        simp only [bind_assoc, pure_bind]
        refine Fails.after _ fun _ => ?_
        exact (ih _ (consistent.after stages branch) later).bind _
      · exact (parseBranch_lost reader stages consistent branch keeps).bind _

end Branch

section Query

variable {σ : Type} (reader : QueryReader σ)

/-- The flags after a query. -/
def Query.stages (query : Query) : Stages :=
  { Stages.clear.afterAll query.branchset with
    mergerEnabled := query.merger.isSome
    ungrouperEnabled := query.ungrouper }

theorem queryJson_branchset (query : Query) : objectGet (some query.json) "branchset" =
    some (.arr (query.branchset.map BranchRules.json)) := rfl

theorem queryJson_merger (query : Query) : objectGet (some query.json) "merger" =
    query.merger.map (stageJson MergerRule.vars) := by
  obtain ⟨branchset, merger, ungrouper⟩ := query
  cases merger <;> cases ungrouper <;> rfl

theorem queryJson_ungrouper (query : Query) :
    (objectGet (some query.json) "ungrouper").isSome = query.ungrouper := by
  obtain ⟨branchset, merger, ungrouper⟩ := query
  cases merger <;> cases ungrouper <;> rfl

/-- A query whose branches keep the flags is parsed, and registers its names in order. -/
theorem parseJsonQuery_kept (query : Query) (kept : StagesKept Stages.clear query.branchset) :
    parseJsonQuery reader (some query.json) =
      registering reader query.names (query.stages, query.parsed reader) := by
  have branches := parseBranches_kept reader Stages.clear (by intro on; cases on) _ kept
  have merger := whenEnabled_dnf reader false query.merger MergerRule.vars _ _ _
    (parseMergerTerm_vars reader) (by intro on; cases on)
    (query.merger.map (stageJson MergerRule.vars)) fun clauses given => by rw [given]; rfl
  rw [Bool.false_or] at merger
  unfold parseJsonQuery
  simp only [queryJson_branchset, arrayLength, range_arrayGetIdx, List.map_map, Function.comp_def,
    branches, queryJson_merger, Option.isSome_map, merger, queryJson_ungrouper]
  unfold registering Query.names
  simp only [List.forM_append, bind_assoc, pure_bind]
  rfl

theorem parseJsonQuery_lost (query : Query) (lost : ¬ StagesKept Stages.clear query.branchset) :
    Fails (parseJsonQuery reader (some query.json)) := by
  unfold parseJsonQuery
  simp only [queryJson_branchset, arrayLength, range_arrayGetIdx, List.map_map, Function.comp_def]
  exact (parseBranches_lost reader Stages.clear (by intro on; cases on) _ lost).bind _

end Query

end Nfql
