import Mathlib.Tactic.MkIffOfInductiveProp
import Nfql.QueryTerms

set_option autoImplicit false

/- When a query comes through `parse_json_query` and `prepare_flowquery` unaltered. -/
namespace Nfql

open JsonC Outcomes

section Carried

variable (offset : String → Option Nat)

/-- The clauses and terms of a branch, in order; a stage that is left out has none. -/
@[mk_iff]
structure BranchRules.CarriedBy (rules : BranchRules) (branch : Prepared.Branch) : Prop where
  filter : List.Forall₂ (List.Forall₂ (FilterRule.CarriedBy offset)) (rules.filter.getD [])
    branch.filterClauseset
  grouper : List.Forall₂ (List.Forall₂ (GrouperRule.CarriedBy offset))
    ((rules.grouper.map GrouperRules.dnfExpr).getD []) branch.grouperClauseset
  aggregation : List.Forall₂ (AggregationRule.CarriedBy offset) (rules.aggregation.getD [])
    branch.aggrClauseTermset
  groupfilter : List.Forall₂ (List.Forall₂ (FilterRule.CarriedBy offset))
    (rules.groupfilter.getD []) branch.groupfilterClauseset

/-- The flowquery says what the query says. -/
@[mk_iff]
structure Query.CarriedBy (query : Query) (fquery : Prepared.Flowquery) : Prop where
  branchset : List.Forall₂ (BranchRules.CarriedBy offset) query.branchset fquery.branchset
  merger : List.Forall₂ (List.Forall₂ (MergerRule.CarriedBy offset)) (query.merger.getD [])
    fquery.mergerClauseset

end Carried

/-- The values and deltas of a branch's terms. -/
def BranchRules.integers (branch : BranchRules) : List Int :=
  (branch.filter.getD []).flatMap (List.flatMap FilterRule.integers) ++
    (((branch.grouper.map GrouperRules.dnfExpr).getD []).flatMap
        (List.flatMap GrouperRule.integers) ++
      (branch.groupfilter.getD []).flatMap (List.flatMap FilterRule.integers))

/-- Register the fields of a query one after the other. -/
def QueryReader.registerAll {σ : Type} (reader : QueryReader σ) (templ : σ)
    (names : List String) : Option σ :=
  if reader.ipfixEnabled then names.foldlM reader.ipfixTemplIeRegister templ else some templ

/-- The fields of the query can be registered, and the record layout knows them. -/
def Query.FieldsKnown {σ : Type} (reader : QueryReader σ) (templ : σ) (query : Query) : Prop :=
  ∃ templ', reader.registerAll templ query.names = some templ' ∧
    ∀ name ∈ query.names, Known (reader.ioReadGetFieldOffset templ') name

/-- The condition under which a query is carried through. -/
structure Query.Portable {σ : Type} (reader : QueryReader σ) (templ : σ) (query : Query) :
    Prop where
  /-- No branch lacks a stage that an earlier one has. -/
  stages : query.branchset.Pairwise BranchRules.Continues
  fields : query.FieldsKnown reader templ
  /-- The values and deltas of filters, groupers and group filters survive json-c. -/
  integers : ∀ branch ∈ query.branchset, ∀ value ∈ branch.integers,
    reader.library.conversion.Keeps value
  merger : ∀ clause ∈ query.merger.getD [], ∀ rule ∈ clause,
    rule.Plain reader.library.conversion query.branchset.length

section Stages

variable {τ τ' υ : Type}

theorem prepareTerms_yields (enabled : Bool) (prepare : τ' → Except Fault υ) (parsed : τ → τ')
    (R : τ → υ → Prop) (rules : List τ) (off : enabled = false → rules = []) :
    Yields (prepareTerms enabled prepare (rules.map parsed)) (List.Forall₂ R rules) ↔
      ∀ rule ∈ rules, Yields (prepare (parsed rule)) (R rule) := by
  have mapped : Yields ((rules.map parsed).mapM prepare) (List.Forall₂ R rules) ↔
      ∀ rule ∈ rules, Yields (prepare (parsed rule)) (R rule) := by
    rw [List.mapM_map]
    exact yields_mapM _ R rules
  cases enabled with
  | true => exact mapped
  | false =>
      rw [off rfl] at mapped ⊢
      exact mapped

theorem prepareClauses_yields (enabled : Bool) (prepare : τ' → Except Fault υ) (parsed : τ → τ')
    (R : τ → υ → Prop) (clauses : List (List τ)) (off : enabled = false → clauses = []) :
    Yields (prepareClauses enabled prepare (clauses.map (List.map parsed)))
        (List.Forall₂ (List.Forall₂ R) clauses) ↔
      ∀ clause ∈ clauses, ∀ rule ∈ clause, Yields (prepare (parsed rule)) (R rule) := by
  unfold prepareClauses
  rw [prepareTerms_yields enabled _ _ _ clauses off]
  apply forall₂_congr
  intro clause _
  exact prepareTerms_yields true prepare parsed R clause (by intro off; cases off)

/-- Clauses come through if their rules' names are known and their integers kept. -/
theorem clauses_yield (enabled : Bool) (prepare : τ' → Except Fault υ) (parsed : τ → τ')
    (R : τ → υ → Prop) (names : τ → List String) (integers : τ → List Int) (K : String → Prop)
    (I : Int → Prop)
    (each : ∀ rule, Yields (prepare (parsed rule)) (R rule) ↔
      (∀ name ∈ names rule, K name) ∧ ∀ value ∈ integers rule, I value)
    (clauses : List (List τ)) (off : enabled = false → clauses = []) :
    Yields (prepareClauses enabled prepare (clauses.map (List.map parsed)))
        (List.Forall₂ (List.Forall₂ R) clauses) ↔
      (∀ name ∈ clauses.flatMap (List.flatMap names), K name) ∧
        ∀ value ∈ clauses.flatMap (List.flatMap integers), I value := by
  rw [prepareClauses_yields enabled prepare parsed R clauses off]
  simp only [each, List.forall_mem_flatMap]
  constructor
  · intro holds
    exact ⟨fun clause member rule inside => (holds clause member rule inside).1,
      fun clause member rule inside => (holds clause member rule inside).2⟩
  · rintro ⟨known, kept⟩ clause member rule inside
    exact ⟨known clause member rule inside, kept clause member rule inside⟩

end Stages

section Query

variable {σ : Type} (reader : QueryReader σ) (offset : String → Option Nat)

/-- Every stage of the branch is switched on. -/
structure BranchRules.Enabled (stages : Stages) (branch : BranchRules) : Prop where
  filter : branch.filter.isSome = true → stages.filterEnabled = true
  grouper : branch.grouper.isSome = true → stages.grouperEnabled = true
  aggregation : branch.aggregation.isSome = true → stages.groupaggregationsEnabled = true
  groupfilter : branch.groupfilter.isSome = true → stages.groupfilterEnabled = true

theorem getD_off {τ : Type} (part : Option (List τ)) (enabled : Bool)
    (on : part.isSome = true → enabled = true) (off : enabled = false) : part.getD [] = [] := by
  cases part with
  | none => rfl
  | some rules => exact absurd (on rfl) (by rw [off]; decide)

theorem prepareBranch_yields (stages : Stages) (branch : BranchRules)
    (enabled : branch.Enabled stages) :
    Yields (prepareBranch offset stages (branch.parsed reader)) (branch.CarriedBy offset) ↔
      (∀ name ∈ branch.names, Known offset name) ∧
        ∀ value ∈ branch.integers, reader.library.conversion.Keeps value := by
  have filter := clauses_yield stages.filterEnabled (prepareFilterTerm offset)
    (FilterRule.parsed reader) (FilterRule.CarriedBy offset) _ _ _ _
    (prepareFilterTerm_yields reader offset) (branch.filter.getD []) (getD_off _ _ enabled.filter)
  have grouper := clauses_yield stages.grouperEnabled (prepareGrouperTerm offset)
    (GrouperRule.parsed reader) (GrouperRule.CarriedBy offset) _ _ _ _
    (prepareGrouperTerm_yields reader offset) ((branch.grouper.map GrouperRules.dnfExpr).getD [])
    (getD_off _ _ (by rw [Option.isSome_map]; exact enabled.grouper))
  have aggregation := prepareTerms_yields stages.groupaggregationsEnabled (prepareAggrTerm offset)
    AggregationRule.parsed (AggregationRule.CarriedBy offset) (branch.aggregation.getD [])
    (getD_off _ _ enabled.aggregation)
  have groupfilter := clauses_yield stages.groupfilterEnabled (prepareGroupfilterTerm offset)
    (FilterRule.parsed reader) (FilterRule.CarriedBy offset) _ _ _ _
    (prepareFilterTerm_yields reader offset) (branch.groupfilter.getD [])
    (getD_off _ _ enabled.groupfilter)
  simp only [prepareAggrTerm_yields] at aggregation
  rw [← List.forall_mem_flatMap] at aggregation
  unfold prepareBranch BranchRules.parsed BranchRules.names BranchRules.integers
  simp only [yields_bind, yields_ok, BranchRules.carriedBy_iff, yields_and, yields_and_left, filter,
    grouper, aggregation, groupfilter, List.forall_mem_append]
  constructor
  · rintro ⟨⟨fnames, fints⟩, ⟨gnames, gints⟩, anames, ⟨gfnames, gfints⟩⟩
    exact ⟨⟨fnames, gnames, anames, gfnames⟩, fints, gints, gfints⟩
  · rintro ⟨⟨fnames, gnames, anames, gfnames⟩, fints, gints, gfints⟩
    exact ⟨⟨fnames, fints⟩, ⟨gnames, gints⟩, anames, ⟨gfnames, gfints⟩⟩

theorem enabled_after (stages : Stages) (branches : List BranchRules) :
    (∀ branch : BranchRules, branch.Enabled stages → branch.Enabled (stages.afterAll branches)) ∧
      ∀ branch ∈ branches, branch.Enabled (stages.afterAll branches) := by
  induction branches generalizing stages with
  | nil => exact ⟨fun _ enabled => enabled, by simp⟩
  | cons first rest ih =>
      obtain ⟨keeps, members⟩ := ih (stages.after first)
      constructor
      · intro branch enabled
        apply keeps
        exact ⟨fun some => Bool.or_eq_true_iff.mpr (.inl (enabled.filter some)),
          fun some => Bool.or_eq_true_iff.mpr (.inl (enabled.grouper some)),
          fun some => Bool.or_eq_true_iff.mpr (.inl (enabled.aggregation some)),
          fun some => Bool.or_eq_true_iff.mpr (.inl (enabled.groupfilter some))⟩
      · intro branch member
        rcases List.mem_cons.mp member with rfl | later
        · apply keeps
          exact ⟨fun some => Bool.or_eq_true_iff.mpr (.inr some),
            fun some => Bool.or_eq_true_iff.mpr (.inr some),
            fun some => Bool.or_eq_true_iff.mpr (.inr some),
            fun some => Bool.or_eq_true_iff.mpr (.inr some)⟩
        · exact members branch later

/-- The flags of a query switch on every stage of its branches. -/
theorem stages_enabled (query : Query) :
    ∀ branch ∈ query.branchset, branch.Enabled query.stages := by
  intro branch member
  obtain ⟨filter, grouper, aggregation, groupfilter⟩ :=
    (enabled_after Stages.clear query.branchset).2 branch member
  exact ⟨filter, grouper, aggregation, groupfilter⟩

theorem prepareFlowquery_yields (query : Query) :
    Yields (prepareFlowquery offset query.stages (query.parsed reader)) (query.CarriedBy offset) ↔
      (∀ name ∈ query.names, Known offset name) ∧
        (∀ branch ∈ query.branchset, ∀ value ∈ branch.integers,
          reader.library.conversion.Keeps value) ∧
        ∀ clause ∈ query.merger.getD [], ∀ rule ∈ clause,
          rule.Plain reader.library.conversion query.branchset.length := by
  have branches : Yields ((query.branchset.map (BranchRules.parsed reader)).mapM
      (prepareBranch offset query.stages))
        (List.Forall₂ (BranchRules.CarriedBy offset) query.branchset) ↔
      ∀ branch ∈ query.branchset, (∀ name ∈ branch.names, Known offset name) ∧
        ∀ value ∈ branch.integers, reader.library.conversion.Keeps value := by
    rw [List.mapM_map]
    refine (yields_mapM _ _ query.branchset).trans ?_
    apply forall₂_congr
    intro branch member
    exact prepareBranch_yields reader offset query.stages branch (stages_enabled query branch member)
  have merger := prepareClauses_yields query.stages.mergerEnabled
    (prepareMergerTerm offset query.branchset.length) (MergerRule.parsed reader)
    (MergerRule.CarriedBy offset) (query.merger.getD [])
    (getD_off query.merger query.merger.isSome id)
  simp only [prepareMergerTerm_yields] at merger
  unfold prepareFlowquery Query.parsed Query.names
  simp only [yields_bind, yields_ok, Query.carriedBy_iff, yields_and, yields_and_left, branches,
    List.length_map, merger, List.forall_mem_append, List.forall_mem_flatMap]
  constructor
  · rintro ⟨branches, mergers⟩
    exact ⟨⟨fun branch member => (branches branch member).1,
        fun clause member rule inside => (mergers clause member rule inside).1⟩,
      fun branch member => (branches branch member).2,
      fun clause member rule inside => (mergers clause member rule inside).2⟩
  · rintro ⟨⟨branchNames, mergerNames⟩, integers, plain⟩
    exact ⟨fun branch member => ⟨branchNames branch member, integers branch member⟩,
      fun clause member rule inside =>
        ⟨mergerNames clause member rule inside, plain clause member rule inside⟩⟩

theorem registerAll_run (templ : σ) (names : List String) :
    (forM names (registerName reader) : Parser σ PUnit) templ =
      match reader.registerAll templ names with
      | none => .error (.errExit "ipfix_templ_ie_register")
      | some templ => .ok ((), templ) := by
  have next : ∀ name rest templ, (forM (name :: rest) (registerName reader) : Parser σ PUnit) templ =
      registerName reader name templ >>= fun next => forM rest (registerName reader) next.2 := by
    intro name rest templ
    rw [List.forM_cons]
    rfl
  cases on : reader.ipfixEnabled with
  | false =>
      have skip : ∀ name templ, registerName reader name templ = .ok ((), templ) := by
        intro name templ
        unfold registerName
        rw [on]
        rfl
      have all : ∀ names, reader.registerAll templ names = some templ := by
        intro names
        unfold QueryReader.registerAll
        rw [on]
        rfl
      rw [all]
      induction names with
      | nil => rfl
      | cons name rest ih =>
          rw [next, skip, ok_bind]
          exact ih
  | true =>
      have all : ∀ templ names, reader.registerAll templ names =
          names.foldlM reader.ipfixTemplIeRegister templ := by
        intro templ names
        unfold QueryReader.registerAll
        rw [on]
        rfl
      rw [all]
      induction names generalizing templ with
      | nil => rfl
      | cons name rest ih =>
          rw [next, List.foldlM_cons]
          unfold registerName
          rw [if_pos on]
          cases reader.ipfixTemplIeRegister templ name with
          | none => rfl
          | some templ => exact ih templ

/-- If the stages are kept, only a registration can fail. -/
theorem parse_kept (templ : σ) (query : Query) (kept : StagesKept Stages.clear query.branchset) :
    parseJsonQuery reader (some query.json) templ =
      match reader.registerAll templ query.names with
      | none => .error (.errExit "ipfix_templ_ie_register")
      | some templ' => .ok ((query.stages, query.parsed reader), templ') := by
  have parsed : parseJsonQuery reader (some query.json) templ =
      (forM query.names (registerName reader) : Parser σ PUnit) templ >>= fun next =>
        .ok ((query.stages, query.parsed reader), next.2) :=
    congrFun (parseJsonQuery_kept reader query kept) templ
  rw [parsed, registerAll_run]
  cases reader.registerAll templ query.names with
  | none => rfl
  | some templ' => rfl

/-- What a query that is loaded has passed through. -/
theorem loadQuery_ok {templ templ' : σ} {query : Query} {stages : Stages}
    {fquery : Prepared.Flowquery}
    (loaded : loadQuery reader templ query.json = .ok (stages, templ', fquery)) :
    stages = query.stages ∧ prepareFlowquery (reader.ioReadGetFieldOffset templ') query.stages
      (query.parsed reader) = .ok fquery := by
  obtain ⟨⟨⟨flags, jsonQuery⟩, registered⟩, parsed, run⟩ := bind_eq_ok loaded
  obtain ⟨prepared, success, same⟩ := bind_eq_ok run
  cases same
  have kept : StagesKept Stages.clear query.branchset := by
    by_contra lost
    exact parseJsonQuery_lost reader query lost templ _ parsed
  rw [parse_kept reader templ query kept] at parsed
  cases found : reader.registerAll templ query.names with
  | none =>
      rw [found] at parsed
      cases parsed
  | some templ' =>
      rw [found] at parsed
      cases parsed
      exact ⟨rfl, success⟩

/-- Parsing and preparing a query yields a flowquery that says what the query says
exactly when the query is portable. -/
theorem roundTrip_iff (templ : σ) (query : Query) :
    Yields (loadQuery reader templ query.json) (fun loaded =>
        query.CarriedBy (reader.ioReadGetFieldOffset loaded.2.1) loaded.2.2) ↔
      query.Portable reader templ := by
  unfold loadQuery
  by_cases kept : StagesKept Stages.clear query.branchset
  · rw [parse_kept reader templ query kept]
    cases registered : reader.registerAll templ query.names with
    | none =>
        apply iff_of_false (yields_error _ _)
        intro portable
        obtain ⟨templ', found, -⟩ := portable.fields
        rw [registered] at found
        cases found
    | some templ' =>
        have prepared := prepareFlowquery_yields reader (reader.ioReadGetFieldOffset templ') query
        simp only [ok_bind, yields_bind, yields_ok]
        refine prepared.trans ⟨?_, ?_⟩
        · rintro ⟨known, integers, merger⟩
          exact ⟨(kept_clear _).mp kept, ⟨templ', registered, known⟩, integers, merger⟩
        · intro portable
          obtain ⟨other, found, known⟩ := portable.fields
          rw [registered, Option.some.injEq] at found
          subst found
          exact ⟨known, portable.integers, portable.merger⟩
  · apply iff_of_false
    · rintro ⟨loaded, success, _⟩
      obtain ⟨parsed, run, -⟩ := bind_eq_ok success
      exact parseJsonQuery_lost reader query kept templ parsed run
    · intro portable
      exact kept ((kept_clear _).mpr portable.stages)

end Query

/-- Every value and delta of a filter, grouper or group filter term fits the term's
datatype. -/
structure Query.Declared (query : Query) : Prop where
  filter : ∀ branch ∈ query.branchset, ∀ clause ∈ branch.filter.getD [], ∀ rule ∈ clause,
    rule.datatype.Fits rule.value ∧ rule.datatype.Fits rule.delta
  grouper : ∀ branch ∈ query.branchset,
    ∀ clause ∈ (branch.grouper.map GrouperRules.dnfExpr).getD [], ∀ rule ∈ clause,
      rule.field1Type.Fits rule.delta
  groupfilter : ∀ branch ∈ query.branchset, ∀ clause ∈ branch.groupfilter.getD [],
    ∀ rule ∈ clause, rule.datatype.Fits rule.value ∧ rule.datatype.Fits rule.delta

/-- A filter for the records that come from 192.168.1.1. -/
def Query.address : Query where
  branchset :=
    [⟨some [[⟨"sourceIPv4Address", 3232235777, .s1 .w32, 0, .comp .eq⟩]], none, none⟩]
  merger := none
  ungrouper := false

/-- The trace has 32-bit fields; json-c clamps. -/
def QueryReader.clamping : QueryReader Unit where
  library := ⟨IntConversion.clamp, fun _ => 0, fun _ => ""⟩
  ipfixEnabled := false
  ipfixTemplIeRegister _ _ := none
  ioReadGetFieldOffset _ _ := some 0

theorem address_declared : Query.address.Declared where
  filter := by
    intro branch inQuery clause inBranch rule inClause
    rw [List.mem_singleton.mp inQuery] at inBranch
    rw [List.mem_singleton.mp inBranch] at inClause
    rw [List.mem_singleton.mp inClause]
    exact ⟨⟨by decide, by decide⟩, ⟨by decide, by decide⟩⟩
  grouper := by
    intro branch inQuery clause inBranch
    rw [List.mem_singleton.mp inQuery] at inBranch
    cases inBranch
  groupfilter := by
    intro branch inQuery clause inBranch
    rw [List.mem_singleton.mp inQuery] at inBranch
    cases inBranch

/-- The address does not fit an `int`: the filter compares with another one. -/
theorem roundTrip_alters :
    ¬ ∀ (σ : Type) (reader : QueryReader σ) (templ : σ) (query : Query), query.Declared →
      query.FieldsKnown reader templ → query.branchset.Pairwise BranchRules.Continues →
      (∀ clause ∈ query.merger.getD [], ∀ rule ∈ clause,
        rule.Plain reader.library.conversion query.branchset.length) →
      Yields (loadQuery reader templ query.json) fun loaded =>
        query.CarriedBy (reader.ioReadGetFieldOffset loaded.2.1) loaded.2.2 := by
  intro carries
  have claimed := carries Unit QueryReader.clamping () Query.address address_declared
    ⟨(), rfl, fun _ _ => rfl⟩ (List.pairwise_singleton _ _) (by intro clause member; cases member)
  obtain ⟨-, -, integers, -⟩ := (roundTrip_iff QueryReader.clamping () Query.address).mp claimed
  have kept : IntConversion.clamp.Keeps 3232235777 :=
    integers _ (List.mem_singleton_self _) 3232235777 (by decide)
  rw [clamp_keeps_iff] at kept
  omega

end Nfql
