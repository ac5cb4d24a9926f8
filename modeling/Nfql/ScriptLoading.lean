import Nfql.ExecutableQueries
import Nfql.QueryRoundTrip
import Nfql.Scripts

set_option autoImplicit false

/- From the rules of a script to its flowquery: every script whose fields are known gets
through, and its terms get the functions of its comparisons and aggregations. -/
namespace Nfql

open Outcomes

section Functions

theorem filterCases_found (op : CompOp) (width : Width) :
    filterCases.lookup ((Rule.comp op).value ||| (Rule.s1 width).value) = some (op, width) := by
  have cases : ∀ op ∈ CompOp.all, ∀ width ∈ Width.all,
      filterCases.lookup ((Rule.comp op).value ||| (Rule.s1 width).value) = some (op, width) := by
    decide +kernel
  exact cases op op.mem_all width width.mem_all

theorem aggrCases_found (op : AggrOp) (width : Width) :
    aggrCases.lookup ((Rule.aggr op).value ||| (Rule.s1 width).value) = some (op, width) := by
  have cases : ∀ op ∈ AggrOp.all, ∀ width ∈ Width.all,
      aggrCases.lookup ((Rule.aggr op).value ||| (Rule.s1 width).value) = some (op, width) := by
    decide +kernel
  exact cases op op.mem_all width width.mem_all

theorem grouperCases_found (width : Width) (dtype : DeltaType) :
    grouperCases.lookup ((Rule.comp .eq).value ||| (Rule.s1 width).value |||
      (Rule.s2 width).value ||| (Rule.delta dtype).value) = some (.eq, width, width, dtype) := by
  have cases : ∀ width ∈ Width.all, ∀ dtype ∈ DeltaType.all,
      grouperCases.lookup ((Rule.comp .eq).value ||| (Rule.s1 width).value |||
        (Rule.s2 width).value ||| (Rule.delta dtype).value) = some (.eq, width, width, dtype) := by
    decide +kernel
  exact cases width width.mem_all dtype dtype.mem_all

theorem mergerCases_found (op : CompOp) (width1 width2 : Width) :
    mergerCases.lookup ((Rule.comp op).value ||| (Rule.s1 width1).value |||
      (Rule.s2 width2).value) = some (.comp op, width1, width2) := by
  have cases : ∀ op ∈ CompOp.all, ∀ width1 ∈ Width.all, ∀ width2 ∈ Width.all,
      mergerCases.lookup ((Rule.comp op).value ||| (Rule.s1 width1).value |||
        (Rule.s2 width2).value) = some (.comp op, width1, width2) := by
    decide +kernel
  exact cases op op.mem_all width1 width1.mem_all width2
    width2.mem_all

theorem aggrFptrCases_found (width : Width) : getAggrFptr (Rule.s1 width).value = some width := by
  cases width <;> decide +kernel

theorem gtypeCases_found (width : Width) : getGtype (Rule.s2 width).value = some width := by
  cases width <;> decide +kernel

end Functions

section Terms

variable (offset : String → Option Nat)

theorem place_offset (field : NamedField) (found : Nat) (known : offset field.name = some found) :
    (field.place offset).offset = found := by
  rw [NamedField.place, known]
  rfl

theorem ofNat_carried (value : BitVec 64) (number : Nat) (carried : (value.toNat : Int) = number) :
    BitVec.ofNat 64 number = value := by
  have same : value.toNat = number := by omega
  rw [← same, BitVec.ofNat_toNat, BitVec.setWidth_eq]

/-- A term that carries the rule of a condition is run as its comparison. -/
theorem filterTerm_assigned (condition : Condition) (field : NamedField)
    (term : Prepared.FilterTerm) (carried : (condition.rule field).CarriedBy offset term) :
    term.assigned = some (condition.filterTerm offset field) := by
  have func : assignFilterFunc term = some (condition.op, field.width) := by
    rw [assignFilterFunc, carried.op, carried.fieldType]
    exact filterCases_found condition.op field.width
  have fptr : getAggrFptr term.fieldType = some field.width := by
    rw [carried.fieldType]
    exact aggrFptrCases_found field.width
  rw [Prepared.FilterTerm.assigned, func, fptr, Condition.filterTerm,
    place_offset offset field _ carried.field, ofNat_carried _ _ carried.value,
    ofNat_carried _ _ carried.delta]
  exact if_pos rfl

theorem groupfilterTerm_assigned (condition : Condition) (field : NamedField)
    (term : Prepared.GroupfilterTerm) (carried : (condition.rule field).CarriedBy offset term) :
    Prepared.GroupfilterTerm.assigned term = some (condition.groupfilterTerm offset field) := by
  have func : assignGroupfilterFunc term = some (condition.op, field.width) := by
    rw [assignGroupfilterFunc, carried.op, carried.fieldType]
    exact filterCases_found condition.op field.width
  rw [Prepared.GroupfilterTerm.assigned, func, Condition.groupfilterTerm,
    place_offset offset field _ carried.field, ofNat_carried _ _ carried.value,
    ofNat_carried _ _ carried.delta]
  rfl

theorem keyTerm_assigned (key : Key) (term : Prepared.GrouperTerm)
    (carried : key.rule.CarriedBy offset term) : term.assigned = some (key.term offset) := by
  have func : assignGrouperFunc term =
      some (.eq, key.field.width, key.field.width, key.opType) := by
    rw [assignGrouperFunc, carried.op, carried.field1Type, carried.field2Type, carried.optype]
    exact grouperCases_found key.field.width key.opType
  have fptr : getAggrFptr term.field1Type = some key.field.width := by
    rw [carried.field1Type]
    exact aggrFptrCases_found key.field.width
  have gtype : getGtype term.field2Type = some key.field.width := by
    rw [carried.field2Type]
    exact gtypeCases_found key.field.width
  have field1 := place_offset offset key.field _ carried.field1
  have field2 := place_offset offset key.field _ carried.field2
  have delta : 0#64 = term.delta := ofNat_carried term.delta 0 carried.delta
  rw [Prepared.GrouperTerm.assigned, func, fptr, gtype, Key.term, delta, field1, ← field2, field1]
  exact if_pos ⟨rfl, rfl⟩

theorem aggrTerm_assigned (op : AggrOp) (field : NamedField) (term : Prepared.AggrTerm)
    (carried : (AggregationRule.mk field.name (.s1 field.width) (.aggr op)).CarriedBy offset term) :
    term.assigned = some ⟨(field.place offset).offset, op, field.width⟩ := by
  have func : assignAggrFunc term = some (op, field.width) := by
    rw [assignAggrFunc, carried.op, carried.fieldType]
    exact aggrCases_found op field.width
  rw [Prepared.AggrTerm.assigned, func, place_offset offset field _ carried.field]
  rfl

variable {branches : List BranchScript}

theorem joinTerm_assigned (join : Join branches) (term : Prepared.MergerTerm)
    (carried : join.rule.CarriedBy offset term) :
    term.assigned (branches.map (BranchScript.branch offset)).length = some (join.term offset) := by
  have func : assignMergerFunc term =
      some (.comp join.op, join.value1.field.width, join.value2.field.width) := by
    rw [assignMergerFunc, carried.op, carried.field1Type, carried.field2Type]
    exact mergerCases_found join.op join.value1.field.width join.value2.field.width
  have branch1 : term.branch1 = join.branch1.val := Int.ofNat_inj.mp carried.branch1
  have branch2 : term.branch2 = join.branch2.val := Int.ofNat_inj.mp carried.branch2
  have field1 := place_offset offset join.value1.field _ carried.field1
  have field2 := place_offset offset join.value2.field _ carried.field2
  have delta : 0#64 = term.delta := ofNat_carried term.delta 0 carried.delta
  have inside : term.branch1 < (branches.map (BranchScript.branch offset)).length ∧
      term.branch2 < (branches.map (BranchScript.branch offset)).length := by
    rw [List.length_map, branch1, branch2]
    exact ⟨join.branch1.isLt, join.branch2.isLt⟩
  rw [Prepared.MergerTerm.assigned, func, Join.term, field1, field2, delta]
  refine (dif_pos inside).trans ?_
  simp only [branch1, branch2]
  rfl

end Terms

section Unique

theorem terms_unique {ν υ : Type} (assign : ν → Option υ) :
    Relator.RightUnique fun (prepared : ν) (term : υ) => assign prepared = some term := by
  intro prepared term other found also
  rw [found] at also
  exact Option.some.inj also

theorem Prepared.Branch.Assigned.unique : Relator.RightUnique Prepared.Branch.Assigned := by
  intro prepared branch other assigned also
  obtain ⟨filter, grouper, aggregation, groupfilter⟩ := assigned
  obtain ⟨filter', grouper', aggregation', groupfilter'⟩ := also
  have filters := List.right_unique_forall₂' (terms_unique _).forall₂ filter filter'
  have groupers := List.right_unique_forall₂' (terms_unique _).forall₂ grouper grouper'
  have aggregations := List.right_unique_forall₂' (terms_unique _) aggregation aggregation'
  have groupfilters := List.right_unique_forall₂' (terms_unique _).forall₂ groupfilter groupfilter'
  cases branch
  cases other
  simp only at filters groupers aggregations groupfilters
  rw [filters, groupers, aggregations, groupfilters]

/-- The terms of a flowquery determine how it is run. -/
theorem Prepared.Flowquery.Assigned.unique : Relator.RightUnique Prepared.Flowquery.Assigned := by
  rintro prepared ⟨branchset, mergerClauseset⟩ ⟨others, mergerClauseset'⟩ ⟨branches, merger⟩
    ⟨branches', merger'⟩
  have same : branchset = others :=
    List.right_unique_forall₂' Prepared.Branch.Assigned.unique branches branches'
  subst same
  have mergers : mergerClauseset = mergerClauseset' :=
    List.right_unique_forall₂' (terms_unique _).forall₂ merger merger'
  rw [mergers]

end Unique

section Query

variable (offset : String → Option Nat)

section Lists

variable {ι τ υ ν : Type} {R : τ → ν → Prop} (assign : ν → Option υ) (rule : ι → τ) (term : ι → υ)
  (each : ∀ item prepared, R (rule item) prepared → assign prepared = some (term item))

include each

theorem terms_assigned (items : List ι) (prepared : List ν)
    (carried : List.Forall₂ R (items.map rule) prepared) :
    List.Forall₂ (fun term assigned => assign term = some assigned) prepared (items.map term) := by
  rw [List.forall₂_map_left_iff] at carried
  rw [List.forall₂_map_right_iff]
  exact (carried.imp each).flip

theorem clauses_assigned (clauses : List (List ι)) (prepared : List (List ν))
    (carried : List.Forall₂ (List.Forall₂ R) (clauses.map (List.map rule)) prepared) :
    List.Forall₂ (List.Forall₂ fun term assigned => assign term = some assigned) prepared
      (clauses.map (List.map term)) := by
  rw [List.forall₂_map_left_iff] at carried
  rw [List.forall₂_map_right_iff]
  exact (carried.imp (terms_assigned assign rule term each)).flip

end Lists

theorem branch_assigned (branch : BranchScript) (prepared : Prepared.Branch)
    (carried : branch.rules.CarriedBy offset prepared) :
    prepared.Assigned (branch.branch offset) where
  filter :=
    clauses_assigned _ (fun term : NamedField × Condition => term.2.rule term.1) _
      (fun term => filterTerm_assigned offset term.2 term.1) branch.filter _ carried.filter
  grouper :=
    clauses_assigned _ Key.rule _ (keyTerm_assigned offset) branch.grouper.toList _ carried.grouper
  aggregation := by
    have terms := terms_assigned (R := AggregationRule.CarriedBy offset) Prepared.AggrTerm.assigned
      (fun term : NamedField × AggrOp => ⟨term.1.name, .s1 term.1.width, .aggr term.2⟩)
      (fun term => ⟨(term.1.place offset).offset, term.2, term.1.width⟩)
      (fun term => aggrTerm_assigned offset term.2 term.1)
      (branch.statics.map (fun field => (field, .static)) ++
        branch.totals.map fun total => (total.field, total.op.aggrOp)) prepared.aggrClauseTermset
    simp only [List.map_append, List.map_map] at terms
    exact terms carried.aggregation
  groupfilter :=
    clauses_assigned _ (fun term : branch.Value × Condition => term.2.rule term.1.field) _
      (fun term => groupfilterTerm_assigned offset term.2 term.1.field) branch.groupfilter _
        carried.groupfilter

/-- The flowquery that carries the rules of a script is run as the script's. -/
theorem flowquery_assigned (script : Script) (prepared : Prepared.Flowquery)
    (carried : script.query.CarriedBy offset prepared) :
    prepared.Assigned (script.flowquery offset) where
  branchset := by
    have branchset := carried.branchset
    unfold Script.query at branchset
    rw [List.forall₂_map_left_iff] at branchset
    unfold Script.flowquery
    rw [List.forall₂_map_right_iff]
    exact (branchset.imp (branch_assigned offset)).flip
  merger :=
    clauses_assigned _ Join.rule _ (joinTerm_assigned offset) script.joins.toList _ carried.merger

theorem keeps_small (conversion : JsonC.IntConversion) (number : Nat) (small : number < 2 ^ 31) :
    conversion.Keeps number :=
  .inl ⟨Int.natCast_nonneg number, by omega⟩

theorem condition_kept (conversion : JsonC.IntConversion) (condition : Condition) (field : NamedField) :
    ∀ value ∈ (condition.rule field).integers, conversion.Keeps value := by
  have number := keeps_small conversion condition.number condition.small
  have delta := keeps_small conversion condition.delta (lt_of_le_of_lt condition.inside condition.small)
  intro value member
  rcases List.mem_cons.mp member with rfl | later
  · exact number
  · rw [List.mem_singleton.mp later]
    exact delta

theorem branch_kept (conversion : JsonC.IntConversion) (branch : BranchScript) :
    ∀ value ∈ branch.rules.integers, conversion.Keeps value := by
  unfold BranchRules.integers BranchScript.rules
  simp only [Option.getD_some, Option.map_some, List.forall_mem_append, List.forall_mem_flatMap,
    List.forall_mem_map]
  refine ⟨fun clause _ term _ => condition_kept conversion term.2 term.1, ?_,
    fun clause _ term _ => condition_kept conversion term.2 term.1.field⟩
  intro clause _ key _ value member
  rw [List.mem_singleton.mp member]
  exact keeps_small conversion 0 (by decide)

variable {σ : Type} (reader : QueryReader σ) (templ : σ) (script : Script)

theorem script_portable (known : script.query.FieldsKnown reader templ) :
    script.query.Portable reader templ where
  stages := by
    refine List.pairwise_map.mpr (List.pairwise_of_forall fun branch later => ?_)
    exact ⟨fun _ => rfl, fun _ => rfl, fun _ => rfl, fun _ => rfl⟩
  fields := known
  integers := by
    intro rules member
    obtain ⟨branch, -, rfl⟩ := List.mem_map.mp member
    exact branch_kept reader.library.conversion branch
  merger := by
    intro clause inQuery rule member
    obtain ⟨joins, -, rfl⟩ := List.mem_map.mp inQuery
    obtain ⟨join, -, rfl⟩ := List.mem_map.mp member
    have few := script.few
    have branch1 := join.branch1.isLt
    have branch2 := join.branch2.isLt
    have count : script.query.branchset.length = script.branches.length := List.length_map _
    refine ⟨rfl, keeps_small _ _ (by omega), ?_, keeps_small _ _ (by omega), ?_⟩
    · show (join.branch1.val : Int) < _
      omega
    · show (join.branch2.val : Int) < _
      omega

/-- Once all stages of branches are on, they stay on. -/
theorem afterAll_on (branches : List BranchScript) (stages : Stages)
    (filter : stages.filterEnabled = true) (grouper : stages.grouperEnabled = true)
    (aggregation : stages.groupaggregationsEnabled = true)
    (groupfilter : stages.groupfilterEnabled = true) :
    stages.afterAll (branches.map BranchScript.rules) = stages := by
  induction branches with
  | nil => rfl
  | cons branch rest ih =>
      have same : stages.after branch.rules = stages := by
        obtain ⟨_, _, _, _, _, _⟩ := stages
        simp only at filter grouper aggregation groupfilter
        subst filter grouper aggregation groupfilter
        rfl
      rw [List.map_cons, Stages.afterAll, List.foldl_cons, same]
      exact ih

/-- A script switches on all stages. -/
theorem script_stages : script.query.stages = Stages.all true := by
  obtain ⟨branches, joins, some_branch, few⟩ := script
  cases branches with
  | nil => exact absurd rfl some_branch
  | cons branch rest =>
      have on : Stages.clear.afterAll ((branch :: rest).map BranchScript.rules) =
          Stages.clear.after branch.rules := afterAll_on rest _ rfl rfl rfl rfl
      unfold Query.stages Script.query
      rw [on]
      rfl

/-- The template of a query that is loaded is what its registrations lead to. -/
theorem loadQuery_registered {query : Query} {stages : Stages} {templ' : σ}
    {prepared : Prepared.Flowquery} (kept : StagesKept Stages.clear query.branchset)
    (loaded : loadQuery reader templ query.json = .ok (stages, templ', prepared)) :
    reader.registerAll templ query.names = some templ' := by
  obtain ⟨⟨⟨flags, jsonQuery⟩, registered⟩, parsed, run⟩ := bind_eq_ok loaded
  obtain ⟨_, -, same⟩ := bind_eq_ok run
  cases same
  rw [parse_kept reader templ query kept] at parsed
  cases found : reader.registerAll templ query.names with
  | none =>
      rw [found] at parsed
      cases parsed
  | some next =>
      rw [found] at parsed
      cases parsed
      rfl

/-- A script whose fields are known is loaded, and run as its flowquery and no other. -/
theorem script_loads {templ' : σ}
    (registered : reader.registerAll templ script.query.names = some templ')
    (known : ∀ name ∈ script.query.names, Known (reader.ioReadGetFieldOffset templ') name) :
    ∃ prepared, loadQuery reader templ script.query.json = .ok (Stages.all true, templ', prepared) ∧
      ∀ run, prepared.Assigned run ↔
        run = script.flowquery (reader.ioReadGetFieldOffset templ') := by
  have portable := script_portable reader templ script ⟨templ', registered, known⟩
  obtain ⟨⟨stages, reached, prepared⟩, loaded, carried⟩ :=
    (roundTrip_iff reader templ script.query).mpr portable
  have same := loadQuery_registered reader templ ((kept_clear _).mpr portable.stages) loaded
  rw [registered, Option.some.injEq] at same
  subst same
  have on := (loadQuery_ok reader loaded).1
  rw [on, script_stages] at loaded
  have assigned := flowquery_assigned _ script prepared carried
  refine ⟨prepared, loaded, fun run => ⟨fun also => ?_, fun same => ?_⟩⟩
  · exact Prepared.Flowquery.Assigned.unique also assigned
  · rw [same]
    exact assigned

end Query

end Nfql
