import Nfql.AssignFuncs
import Nfql.BranchOrder
import Nfql.PlainGroups

set_option autoImplicit false

/- Which stages of a query can be left out. -/
namespace Nfql

open Outcomes

section Flags

/-- No stage reads the result of a stage that is off, and runs complete. -/
structure StagesOptional (stages : Stages) (fquery : Flowquery) : Prop where
  present : ∀ (libc : Libc) (io : IoHandler) (trace : List Record),
    engine libc io stages fquery trace ≠ .error .nullPointer
  returns : ∀ (libc : Libc) (io : IoHandler) (trace : List Record),
    fquery.branchset = [] ∨ fquery.Bounded trace.length →
      ∃ result, engine libc io stages fquery trace = .ok result

/-- The stages can be left out exactly if those that are left depend on each other only, and
the merger looks up no sets that the grouper does not make. -/
theorem stagesOptional_chained (stages : Stages) (fquery : Flowquery)
    (off : stages.filterEnabled = false → ∀ branch ∈ fquery.branchset, branch.filterClauseset = [])
    (branchless : fquery.branchset = [] → stages.grouperEnabled = false ∧
      stages.groupfilterEnabled = false) :
    StagesOptional stages fquery ↔ stages.Chained ∧
      ∀ (libc : Libc) (io : IoHandler) (trace : List Record),
        ¬ ReachesLookup libc io stages fquery trace := by
  have chained_of (optional : StagesOptional stages fquery) : stages.Chained := by
    by_cases none : fquery.branchset = []
    · obtain ⟨grouping, filtering⟩ := branchless none
      refine ⟨fun on => ?_, fun on => ?_, fun merging => ?_⟩
      · rw [grouping] at on
        cases on
      · rw [filtering] at on
        cases on
      · obtain ⟨result, run⟩ := optional.returns Libc.insertion IoHandler.empty [] (.inl none)
        rw [engine_branchless _ _ stages fquery none merging] at run
        cases run
    · by_contra unchained
      exact optional.present Libc.insertion IoHandler.empty []
        (engine_missing _ _ stages fquery none unchained)
  constructor
  · intro optional
    refine ⟨chained_of optional, fun libc io trace reaches => ?_⟩
    exact optional.present libc io trace ((engine_null_iff (chained_of optional) off).mpr reaches)
  · rintro ⟨chained, spared⟩
    constructor
    · intro libc io trace failed
      exact spared libc io trace ((engine_null_iff chained off).mp failed)
    · rintro libc io trace (none | bounded)
      · exact engine_idle libc io stages fquery trace none
          (chained.without_groupfilter (branchless none).2)
      · exact engine_returns libc io stages fquery trace chained off bounded

end Flags

section Query

/-- A query with a grouper has a filter, one with a group filter has a grouper, and one with
a merger has branches, with group filters. -/
structure Query.Chained (query : Query) : Prop where
  grouper : ∀ branch ∈ query.branchset, branch.grouper.isSome = true →
    branch.filter.isSome = true
  groupfilter : ∀ branch ∈ query.branchset, branch.groupfilter.isSome = true →
    branch.grouper.isSome = true
  merger : query.merger.isSome = true → query.branchset ≠ [] ∧
    ∀ branch ∈ query.branchset, branch.groupfilter.isSome = true

/-- On no trace whose counts fit, the merger of a query that does not aggregate comes to a
membership term on two groups whose fields are set. -/
def Query.Spared (query : Query) (fquery : Flowquery) : Prop :=
  query.merger.isSome = true → (∀ branch ∈ query.branchset, branch.aggregation.isSome = false) →
    ∀ (libc : Libc) (io : IoHandler) (trace : List Record),
      (∀ branch ∈ fquery.branchset, branch.Countable libc io fquery.branchset trace) →
        ¬ ComesToLookup fquery.mergerClauseset
          (fquery.branchset.map (Branch.plainGroups libc io fquery.branchset trace))

/-- A flag is on after some branches if one of them has the stage. -/
theorem afterAll_flags (stages : Stages) (branches : List BranchRules) :
    (stages.afterAll branches).filterEnabled =
        (stages.filterEnabled || branches.any fun branch => branch.filter.isSome) ∧
      (stages.afterAll branches).grouperEnabled =
        (stages.grouperEnabled || branches.any fun branch => branch.grouper.isSome) ∧
      (stages.afterAll branches).groupfilterEnabled =
        (stages.groupfilterEnabled || branches.any fun branch => branch.groupfilter.isSome) := by
  induction branches generalizing stages with
  | nil =>
      simp only [List.any_nil, Bool.or_false]
      exact ⟨rfl, rfl, rfl⟩
  | cons branch rest ih =>
      obtain ⟨filter, grouper, groupfilter⟩ := ih (stages.after branch)
      simp only [List.any_cons, ← Bool.or_assoc]
      exact ⟨filter, grouper, groupfilter⟩

theorem afterAll_aggregations (stages : Stages) (branches : List BranchRules) :
    (stages.afterAll branches).groupaggregationsEnabled =
      (stages.groupaggregationsEnabled || branches.any fun branch => branch.aggregation.isSome) := by
  induction branches generalizing stages with
  | nil =>
      rw [List.any_nil, Bool.or_false]
      rfl
  | cons branch rest ih =>
      rw [List.any_cons, ← Bool.or_assoc]
      exact ih (stages.after branch)

theorem any_same {α : Type} (items : List α) (holds : α → Bool)
    (same : ∀ a ∈ items, ∀ b ∈ items, holds a = true → holds b = true) (item : α)
    (member : item ∈ items) : items.any holds = holds item := by
  rw [Bool.eq_iff_iff, List.any_eq_true]
  constructor
  · rintro ⟨other, inside, yes⟩
    exact same other inside item member yes
  · intro yes
    exact ⟨item, member, yes⟩

variable (query : Query)

theorem stages_branchless (none : query.branchset = []) :
    query.stages.grouperEnabled = false ∧ query.stages.groupfilterEnabled = false := by
  obtain ⟨-, grouper, groupfilter⟩ := afterAll_flags Stages.clear query.branchset
  rw [none] at grouper groupfilter
  constructor
  · show (Stages.clear.afterAll query.branchset).grouperEnabled = false
    rw [none, grouper]
    rfl
  · show (Stages.clear.afterAll query.branchset).groupfilterEnabled = false
    rw [none, groupfilter]
    rfl

theorem stages_spared_iff (fquery : Flowquery) (chained : query.stages.Chained) :
    (∀ (libc : Libc) (io : IoHandler) (trace : List Record),
      ¬ ReachesLookup libc io query.stages fquery trace) ↔ query.Spared fquery := by
  have flag : query.stages.groupaggregationsEnabled = false ↔
      ∀ branch ∈ query.branchset, branch.aggregation.isSome = false := by
    have flags := afterAll_aggregations Stages.clear query.branchset
    change query.stages.groupaggregationsEnabled = _ at flags
    rw [flags, Stages.clear, Bool.false_or, List.any_eq_false]
    simp only [Bool.not_eq_true]
  have left_iff (merging : query.stages.mergerEnabled = true)
      (plain : query.stages.groupaggregationsEnabled = false) (libc : Libc) (io : IoHandler)
      (trace : List Record) (groupsets : List (List Group)) :
      LeftForMerger libc io query.stages fquery trace groupsets ↔
        (∀ branch ∈ fquery.branchset, branch.Countable libc io fquery.branchset trace) ∧
          groupsets = fquery.branchset.map (Branch.plainGroups libc io fquery.branchset trace) := by
    have filtering := chained.merger merging
    have grouping := chained.groupfilter filtering
    exact leftForMerger_iff grouping filtering plain (chained.grouper grouping) groupsets
  constructor
  · intro unreached merging plain libc io trace countable comes
    have left := (left_iff merging (flag.mpr plain) libc io trace _).mpr ⟨countable, rfl⟩
    exact unreached libc io trace ⟨merging, flag.mpr plain, _, left, comes⟩
  · rintro spared libc io trace ⟨merging, plain, groupsets, left, comes⟩
    obtain ⟨countable, rfl⟩ := (left_iff merging plain libc io trace groupsets).mp left
    exact spared merging (flag.mp plain) libc io trace countable comes

/-- Queries that aggregate, or have no membership terms, are spared. -/
theorem Query.spared_of_sets (fquery : Flowquery)
    (sets : (∃ branch ∈ query.branchset, branch.aggregation.isSome = true) ∨
      ∀ clause ∈ fquery.mergerClauseset, ∀ term ∈ clause, term.op ≠ MergerOp.isIn) :
    query.Spared fquery := by
  intro _ plain libc io trace _ comes
  rcases sets with ⟨branch, member, aggregating⟩ | defined
  · rw [plain branch member] at aggregating
    cases aggregating
  · exact not_comesToLookup _ _ defined comes

variable (same : SameStages query.branchset)

include same

/-- Every branch has exactly the stages that are switched on. -/
theorem stages_same (branch : BranchRules) (member : branch ∈ query.branchset) :
    query.stages.filterEnabled = branch.filter.isSome ∧
      query.stages.grouperEnabled = branch.grouper.isSome ∧
      query.stages.groupfilterEnabled = branch.groupfilter.isSome := by
  obtain ⟨filter, grouper, groupfilter⟩ := afterAll_flags Stages.clear query.branchset
  refine ⟨filter.trans ?_, grouper.trans ?_, groupfilter.trans ?_⟩
  · exact any_same _ _ (fun a inA b inB => (same a inA b inB).filter) branch member
  · exact any_same _ _ (fun a inA b inB => (same a inA b inB).grouper) branch member
  · exact any_same _ _ (fun a inA b inB => (same a inA b inB).groupfilter) branch member

/-- The flags depend on each other exactly as the branches' stages do. -/
theorem stages_chained_iff : query.stages.Chained ↔ query.Chained := by
  have flags := stages_same query same
  constructor
  · intro chained
    refine ⟨fun branch member => ?_, fun branch member => ?_, fun merging => ?_⟩
    · obtain ⟨filter, grouper, -⟩ := flags branch member
      rw [← filter, ← grouper]
      exact chained.grouper
    · obtain ⟨-, grouper, groupfilter⟩ := flags branch member
      rw [← grouper, ← groupfilter]
      exact chained.groupfilter
    · have filtering := chained.merger merging
      refine ⟨fun none => ?_, fun branch member => ?_⟩
      · rw [(stages_branchless query none).2] at filtering
        cases filtering
      · rw [← (flags branch member).2.2]
        exact filtering
  · intro chained
    by_cases none : query.branchset = []
    · obtain ⟨grouping, filtering⟩ := stages_branchless query none
      refine ⟨fun on => ?_, fun on => ?_, fun on => absurd none (chained.merger on).1⟩
      · rw [grouping] at on
        cases on
      · rw [filtering] at on
        cases on
    · obtain ⟨branch, member⟩ := List.exists_mem_of_ne_nil _ none
      obtain ⟨filter, grouper, groupfilter⟩ := flags branch member
      refine ⟨?_, ?_, fun merging => ?_⟩
      · rw [filter, grouper]
        exact chained.grouper branch member
      · rw [grouper, groupfilter]
        exact chained.groupfilter branch member
      · rw [groupfilter]
        exact (chained.merger merging).2 branch member

end Query

section Loaded

/-- Rules of a stage that is off are not copied. -/
theorem prepareFlowquery_off (offset : String → Option Nat) (stages : Stages)
    (jsonQuery : JsonQuery) (prepared : Prepared.Flowquery)
    (success : prepareFlowquery offset stages jsonQuery = .ok prepared) :
    prepared.branchset.length = jsonQuery.branchset.length ∧ (stages.filterEnabled = false →
      ∀ branch ∈ prepared.branchset, branch.filterClauseset = []) := by
  obtain ⟨branches, -⟩ := prepareFlowquery_ok success
  refine ⟨(mapM_forall₂ _ _ _ branches).length_eq.symm, fun off => ?_⟩
  refine mapM_ensures _ (fun branch => branch.filterClauseset = []) _ _ ?_ branches
  intro jsonBranch branch success
  obtain ⟨filter, -⟩ := prepareBranch_ok success
  rw [off] at filter
  exact (Except.ok.inj filter).symm

theorem assigned_off {prepared : Prepared.Flowquery} {fquery : Flowquery}
    (assigned : prepared.Assigned fquery)
    (off : ∀ branch ∈ prepared.branchset, branch.filterClauseset = []) :
    ∀ branch ∈ fquery.branchset, branch.filterClauseset = [] := by
  intro branch member
  obtain ⟨index, inside, rfl⟩ := List.mem_iff_getElem.mp member
  have related := assigned.branchset.get (assigned.branchset.length_eq ▸ inside) inside
  have filters := related.filter
  rw [List.get_eq_getElem, off _ (List.getElem_mem _)] at filters
  exact List.forall₂_nil_left_iff.mp filters

variable {σ : Type} (reader : QueryReader σ) (templ templ' : σ) (query : Query)
  (stages : Stages) (prepared : Prepared.Flowquery) (fquery : Flowquery)

end Loaded

/-- A branch that only groups. -/
def BranchRules.grouping : BranchRules := ⟨none, some ⟨[], none⟩, none⟩

/-- The flowquery of one branch without rules. -/
def Flowquery.plain : Flowquery := ⟨[⟨[], [], [], []⟩], []⟩

theorem plain_assigned :
    Prepared.Flowquery.Assigned ⟨[⟨[], [], [], []⟩], []⟩ Flowquery.plain :=
  ⟨List.Forall₂.cons ⟨List.Forall₂.nil, List.Forall₂.nil, List.Forall₂.nil, List.Forall₂.nil⟩
    List.Forall₂.nil, List.Forall₂.nil⟩

theorem sameStages_single (branch : BranchRules) : SameStages [branch] := by
  intro one inOne other inOther
  rw [List.mem_singleton.mp inOne, List.mem_singleton.mp inOther]
  exact BranchRules.Continues.refl branch

/-- TCP flows grouped by their source address. -/
def BranchRules.byAddress : BranchRules where
  filter := some [[⟨"protocolIdentifier", 6, .s1 .w8, 0, .comp .eq⟩]]
  grouper := some ⟨[[⟨"sourceIPv4Address", .s1 .w32, "sourceIPv4Address", .s2 .w32, 0, .comp .eq,
    .delta .no⟩]], none⟩
  groupfilter := some [[⟨"sourceIPv4Address", 0, .s1 .w32, 0, .comp .gt⟩]]

/-- Two such branches, merged on the address, without aggregations and ungrouper. -/
def Query.addresses : Query where
  branchset := [BranchRules.byAddress, BranchRules.byAddress]
  merger := some [[⟨0, 1, "sourceIPv4Address", .s1 .w32, "sourceIPv4Address", .s2 .w32, 0,
    .comp .eq, .delta .no⟩]]
  ungrouper := false

def Prepared.Branch.byAddress : Prepared.Branch where
  filterClauseset := [[⟨0, 6, 0, Rule.value (.comp .eq), Rule.value (.s1 .w8)⟩]]
  grouperClauseset := [[⟨0, 0, 0, Rule.value (.comp .eq), Rule.value (.s1 .w32),
    Rule.value (.s2 .w32), Rule.value (.delta .no)⟩]]
  aggrClauseTermset := []
  groupfilterClauseset := [[⟨0, 0, 0, Rule.value (.comp .gt), Rule.value (.s1 .w32)⟩]]

def Prepared.Flowquery.addresses : Prepared.Flowquery where
  branchset := [Prepared.Branch.byAddress, Prepared.Branch.byAddress]
  mergerClauseset := [[⟨0, 0, 1, 0, Rule.value (.comp .eq), Rule.value (.s1 .w32),
    Rule.value (.s2 .w32), Rule.value (.delta .no), 0⟩]]

def Branch.byAddress : Branch where
  filterClauseset := [[⟨0, 6#64, 0#64, .eq, .w8⟩]]
  grouperClauseset := [[⟨0, 0, 0#64, .eq, .w32, .w32, .no⟩]]
  aggrClauseTermset := []
  groupfilterClauseset := [[⟨0, 0#64, 0#64, .gt, .w32⟩]]

def Flowquery.addresses : Flowquery where
  branchset := [Branch.byAddress, Branch.byAddress]
  mergerClauseset := [[⟨0, 0, 1, 0, .comp .eq, .w32, .w32, 0#64⟩]]

theorem addresses_assigned : Prepared.Flowquery.addresses.Assigned Flowquery.addresses := by
  have branch : Prepared.Branch.byAddress.Assigned Branch.byAddress :=
    ⟨.cons (.cons rfl .nil) .nil, .cons (.cons rfl .nil) .nil, .nil, .cons (.cons rfl .nil) .nil⟩
  exact ⟨.cons branch (.cons branch .nil), .cons (.cons rfl .nil) .nil⟩

theorem addresses_branches (branch : BranchRules) (member : branch ∈ Query.addresses.branchset) :
    branch = BranchRules.byAddress := by
  have either : branch ∈ [BranchRules.byAddress, BranchRules.byAddress] := member
  simpa using either

end Nfql
