import Nfql.EngineTotal
import Nfql.MissingSets
import Nfql.Outcomes

set_option autoImplicit false

/- The engine under any combination of stages: which results are missing, and which runs
return. -/
namespace Nfql

open Outcomes

/-- The run dereferences no NULL pointer. -/
abbrev NullFree {α : Type} (run : Except Fault α) : Prop := Passes (· = Fault.nullPointer) run

theorem error_nullFree {α : Type} {fault : Fault} (other : fault ≠ .nullPointer) :
    NullFree (.error fault : Except Fault α) :=
  passes_error other

section Groups

theorem realloc_nullFree (count : Nat) : NullFree (realloc count) := by
  unfold realloc
  split
  · exact error_nullFree (by decide)
  · exact passes_ok ()

theorem intLoop_nullFree (count : Nat) : NullFree (intLoop count) := by
  unfold intLoop
  split
  · exact error_nullFree (by decide)
  · exact passes_ok ()

theorem filterGroups_nullFree (branch : Branch) (groups : List Group)
    (gfilterResult : GroupfilterResult) : NullFree (filterGroups branch groups gfilterResult) := by
  induction groups generalizing gfilterResult with
  | nil => exact passes_ok _
  | cons group rest ih =>
      rw [filterGroups]
      split
      · exact (realloc_nullFree _).bind fun _ _ => ih _
      · exact ih _

theorem groupfilter_nullFree (branch : Branch) (gresult : GrouperResult) :
    NullFree (groupfilter branch gresult) := by
  refine (filterGroups_nullFree _ _ _).bind fun gfilterResult _ => ?_
  split
  · exact error_nullFree (by decide)
  · exact (intLoop_nullFree _).bind fun _ _ => passes_ok _

end Groups

section Merger

variable {numBranches : Nat} (clauses : List (List (MergerTerm numBranches)))
  (gfilterResults : List GroupfilterResult)

/-- A group whose grouper computed its aggregations. -/
def Group.Aggregated (group : Group) : Prop := group.aggrResult.aggrset.isSome = true

/-- Sets that were computed can be looked up. -/
theorem mergerFunc_nullFree (term : MergerTerm numBranches) (group1 group2 : Group)
    (first : group1.Aggregated) (second : group2.Aggregated) (delta : BitVec 64) :
    NullFree (term.func group1 group2 delta) := by
  obtain ⟨aggrset1, first⟩ := Option.isSome_iff_exists.mp first
  obtain ⟨aggrset2, second⟩ := Option.isSome_iff_exists.mp second
  unfold MergerTerm.func
  cases term.op with
  | comp op => exact passes_ok _
  | allen op => exact passes_ok _
  | isIn =>
      simp only [mergerIn, first, second]
      repeat' split
      all_goals first | exact passes_ok _ | exact error_nullFree (by decide)

theorem filteredGroup_nullFree (tuple : List Nat) (branchId : Nat) :
    NullFree (filteredGroup gfilterResults tuple branchId) := by
  unfold filteredGroup
  repeat' split
  all_goals first | exact passes_ok _ | exact error_nullFree (by decide)

theorem filteredGroup_mem (tuple : List Nat) (branchId : Nat) (group : Group)
    (found : filteredGroup gfilterResults tuple branchId = .ok group) :
    ∃ gfilterResult ∈ gfilterResults, group ∈ gfilterResult.filteredGroupset := by
  unfold filteredGroup at found
  split at found
  · rename_i gfilterResult groupId result _
    split at found
    · rename_i group' inside
      cases found
      exact ⟨gfilterResult, List.mem_of_getElem? result, List.mem_of_getElem? inside⟩
    · cases found
  · cases found

section Clauses

variable {call : MergerTerm numBranches → Except Fault Bool} (calls : ∀ term, NullFree (call term))

include calls

theorem checkTerms_nullFree (terms : List (MergerTerm numBranches)) (clause : Bool) :
    NullFree (checkTerms call terms clause) := by
  induction terms with
  | nil => exact passes_ok clause
  | cons term rest ih =>
      refine (calls term).bind fun truth _ => ?_
      cases truth with
      | true => exact ih
      | false => exact passes_ok false

theorem checkClauses_nullFree (clause : Bool) : NullFree (checkClauses call clauses clause) := by
  induction clauses generalizing clause with
  | nil => exact passes_ok clause
  | cons termset rest ih =>
      refine (checkTerms_nullFree calls termset clause).bind fun clause _ => ?_
      cases clause with
      | true => exact passes_ok true
      | false => exact ih false

end Clauses

theorem matchedTuple_nullFree (tuple : List Nat) :
    NullFree (matchedTuple gfilterResults tuple) := by
  induction gfilterResults generalizing tuple with
  | nil => exact passes_ok []
  | cons gfilterResult rest ih =>
      rcases tuple with - | ⟨- | groupId, tuple⟩
      · exact error_nullFree (by decide)
      · exact error_nullFree (by decide)
      · rw [matchedTuple]
        split
        · exact (ih tuple).bind fun groups _ => passes_ok _
        · exact error_nullFree (by decide)

variable (aggregated : ∀ gfilterResult ∈ gfilterResults, ∀ group ∈ gfilterResult.filteredGroupset,
  group.Aggregated)

include aggregated

theorem mergerTerm_nullFree (tuple : List Nat) (term : MergerTerm numBranches) :
    NullFree (mergerTerm MergerTerm.func gfilterResults tuple term) := by
  refine (filteredGroup_nullFree _ _ _).bind fun group1 found1 => ?_
  refine (filteredGroup_nullFree _ _ _).bind fun group2 found2 => ?_
  obtain ⟨result1, given1, member1⟩ := filteredGroup_mem gfilterResults tuple _ group1 found1
  obtain ⟨result2, given2, member2⟩ := filteredGroup_mem gfilterResults tuple _ group2 found2
  exact mergerFunc_nullFree term group1 group2 (aggregated result1 given1 group1 member1)
    (aggregated result2 given2 group2 member2) 0#64

theorem mergeTuple_nullFree (mresult : MergerResult) (tuple : List Nat) :
    NullFree (mergeTuple MergerTerm.func clauses gfilterResults mresult tuple) := by
  refine (checkClauses_nullFree clauses (mergerTerm_nullFree gfilterResults aggregated tuple) true).bind
    fun clause _ => ?_
  cases clause with
  | false => exact passes_ok _
  | true =>
      refine (matchedTuple_nullFree gfilterResults tuple).bind fun groups _ => ?_
      exact (realloc_nullFree _).bind fun _ _ => passes_ok _

theorem mergeTuples_nullFree (slots : List Slot) (mresult : MergerResult) :
    NullFree (mergeTuples MergerTerm.func clauses gfilterResults slots mresult) := by
  fun_induction mergeTuples MergerTerm.func clauses gfilterResults slots mresult with
  | case1 => exact passes_ok _
  | case2 slots mresult reached _ fault run =>
      have tuple := mergeTuple_nullFree clauses gfilterResults aggregated mresult
        (reached.map Slot.position)
      rwa [run] at tuple
  | case3 slots mresult reached _ next run ih => exact ih

theorem merger_nullFree : NullFree (merger MergerTerm.func clauses gfilterResults) := by
  unfold merger
  split
  · exact passes_ok _
  · split
    · exact error_nullFree (by decide)
    · exact mergeTuples_nullFree clauses gfilterResults aggregated _ _

end Merger

section Ungrouper

variable (numBranches : Nat)

theorem ungroupTuple_nullFree (groupTuple : List Group) :
    NullFree (ungroupTuple numBranches groupTuple) := by
  unfold ungroupTuple
  split
  · exact error_nullFree (by decide)
  · refine Passes.foldlM _ _ fun stream group _ => ?_
    exact (realloc_nullFree _).bind fun _ _ => passes_ok _

theorem ungroupTuples_nullFree (tuples : List (List Group)) :
    NullFree (ungroupTuples numBranches tuples) := by
  induction tuples with
  | nil => exact passes_ok []
  | cons tuple rest ih =>
      refine (ungroupTuple_nullFree numBranches tuple).bind fun stream _ => ?_
      exact ih.bind fun streams _ => passes_ok _

/-- The ungrouper checks for the missing result of a merger that is off. -/
theorem ungrouper_nullFree (mresult : Option MergerResult) :
    NullFree (ungrouper numBranches mresult) := by
  cases mresult with
  | none => exact passes_ok _
  | some mresult =>
      rw [ungrouper]
      by_cases short : mresult.groupTuples.length < mresult.numGroupTuples
      · rw [if_pos short]
        exact error_nullFree (by decide)
      · rw [if_neg short]
        refine (ungroupTuples_nullFree _ _).bind fun streamset _ => ?_
        exact (intLoop_nullFree _).bind fun _ _ => passes_ok _

end Ungrouper

section Chain

/-- What an enabled stage reads is left by a stage that is enabled too. -/
structure Stages.Chained (stages : Stages) : Prop where
  grouper : stages.grouperEnabled = true → stages.filterEnabled = true
  groupfilter : stages.groupfilterEnabled = true → stages.grouperEnabled = true
  merger : stages.mergerEnabled = true → stages.groupfilterEnabled = true

theorem Stages.Chained.without_grouper {stages : Stages} (chained : stages.Chained)
    (off : stages.grouperEnabled = false) : stages.groupfilterEnabled = false := by
  apply Bool.eq_false_of_not_eq_true
  intro on
  rw [chained.groupfilter on] at off
  cases off

theorem Stages.Chained.without_groupfilter {stages : Stages} (chained : stages.Chained)
    (off : stages.groupfilterEnabled = false) : stages.mergerEnabled = false := by
  apply Bool.eq_false_of_not_eq_true
  intro on
  rw [chained.merger on] at off
  cases off

variable (libc : Libc) (io : IoHandler) (stages : Stages)

/-- The grouper has a filter result to read. -/
def Stages.Supplies (filterResult : Option FilterResult) : Prop :=
  stages.grouperEnabled = true → ∃ records, filterResult = some (FilterResult.of records)

theorem branchStart_nullFree (chained : stages.Chained) (branch : Branch)
    (filterResult : Option FilterResult) (supplied : stages.Supplies filterResult) :
    NullFree (branchStart libc io stages branch filterResult) := by
  cases grouping : stages.grouperEnabled with
  | false =>
      have filtering := chained.without_grouper grouping
      simp only [branchStart, branchGrouper, branchGroupfilter, grouping, filtering,
        Bool.false_eq_true, ↓reduceIte, ok_bind]
      exact passes_ok _
  | true =>
      obtain ⟨records, rfl⟩ := supplied grouping
      simp only [branchStart, branchGrouper, branchGroupfilter, grouping, ↓reduceIte]
      refine Passes.bind (Passes.bind ?_ fun gresult _ => passes_ok _) fun grouperResult run => ?_
      · intro fault kind failed
        subst kind
        rcases grouper_fault _ _ _ _ _ _ _ failed with impossible | impossible
        · cases impossible
        · cases impossible
      · obtain ⟨gresult, -, run⟩ := bind_eq_ok run
        cases run
        refine Passes.bind ?_ fun _ _ => passes_ok _
        split
        · exact (groupfilter_nullFree branch gresult).bind fun _ _ => passes_ok _
        · exact passes_ok none

theorem branchesStart_nullFree (chained : stages.Chained) (branches : List Branch)
    (filterResults : List (Option FilterResult))
    (supplied : ∀ filterResult ∈ filterResults, stages.Supplies filterResult) :
    NullFree (branchesStart libc io stages branches filterResults) := by
  induction branches generalizing filterResults with
  | nil => exact passes_ok []
  | cons branch rest ih =>
      cases filterResults with
      | nil => exact passes_ok []
      | cons filterResult others =>
          obtain ⟨here, later⟩ := List.forall_mem_cons.mp supplied
          rw [branchesStart]
          refine (branchStart_nullFree libc io stages chained branch _ here).bind fun _ _ => ?_
          exact (ih others later).bind fun _ _ => passes_ok _

/-- A group filter that is on leaves groups of the grouper, with sets if those are computed. -/
theorem branchStart_groups (grouping : stages.grouperEnabled = true)
    (filtering : stages.groupfilterEnabled = true) (branch : Branch)
    (filterResult : Option FilterResult) (supplied : stages.Supplies filterResult)
    (result : BranchResult)
    (success : branchStart libc io stages branch filterResult = .ok result) :
    ∃ kept, result.gfilterResult = some (GroupfilterResult.of kept) ∧ ∀ group ∈ kept,
      group.aggrResult.aggrset.isSome = stages.groupaggregationsEnabled := by
  obtain ⟨records, rfl⟩ := supplied grouping
  obtain ⟨groups, grouped, -, rfl⟩ :=
    (branchStart_ok_iff libc io grouping filtering branch records result).mp success
  refine ⟨_, rfl, fun group member => ?_⟩
  obtain ⟨-, cooked⟩ := grouper_group libc _ io _ branch _ _ grouped group
    (List.mem_filter.mp member).1
  exact cooked.aggregated

/-- The groups that the merger finds. -/
theorem branchesStart_groups (grouping : stages.grouperEnabled = true)
    (filtering : stages.groupfilterEnabled = true) (branches : List Branch)
    (filterResults : List (Option FilterResult)) (length : filterResults.length = branches.length)
    (supplied : ∀ filterResult ∈ filterResults, stages.Supplies filterResult)
    (results : List BranchResult)
    (success : branchesStart libc io stages branches filterResults = .ok results) :
    ∃ groupsets : List (List Group),
      gfilterResults results = .ok (groupsets.map GroupfilterResult.of) ∧
      groupsets.length = branches.length ∧ ∀ groupset ∈ groupsets, ∀ group ∈ groupset,
        group.aggrResult.aggrset.isSome = stages.groupaggregationsEnabled := by
  induction branches generalizing filterResults results with
  | nil =>
      cases success
      exact ⟨[], rfl, rfl, by simp⟩
  | cons branch rest ih =>
      obtain ⟨filterResult, others, rfl⟩ := List.exists_cons_of_length_eq_add_one length
      obtain ⟨here, later⟩ := List.forall_mem_cons.mp supplied
      obtain ⟨result, head, success⟩ := bind_eq_ok success
      obtain ⟨remaining, tail, success⟩ := bind_eq_ok success
      cases success
      obtain ⟨kept, left, sets⟩ := branchStart_groups libc io stages grouping filtering branch
        filterResult here result head
      obtain ⟨groupsets, found, count, others⟩ := ih others (Nat.succ.inj length) later remaining tail
      refine ⟨kept :: groupsets, by simp only [gfilterResults, left, found, ok_bind, List.map_cons],
        congrArg (· + 1) count, ?_⟩
      rw [List.forall_mem_cons]
      exact ⟨sets, others⟩

end Chain

section Filter

variable (io : IoHandler) (branchset : List Branch) (trace : List Record)

theorem filterRecord_off (recordSize : Nat) (record : Record) (pass : Pass)
    (branches : List (Branch × Option FilterResult))
    (empty : ∀ entry ∈ branches, entry.1.filterClauseset = []) :
    filterRecord recordSize record pass branches = .ok (pass.data, branches) := by
  induction branches with
  | nil => rfl
  | cons entry rest ih =>
      obtain ⟨branch, result⟩ := entry
      obtain ⟨here, later⟩ := List.forall_mem_cons.mp empty
      have rejects : branch.accepts record = false := by
        rw [Branch.accepts, here]
        rfl
      rw [filterRecord, filterBranch_rejects recordSize record pass branch result rejects]
      simp only [ok_bind, ih later]

theorem filterTrace_off (recordSize : Nat) (data : IoData)
    (branches : List (Branch × Option FilterResult))
    (empty : ∀ entry ∈ branches, entry.1.filterClauseset = []) :
    filterTrace recordSize trace data branches = .ok (data, branches) := by
  induction trace with
  | nil => rfl
  | cons record rest ih =>
      rw [filterTrace, filterRecord_off recordSize record _ branches empty]
      exact ih

/-- Without filter rules no record is saved, and no filter result is looked at. -/
theorem readTrace_off (empty : ∀ branch ∈ branchset, branch.filterClauseset = []) :
    readTrace false io branchset trace = .ok (⟨0, []⟩, branchset.map fun _ => none) := by
  have run := filterTrace_off trace io.readGetRecordSize ⟨0, []⟩
    (branchset.map fun branch => (branch, (none : Option FilterResult))) (by
      intro entry member
      obtain ⟨branch, inside, rfl⟩ := List.mem_map.mp member
      exact empty branch inside)
  simp only [readTrace, Bool.false_eq_true, ↓reduceIte, run, ok_bind, List.map_map,
    Function.comp_def]

variable {enabled : Bool}
  (off : enabled = false → ∀ branch ∈ branchset, branch.filterClauseset = [])

include off

theorem readTrace_nullFree : NullFree (readTrace enabled io branchset trace) := by
  cases enabled with
  | false =>
      rw [readTrace_off io branchset trace (off rfl)]
      exact passes_ok _
  | true =>
      by_cases room : ∀ branch ∈ branchset, branch.acceptCount trace + 1 < 2 ^ 32
      · rw [readTrace_run io branchset trace room]
        exact passes_ok _
      · simp only [not_forall, Nat.not_lt] at room
        obtain ⟨branch, member, full⟩ := room
        rw [readTrace_error io branchset trace ⟨branch, member, full⟩]
        exact error_nullFree (by decide)

/-- What the filter stage leaves of a trace that it reads to the end. -/
theorem readTrace_left (room : ∀ branch ∈ branchset, branch.acceptCount trace + 1 < 2 ^ 32) :
    ∃ data, readTrace enabled io branchset trace = .ok (data, branchset.map fun branch =>
      if enabled then some (FilterResult.of (branch.filtered io branchset trace)) else none) := by
  cases enabled with
  | false => exact ⟨_, readTrace_off io branchset trace (off rfl)⟩
  | true => exact ⟨_, readTrace_run io branchset trace room⟩

end Filter

section Engine

variable (libc : Libc) (io : IoHandler) (stages : Stages) (fquery : Flowquery)
  (trace : List Record)

theorem readTrace_supplies (chained : stages.Chained) (data : IoData)
    (filterResults : List (Option FilterResult))
    (success : readTrace stages.filterEnabled io fquery.branchset trace =
      .ok (data, filterResults)) :
    ∀ filterResult ∈ filterResults, stages.Supplies filterResult := by
  intro filterResult member grouping
  rw [chained.grouper grouping] at success
  obtain ⟨-, -, rfl⟩ := readTrace_result io fquery.branchset trace data filterResults success
  obtain ⟨branch, -, rfl⟩ := List.mem_map.mp member
  exact ⟨_, rfl⟩

/-- In a run of the engine these groups are left for the merger. -/
def LeftForMerger (groupsets : List (List Group)) : Prop :=
  ∃ data filterResults branchResults,
    readTrace stages.filterEnabled io fquery.branchset trace = .ok (data, filterResults) ∧
    branchesStart libc io stages fquery.branchset filterResults = .ok branchResults ∧
    gfilterResults branchResults = .ok (groupsets.map GroupfilterResult.of)

/-- The run comes to a membership term whose sets no aggregation has made. -/
def ReachesLookup : Prop :=
  stages.mergerEnabled = true ∧ stages.groupaggregationsEnabled = false ∧
    ∃ groupsets, LeftForMerger libc io stages fquery trace groupsets ∧
      ComesToLookup fquery.mergerClauseset groupsets

theorem map_of_injective (groupsets groupsets' : List (List Group))
    (same : groupsets.map GroupfilterResult.of = groupsets'.map GroupfilterResult.of) :
    groupsets = groupsets' := by
  refine List.map_injective_iff.mpr (fun groups groups' equal => ?_) same
  exact congrArg GroupfilterResult.filteredGroupset equal

theorem engineUngrouper_nullFree (mergerResult : Option MergerResult) :
    NullFree (engineUngrouper stages fquery mergerResult) := by
  unfold engineUngrouper
  split
  · exact (ungrouper_nullFree _ mergerResult).bind fun _ _ => passes_ok _
  · exact passes_ok none

variable {libc io stages fquery trace}

/-- The groups that a run leaves for the merger are those it finds. -/
theorem reachesLookup_iff (data : IoData) (filterResults : List (Option FilterResult))
    (branchResults : List BranchResult) (groupsets : List (List Group))
    (read : readTrace stages.filterEnabled io fquery.branchset trace = .ok (data, filterResults))
    (branches : branchesStart libc io stages fquery.branchset filterResults = .ok branchResults)
    (found : gfilterResults branchResults = .ok (groupsets.map GroupfilterResult.of)) :
    ReachesLookup libc io stages fquery trace ↔ stages.mergerEnabled = true ∧
      stages.groupaggregationsEnabled = false ∧
        ComesToLookup fquery.mergerClauseset groupsets := by
  refine and_congr_right fun _ => and_congr_right fun _ => ⟨?_, fun comes => ?_⟩
  · rintro ⟨groupsets', ⟨data', filterResults', branchResults', read', branches', found'⟩, comes⟩
    rw [read] at read'
    cases read'
    rw [branches] at branches'
    cases branches'
    rw [found, Except.ok.injEq] at found'
    rw [map_of_injective _ _ found']
    exact comes
  · exact ⟨groupsets, ⟨data, filterResults, branchResults, read, branches, found⟩, comes⟩

/-- A merger that is on ends as the merger of the groups it finds. -/
theorem engineMerger_null (merging : stages.mergerEnabled = true)
    (branchResults : List BranchResult) (groupsets : List (List Group))
    (found : gfilterResults branchResults = .ok (groupsets.map GroupfilterResult.of)) :
    engineMerger stages fquery branchResults = .error .nullPointer ↔
      merger MergerTerm.func fquery.mergerClauseset (groupsets.map GroupfilterResult.of) =
        .error .nullPointer := by
  rw [engineMerger, merging, if_pos rfl, found, ok_bind]
  cases merger MergerTerm.func fquery.mergerClauseset (groupsets.map GroupfilterResult.of) with
  | error fault => simp only [error_bind, Except.error.injEq]
  | ok mresult =>
      apply iff_of_false
      · intro failed
        cases failed
      · intro failed
        cases failed

/-- The merger finds results, and dereferences NULL only where it looks for sets. -/
theorem engineMerger_null_iff (chained : stages.Chained) (data : IoData)
    (filterResults : List (Option FilterResult)) (branchResults : List BranchResult)
    (read : readTrace stages.filterEnabled io fquery.branchset trace = .ok (data, filterResults))
    (branches : branchesStart libc io stages fquery.branchset filterResults = .ok branchResults) :
    engineMerger stages fquery branchResults = .error .nullPointer ↔
      ReachesLookup libc io stages fquery trace := by
  cases merging : stages.mergerEnabled with
  | false =>
      rw [engineMerger, merging, if_neg Bool.false_ne_true]
      apply iff_of_false
      · intro failed
        cases failed
      · rintro ⟨on, -⟩
        rw [merging] at on
        cases on
  | true =>
      have filtering := chained.merger merging
      have grouping := chained.groupfilter filtering
      have supplied := readTrace_supplies io stages fquery trace chained data filterResults read
      have length : filterResults.length = fquery.branchset.length := by
        rw [chained.grouper grouping] at read
        obtain ⟨-, -, rfl⟩ := readTrace_result io fquery.branchset trace data filterResults read
        exact List.length_map _
      obtain ⟨groupsets, found, count, sets⟩ := branchesStart_groups libc io stages grouping
        filtering _ _ length supplied _ branches
      rw [engineMerger_null merging branchResults groupsets found,
        reachesLookup_iff data filterResults branchResults groupsets read branches found,
        and_iff_right merging]
      cases aggregating : stages.groupaggregationsEnabled with
      | false =>
          rw [aggregating] at sets
          have plain : ∀ groupset ∈ groupsets, ∀ group ∈ groupset, group.Plain := by
            intro groupset member group inside
            rw [Group.Plain, ← Option.not_isSome_iff_eq_none, sets groupset member group inside]
            exact Bool.false_ne_true
          rw [merger_null_iff _ groupsets plain count]
          exact (and_iff_right rfl).symm
      | true =>
          rw [aggregating] at sets
          apply iff_of_false
          · refine merger_nullFree _ _ (fun gfilterResult member => ?_) _ rfl
            obtain ⟨groupset, inside, rfl⟩ := List.mem_map.mp member
            exact sets groupset inside
          · rintro ⟨off, -⟩
            cases off

/-- Stages that depend on enabled stages only find all results they read: a run
dereferences NULL exactly if the merger comes to a lookup though there are no sets. -/
theorem engine_null_iff (chained : stages.Chained) (off : stages.filterEnabled = false →
      ∀ branch ∈ fquery.branchset, branch.filterClauseset = []) :
    engine libc io stages fquery trace = .error .nullPointer ↔
      ReachesLookup libc io stages fquery trace := by
  have reading := readTrace_nullFree io _ trace off
  cases read : readTrace stages.filterEnabled io fquery.branchset trace with
  | error fault =>
      rw [read] at reading
      refine iff_of_false ?_ ?_
      · rw [engine, read, error_bind]
        intro failed
        rw [Except.error.inj failed] at reading
        exact reading _ rfl rfl
      · rintro ⟨-, -, groupsets, ⟨data, filterResults, branchResults, read', -⟩, -⟩
        rw [read] at read'
        cases read'
  | ok filtered =>
      obtain ⟨data, filterResults⟩ := filtered
      have supplied := readTrace_supplies io stages fquery trace chained data filterResults read
      have starting := branchesStart_nullFree libc io stages chained fquery.branchset _ supplied
      cases branches : branchesStart libc io stages fquery.branchset filterResults with
      | error fault =>
          rw [branches] at starting
          refine iff_of_false ?_ ?_
          · simp only [engine, read, ok_bind, branches, error_bind]
            intro failed
            rw [Except.error.inj failed] at starting
            exact starting _ rfl rfl
          · rintro ⟨-, -, groupsets, ⟨data', filterResults', branchResults, read', branches',
              -⟩, -⟩
            rw [read] at read'
            cases read'
            rw [branches] at branches'
            cases branches'
      | ok branchResults =>
          rw [← engineMerger_null_iff chained data filterResults branchResults read branches]
          simp only [engine, read, ok_bind, branches]
          cases engineMerger stages fquery branchResults with
          | error fault => simp only [error_bind, Except.error.injEq]
          | ok mergerResult =>
              have last := engineUngrouper_nullFree stages fquery mergerResult
              refine iff_of_false ?_ (by intro failed; cases failed)
              exact last.bind (fun _ _ => passes_ok _) _ rfl

/-- Sets that are computed, or that no term looks up, are not missed. -/
theorem engine_nullFree (chained : stages.Chained) (off : stages.filterEnabled = false →
      ∀ branch ∈ fquery.branchset, branch.filterClauseset = [])
    (sets : stages.mergerEnabled = true → stages.groupaggregationsEnabled = true ∨
      ∀ clause ∈ fquery.mergerClauseset, ∀ term ∈ clause, term.op ≠ MergerOp.isIn) :
    NullFree (engine libc io stages fquery trace) := by
  rintro fault rfl failed
  obtain ⟨merging, plain, groupsets, -, comes⟩ := (engine_null_iff chained off).mp failed
  rcases sets merging with aggregating | defined
  · rw [plain] at aggregating
    cases aggregating
  · exact not_comesToLookup _ _ defined comes

variable (libc io stages fquery trace)

/-- Where a branch runs with all stages, it runs with fewer. -/
theorem branchStart_fewer (chained : stages.Chained) (branch : Branch) (records : List RecordPtr)
    (result : BranchResult)
    (success : branchStart libc io (Stages.all stages.groupaggregationsEnabled) branch
      (some (FilterResult.of records)) = .ok result) :
    ∃ fewer, branchStart libc io stages branch
      (if stages.filterEnabled then some (FilterResult.of records) else none) = .ok fewer := by
  obtain ⟨grouperResult, run, success⟩ := bind_eq_ok success
  obtain ⟨gresult, grouped, run⟩ := bind_eq_ok run
  change grouper libc _ io stages.groupaggregationsEnabled branch _ = _ at grouped
  cases run
  obtain ⟨gfilterResult, run, -⟩ := bind_eq_ok success
  obtain ⟨kept, filtered, run⟩ := bind_eq_ok run
  cases run
  cases grouping : stages.grouperEnabled with
  | false =>
      have filtering := chained.without_grouper grouping
      exact ⟨⟨none, none⟩, by simp only [branchStart, branchGrouper, branchGroupfilter,
        grouping, filtering, Bool.false_eq_true, ↓reduceIte, ok_bind]⟩
  | true =>
      rw [if_pos (chained.grouper grouping)]
      cases filtering : stages.groupfilterEnabled with
      | false =>
          exact ⟨⟨some gresult, none⟩, by simp only [branchStart, branchGrouper,
            branchGroupfilter, grouping, filtering, Bool.false_eq_true, ↓reduceIte, grouped,
            ok_bind]⟩
      | true =>
          exact ⟨⟨some gresult, some kept⟩, by simp only [branchStart, branchGrouper,
            branchGroupfilter, grouping, filtering, ↓reduceIte, grouped, filtered, ok_bind]⟩

theorem branchesStart_fewer (chained : stages.Chained) (branches : List Branch)
    (records : Branch → List RecordPtr) (results : List BranchResult)
    (success : branchesStart libc io (Stages.all stages.groupaggregationsEnabled) branches
      (branches.map fun branch => some (FilterResult.of (records branch))) = .ok results) :
    ∃ fewer, branchesStart libc io stages branches (branches.map fun branch =>
      if stages.filterEnabled then some (FilterResult.of (records branch)) else none) =
        .ok fewer := by
  induction branches generalizing results with
  | nil => exact ⟨[], rfl⟩
  | cons branch rest ih =>
      obtain ⟨result, head, success⟩ := bind_eq_ok success
      obtain ⟨others, tail, -⟩ := bind_eq_ok success
      obtain ⟨result, head⟩ := branchStart_fewer libc io stages chained branch _ result head
      obtain ⟨others, tail⟩ := ih others tail
      exact ⟨result :: others, by simp only [List.map_cons, branchesStart, head, tail, ok_bind]⟩

/-- A branch whose stages are all on does not look at the flags behind it. -/
theorem branchesStart_all (grouping : stages.grouperEnabled = true)
    (filtering : stages.groupfilterEnabled = true) (branches : List Branch)
    (filterResults : List (Option FilterResult)) :
    branchesStart libc io stages branches filterResults =
      branchesStart libc io (Stages.all stages.groupaggregationsEnabled) branches
        filterResults := by
  have each : ∀ branch filterResult, branchStart libc io stages branch filterResult =
      branchStart libc io (Stages.all stages.groupaggregationsEnabled) branch filterResult := by
    intro branch filterResult
    simp only [branchStart, branchGrouper, branchGroupfilter, grouping, filtering, Stages.all]
  induction branches generalizing filterResults with
  | nil => rfl
  | cons branch rest ih =>
      cases filterResults with
      | nil => rfl
      | cons filterResult others => simp only [branchesStart, each, ih]

/-- A query without branches does nothing, unless its merger looks for them. -/
theorem engine_idle (none : fquery.branchset = []) (off : stages.mergerEnabled = false) :
    ∃ result, engine libc io stages fquery trace = .ok result := by
  have empty : stages.filterEnabled = false →
      ∀ branch ∈ fquery.branchset, branch.filterClauseset = [] := by
    rw [none]
    simp
  obtain ⟨data, read⟩ := readTrace_left io fquery.branchset trace empty (by rw [none]; simp)
  have branches : branchesStart libc io stages fquery.branchset (fquery.branchset.map fun branch =>
      if stages.filterEnabled then
        some (FilterResult.of (branch.filtered io fquery.branchset trace)) else Option.none) =
      .ok [] := by rw [none]; rfl
  simp only [engine, read, ok_bind, branches, engineMerger, off, Bool.false_eq_true, ↓reduceIte,
    engineUngrouper, ungrouper]
  split <;> exact ⟨_, rfl⟩

/-- Within the bounds, stages that depend on enabled stages only return. -/
theorem engine_returns (chained : stages.Chained) (off : stages.filterEnabled = false →
      ∀ branch ∈ fquery.branchset, branch.filterClauseset = [])
    (bounded : fquery.Bounded trace.length) :
    ∃ result, engine libc io stages fquery trace = .ok result := by
  obtain ⟨result, full⟩ := engine_total libc io stages.groupaggregationsEnabled fquery trace bounded
  obtain ⟨⟨data, filterResults⟩, read, full⟩ := bind_eq_ok full
  obtain ⟨room, rfl, rfl⟩ := readTrace_result io fquery.branchset trace data filterResults read
  obtain ⟨branchResults, branches, full⟩ := bind_eq_ok full
  obtain ⟨mergerResult, merged, full⟩ := bind_eq_ok full
  obtain ⟨ungrouperResult, ungrouped, -⟩ := bind_eq_ok full
  obtain ⟨data, read⟩ := readTrace_left io fquery.branchset trace off room
  cases merging : stages.mergerEnabled with
  | false =>
      obtain ⟨fewer, branches⟩ := branchesStart_fewer libc io stages chained fquery.branchset
        (fun branch => branch.filtered io fquery.branchset trace) branchResults branches
      simp only [engine, read, ok_bind, branches, engineMerger, merging, Bool.false_eq_true,
        ↓reduceIte, engineUngrouper, ungrouper]
      split <;> exact ⟨_, rfl⟩
  | true =>
      have filtering := chained.merger merging
      have grouping := chained.groupfilter filtering
      have enabled := chained.grouper grouping
      simp only [enabled, ↓reduceIte] at read
      have branches : branchesStart libc io stages fquery.branchset (fquery.branchset.map
          fun branch => some (FilterResult.of (branch.filtered io fquery.branchset trace))) =
          .ok branchResults := by
        rw [branchesStart_all libc io stages grouping filtering]
        exact branches
      have merged : engineMerger stages fquery branchResults = .ok mergerResult := by
        rw [← merged]
        simp only [engineMerger, merging, Stages.all]
      simp only [engine, enabled, read, ok_bind, branches, merged]
      cases ungrouping : stages.ungrouperEnabled with
      | false =>
          simp only [engineUngrouper, ungrouping, Bool.false_eq_true, ↓reduceIte, ok_bind]
          exact ⟨_, rfl⟩
      | true =>
          have ungrouped : engineUngrouper stages fquery mergerResult = .ok ungrouperResult := by
            rw [← ungrouped]
            simp only [engineUngrouper, ungrouping, Stages.all]
          simp only [ungrouped, ok_bind]
          exact ⟨_, rfl⟩

end Engine

section Empty

variable (libc : Libc) (io : IoHandler) (stages : Stages)

/-- The filter results of a trace without records. -/
theorem readTrace_empty (branchset : List Branch) :
    ∃ data, readTrace stages.filterEnabled io branchset [] = .ok (data, branchset.map fun _ =>
      if stages.filterEnabled then some (FilterResult.of []) else none) := by
  cases stages.filterEnabled with
  | false =>
      exact ⟨⟨0, []⟩, by simp only [readTrace, filterTrace, Bool.false_eq_true, ↓reduceIte,
        ok_bind, List.map_map, Function.comp_def]⟩
  | true => exact ⟨_, readTrace_short io branchset [] (by decide)⟩

theorem branchStart_empty (branch : Branch) :
    branchStart libc io stages branch
        (if stages.filterEnabled then some (FilterResult.of []) else none) =
      if (stages.grouperEnabled = true → stages.filterEnabled = true) ∧
          (stages.groupfilterEnabled = true → stages.grouperEnabled = true) then
        .ok ⟨if stages.grouperEnabled then some ⟨0, []⟩ else none,
          if stages.groupfilterEnabled then some ⟨0, []⟩ else none⟩
      else .error .nullPointer := by
  obtain ⟨filter, grouper, aggregations, groupfilter, merger, ungrouper⟩ := stages
  cases filter <;> cases grouper <;> cases groupfilter <;> rfl

/-- Without records a run reads every result, and misses the first one that is not there. -/
theorem engine_missing (fquery : Flowquery) (branches : fquery.branchset ≠ [])
    (unchained : ¬ stages.Chained) :
    engine libc io stages fquery [] = .error .nullPointer := by
  obtain ⟨data, read⟩ := readTrace_empty io stages fquery.branchset
  obtain ⟨branch, rest, given⟩ := List.exists_cons_of_ne_nil branches
  have start := branchStart_empty libc io stages
  by_cases linked : (stages.grouperEnabled = true → stages.filterEnabled = true) ∧
      (stages.groupfilterEnabled = true → stages.grouperEnabled = true)
  · have merger : ¬ (stages.mergerEnabled = true → stages.groupfilterEnabled = true) :=
      fun merger => unchained ⟨linked.1, linked.2, merger⟩
    obtain ⟨merging, missing⟩ := Classical.not_imp.mp merger
    simp only [if_pos linked, if_neg missing] at start
    have run : ∀ branches : List Branch, branchesStart libc io stages branches
        (branches.map fun _ => if stages.filterEnabled then some (FilterResult.of []) else none) =
          .ok (branches.map fun _ =>
            ⟨if stages.grouperEnabled then some ⟨0, []⟩ else none, none⟩) := by
      intro branches
      induction branches with
      | nil => rfl
      | cons branch rest ih =>
          simp only [List.map_cons, branchesStart, start, ih, ok_bind]
    have lost : gfilterResults (fquery.branchset.map fun _ =>
        ⟨if stages.grouperEnabled then some ⟨0, []⟩ else none, none⟩) = .error .nullPointer := by
      rw [given]
      rfl
    simp only [engine, read, ok_bind, run, engineMerger, merging, ↓reduceIte, lost, error_bind]
  · simp only [if_neg linked] at start
    simp only [engine, read, ok_bind]
    rw [given, List.map_cons, branchesStart, start]
    rfl

/-- Without branches the merger writes before the start of its iterator. -/
theorem engine_branchless (fquery : Flowquery) (none : fquery.branchset = [])
    (merging : stages.mergerEnabled = true) :
    engine libc io stages fquery [] = .error .outOfBounds := by
  obtain ⟨data, read⟩ := readTrace_empty io stages fquery.branchset
  have branches : branchesStart libc io stages fquery.branchset (fquery.branchset.map fun _ =>
      if stages.filterEnabled then some (FilterResult.of []) else Option.none) = .ok [] := by
    rw [none]
    rfl
  simp only [engine, read, ok_bind, branches, engineMerger, merging, ↓reduceIte]
  rfl

end Empty

end Nfql
