import Nfql.EngineStreams
import Mathlib.Algebra.Order.BigOperators.Group.List

set_option autoImplicit false

/- Queries and traces that are small enough for the engine's counters. -/
namespace Nfql

/-- The most groups that a branch can make of a trace. -/
def Branch.maxGroups (branch : Branch) (size : Nat) : Nat :=
  max branch.grouperClauseset.length 1 * size

/-- Bounds under which no counter of the engine leaves its type, for queries whose
merger looks up no aggregated sets. -/
structure Flowquery.Bounded (fquery : Flowquery) (size : Nat) : Prop where
  branches : fquery.branchset ≠ []
  records : size ≤ intMax - 1
  groups : ∀ branch ∈ fquery.branchset, branch.maxGroups size ≤ intMax
  tuples : (fquery.branchset.map fun branch => branch.maxGroups size).prod ≤ intMax
  streams : fquery.branchset.length * size < 2 ^ 32
  terms : ∀ clause ∈ fquery.mergerClauseset, ∀ term ∈ clause, term.op ≠ .isIn

theorem mergerFunc_total {numBranches : Nat} (term : MergerTerm numBranches)
    (defined : term.op ≠ .isIn) (group1 group2 : Group) (delta : BitVec 64) :
    ∃ truth, term.func group1 group2 delta = .ok truth := by
  rw [MergerTerm.func]
  cases op : term.op with
  | comp op => exact ⟨_, rfl⟩
  | isIn => exact absurd op defined
  | allen op => exact ⟨_, rfl⟩

section Branches

variable (libc : Libc) (io : IoHandler) (groupaggregationsEnabled : Bool)
  (branchset : List Branch) (trace : List Record)

/-- What is left of a group for counting: it is not empty and no longer than the trace. -/
def Group.Fits (group : Group) (size : Nat) : Prop :=
  group.members ≠ [] ∧ group.members.length ≤ size

theorem filtered_length (branch : Branch) (member : branch ∈ branchset) :
    (branch.filtered io branchset trace).length ≤ trace.length := by
  rw [Branch.filtered, pointers_length branchset trace _ branch member]
  exact branch.acceptCount_le trace

theorem branchStart_total (branch : Branch) (member : branch ∈ branchset)
    (records : trace.length ≤ intMax - 1) (groups : branch.maxGroups trace.length ≤ intMax) :
    ∃ gresult kept, branchStart libc io (Stages.all groupaggregationsEnabled) branch
        (some (FilterResult.of (branch.filtered io branchset trace))) =
          .ok ⟨some gresult, some (GroupfilterResult.of kept)⟩ ∧
      kept.length ≤ branch.maxGroups trace.length ∧ ∀ group ∈ kept, group.Fits trace.length := by
  have length := filtered_length io branchset trace branch member
  have most : max branch.grouperClauseset.length 1 *
      (branch.filtered io branchset trace).length ≤ branch.maxGroups trace.length :=
    Nat.mul_le_mul_left _ length
  have clauses : branch.grouperClauseset.length * (branch.filtered io branchset trace).length ≤
      max branch.grouperClauseset.length 1 * (branch.filtered io branchset trace).length :=
    Nat.mul_le_mul_right _ (Nat.le_max_left _ _)
  have limit : intMax < 2 ^ 32 := by decide
  have feasible := feasible_of_bounds libc GrouperFuncs.generated groupaggregationsEnabled branch
    (branch.filtered io branchset trace) (by omega) (by omega)
  obtain ⟨made, run, cooked⟩ :=
    grouper_ok libc _ io groupaggregationsEnabled branch _ feasible
  have count : made.length ≤ intMax := by
    rw [← cooked.length_eq]
    exact (groupRuns_count_le libc _ branch _).trans (by omega)
  refine ⟨⟨made.length, made⟩, made.filter branch.passes, ?_, ?_, ?_⟩
  · exact (branchStart_ok_iff libc io rfl rfl branch _ _).mpr ⟨made, run, count, rfl⟩
  · refine (List.length_filter_le _ _).trans ?_
    rw [← cooked.length_eq]
    exact (groupRuns_count_le libc _ branch _).trans most
  · intro group inside
    obtain ⟨made, -⟩ := grouper_group libc _ io groupaggregationsEnabled branch _ _ run group
      (List.mem_filter.mp inside).1
    exact ⟨groupRuns_nonempty libc _ branch _ _ made,
      (groupRuns_length_le libc _ branch _ _ made).trans length⟩

/-- The filtered groups that one branch contributes. -/
def Branch.Contributes (branch : Branch) (size : Nat) (kept : List Group) : Prop :=
  kept.length ≤ branch.maxGroups size ∧ ∀ group ∈ kept, group.Fits size

theorem branchesStart_total (branches : List Branch) (subset : ∀ branch ∈ branches, branch ∈ branchset)
    (records : trace.length ≤ intMax - 1)
    (groups : ∀ branch ∈ branches, branch.maxGroups trace.length ≤ intMax) :
    ∃ results groupsets, branchesStart libc io (Stages.all groupaggregationsEnabled) branches
        (branches.map fun branch => some (FilterResult.of (branch.filtered io branchset trace))) =
          .ok results ∧
      gfilterResults results = .ok (groupsets.map GroupfilterResult.of) ∧
      List.Forall₂ (fun branch kept => branch.Contributes trace.length kept) branches groupsets := by
  induction branches with
  | nil => exact ⟨[], [], rfl, rfl, List.Forall₂.nil⟩
  | cons branch rest ih =>
      obtain ⟨gresult, kept, head, contributes⟩ := branchStart_total libc io
        groupaggregationsEnabled branchset trace branch (subset branch (by simp)) records
        (groups branch (by simp))
      obtain ⟨results, groupsets, run, found, later⟩ :=
        ih (fun other member => subset other (by simp [member]))
          fun other member => groups other (by simp [member])
      refine ⟨⟨some gresult, some (GroupfilterResult.of kept)⟩ :: results, kept :: groupsets, ?_, ?_,
        List.Forall₂.cons contributes later⟩
      · simp only [List.map_cons, branchesStart, head, run, ok_bind]
      · simp only [gfilterResults, found, ok_bind, List.map_cons]

end Branches

section Engine

variable (libc : Libc) (io : IoHandler) (groupaggregationsEnabled : Bool) (fquery : Flowquery)
  (trace : List Record)

private theorem tuple_fits (size : Nat) (branches : List Branch) (groupsets : List (List Group))
    (contributed : List.Forall₂ (fun branch kept => branch.Contributes size kept) branches groupsets)
    (tuple : List Group) (chosen : TupleOf (groupsets.map GroupfilterResult.of) tuple) :
    tuple.length = branches.length ∧ (∀ group ∈ tuple, group.members ≠ []) ∧
      (concatenated tuple).length ≤ branches.length * size := by
  induction contributed generalizing tuple with
  | nil =>
      rw [List.forall₂_nil_left_iff.mp chosen]
      exact ⟨rfl, by simp, Nat.zero_le _⟩
  | cons head _ ih =>
      rw [List.map_cons] at chosen
      obtain ⟨group, rest, member, remaining, rfl⟩ := List.forall₂_cons_left_iff.mp chosen
      obtain ⟨length, nonempty, total⟩ := ih rest remaining
      obtain ⟨started, fits⟩ := head.2 group member
      refine ⟨by rw [List.length_cons, List.length_cons, length], ?_, ?_⟩
      · intro other inside
        rcases List.mem_cons.mp inside with rfl | inside
        · exact started
        · exact nonempty other inside
      · have split : concatenated (group :: rest) = group.members ++ concatenated rest :=
          List.flatMap_cons
        rw [split, List.length_append, List.length_cons, Nat.succ_mul]
        omega

/-- On a trace that is filtered to the end, the engine returns if all later stages do. -/
theorem engine_run (short : trace.length + 1 < 2 ^ 32) (branchResults : List BranchResult)
    (gresults : List GroupfilterResult) (mresult : MergerResult) (uresult : UngrouperResult)
    (branches : branchesStart libc io (Stages.all groupaggregationsEnabled) fquery.branchset
      (fquery.branchset.map fun branch =>
        some (FilterResult.of (branch.filtered io fquery.branchset trace))) = .ok branchResults)
    (found : gfilterResults branchResults = .ok gresults)
    (merged : merger MergerTerm.func fquery.mergerClauseset gresults = .ok mresult)
    (ungrouped : ungrouper fquery.branchset.length (some mresult) = .ok uresult) :
    ∃ data filterResults, engine libc io (Stages.all groupaggregationsEnabled) fquery trace =
      .ok ⟨data, filterResults, branchResults, some mresult, some uresult⟩ := by
  have filter_run : readTrace (Stages.all groupaggregationsEnabled).filterEnabled io
    fquery.branchset trace = _ := readTrace_short io fquery.branchset trace short
  have branch_run : branchesStart libc io (Stages.all groupaggregationsEnabled) fquery.branchset
      (fquery.branchset.map fun branch => some (FilterResult.of
        (branch.pointers (savedRecords io.readGetRecordSize fquery.branchset trace)))) =
      .ok branchResults := branches
  have merge_run : engineMerger (Stages.all groupaggregationsEnabled) fquery branchResults =
      .ok (some mresult) := by
    rw [engineMerger, Stages.all, if_pos rfl, found, ok_bind, merged, ok_bind]
  have ungroup_run : engineUngrouper (Stages.all groupaggregationsEnabled) fquery (some mresult) =
      .ok (some uresult) := by
    rw [engineUngrouper, Stages.all, if_pos rfl, ungrouped, ok_bind]
  rw [engine, filter_run, ok_bind]
  simp only [branch_run, merge_run, ungroup_run, ok_bind]
  exact ⟨_, _, rfl⟩

/-- Within the bounds every run of the engine returns. -/
theorem engine_total (bounded : fquery.Bounded trace.length) :
    ∃ result, engine libc io (Stages.all groupaggregationsEnabled) fquery trace = .ok result := by
  have limit : intMax < 2 ^ 32 := by decide
  have positive : 0 < intMax := by decide
  have records := bounded.records
  obtain ⟨branchResults, groupsets, branches, found, contributed⟩ := branchesStart_total libc io
    groupaggregationsEnabled fquery.branchset trace fquery.branchset (fun _ member => member)
    records bounded.groups
  have lengths : List.Forall₂ (· ≤ ·) (groupsets.map List.length)
      (fquery.branchset.map fun branch => branch.maxGroups trace.length) := by
    rw [List.forall₂_map_left_iff, List.forall₂_map_right_iff]
    exact (contributed.imp fun _ _ contributes => contributes.1).flip
  have few : (groupsets.map List.length).prod ≤ intMax :=
    lengths.prod_le_prod'.trans bounded.tuples
  obtain ⟨mresult, merged, count⟩ := merger_total MergerTerm.func fquery.mergerClauseset groupsets
    contributed.length_eq.symm
    (fun clause memberClause term member group1 group2 =>
      mergerFunc_total term (bounded.terms clause memberClause term member) group1 group2 0#64)
    (by
      intro none
      rw [none] at contributed
      exact bounded.branches (List.forall₂_nil_right_iff.mp contributed))
    (by omega)
  have valid := merger_valid _ _ _ mresult merged
  obtain ⟨streams, ungrouped⟩ := ungroupTuples_ok fquery.branchset.length mresult.groupTuples (by
    intro tuple member
    obtain ⟨length, nonempty, total⟩ := tuple_fits trace.length _ groupsets contributed tuple
      (valid.tuples tuple member)
    rw [← length]
    refine ⟨_, ungroupTuple_ok tuple nonempty ?_⟩
    have := bounded.streams
    omega)
  have within : mresult.numGroupTuples ≤ intMax := by omega
  have stream_run : ungrouper fquery.branchset.length (some mresult) =
      .ok ⟨mresult.numGroupTuples, streams⟩ := by
    rw [ungrouper, if_neg (by rw [valid.numGroupTuples]; omega), valid.numGroupTuples,
      List.take_length, ungrouped, ok_bind, ← valid.numGroupTuples, intLoop_ok _ within, ok_bind]
  obtain ⟨data, filterResults, run⟩ := engine_run libc io groupaggregationsEnabled fquery trace
    (by omega) branchResults _ mresult _ branches found merged stream_run
  exact ⟨_, run⟩

end Engine

/-- A branch that takes every record, makes one group and passes it. -/
def Branch.catchAll : Branch := ⟨[[]], [], [], [[]]⟩

theorem catchAll_start (trace : List Record) (some_record : trace ≠ [])
    (records : trace.length ≤ intMax - 1) (branchset : List Branch)
    (member : Branch.catchAll ∈ branchset) :
    ∃ group, group.members.length = trace.length ∧
      branchStart Libc.insertion IoHandler.empty (Stages.all false) Branch.catchAll
        (some (FilterResult.of (Branch.catchAll.filtered IoHandler.empty branchset trace))) =
      .ok ⟨some ⟨1, [group]⟩, some (GroupfilterResult.of [group])⟩ := by
  have accepted : (Branch.catchAll.filtered IoHandler.empty branchset trace).length =
      trace.length := by
    rw [Branch.filtered, pointers_length branchset trace _ _ member]
    exact congrArg List.length (List.filter_eq_self.mpr fun _ _ => rfl)
  have started : Branch.catchAll.filtered IoHandler.empty branchset trace ≠ [] := by
    apply List.ne_nil_of_length_pos
    rw [accepted]
    exact List.length_pos_iff.mpr some_record
  obtain ⟨made, run, -⟩ := grouper_ok Libc.insertion GrouperFuncs.generated IoHandler.empty false
    Branch.catchAll (Branch.catchAll.filtered IoHandler.empty branchset trace)
    (feasible_of_bounds _ _ _ _ _ (by
      show 0 * _ < _
      omega) (by omega))
  have members := (grouper_partition _ _ _ _ _ _ _ run).single rfl started
  obtain ⟨group, rfl, same⟩ := List.map_eq_singleton_iff.mp members
  refine ⟨group, by rw [same, accepted], ?_⟩
  have kept := groupfilter_ok Branch.catchAll [group] (by
    show 1 ≤ intMax
    decide)
  simp only [branchStart, branchGrouper, branchGroupfilter, Stages.all, ↓reduceIte, run, kept,
    ok_bind]
  rfl

/-- Three such branches, merged without a condition. -/
def Flowquery.triple : Flowquery := ⟨[Branch.catchAll, Branch.catchAll, Branch.catchAll], []⟩

/-- The merger of three single groups makes their only tuple. -/
theorem triple_merged (group : Group) : ∃ total,
    merger MergerTerm.func Flowquery.triple.mergerClauseset
      ([[group], [group], [group]].map GroupfilterResult.of) =
        .ok ⟨1, total, [[group, group, group]]⟩ := by
  have nonempty : ∀ groupset ∈ [[group], [group], [group]], groupset ≠ [] := by simp
  rw [merger_loop _ _ [[group], [group], [group]] nonempty (by simp)]
  exact ⟨_, rfl⟩

/-- Three times 2^31 - 2 members wrap the 32-bit count of a stream. -/
theorem triple_stream (group : Group) (size : group.members.length = 2 ^ 31 - 2) :
    ∃ stream, ungroupTuple 3 [group, group, group] = .ok stream ∧
      stream.numRecords = 2 ^ 31 - 6 := by
  have members : group.numMembers = 2 ^ 31 - 2 := size
  have first : uint32 (0 + (2 ^ 31 - 2)) = 2 ^ 31 - 2 := by decide
  have second : uint32 (2 ^ 31 - 2 + (2 ^ 31 - 2)) = 2 ^ 32 - 4 := by decide
  have third : uint32 (2 ^ 32 - 4 + (2 ^ 31 - 2)) = 2 ^ 31 - 6 := by decide
  have append : ∀ (stream : Stream) (count : Nat),
      uint32 (stream.numRecords + (2 ^ 31 - 2)) = count → count ≠ 0 →
      ∃ recordset, appendGroup stream group = .ok ⟨count, recordset⟩ := by
    intro stream count sum positive
    rw [appendGroup, members, sum, realloc, if_neg positive]
    exact ⟨_, rfl⟩
  obtain ⟨one, run1⟩ := append ⟨0, []⟩ _ first (by decide)
  obtain ⟨two, run2⟩ := append ⟨_, one⟩ _ second (by decide)
  obtain ⟨three, run3⟩ := append ⟨_, two⟩ _ third (by decide)
  refine ⟨⟨2 ^ 31 - 6, three⟩, ?_, rfl⟩
  show [group, group, group].foldlM appendGroup ⟨0, []⟩ = _
  rw [List.foldlM_cons, run1, ok_bind, List.foldlM_cons, run2, ok_bind, List.foldlM_cons, run3,
    ok_bind]
  rfl

/-- The flows of protocol 6 between two addresses, those of more than 100 octets. -/
def Branch.sessions : Branch where
  filterClauseset := [[⟨4, 6#64, 0#64, .eq, .w8⟩]]
  grouperClauseset := [[⟨0, 0, 0#64, .eq, .w8, .w8, .rel⟩, ⟨1, 1, 0#64, .eq, .w8, .w8, .rel⟩]]
  aggrClauseTermset := [⟨0, .static, .w8⟩, ⟨2, .sum, .w8⟩]
  groupfilterClauseset := [[⟨2, 100#64, 0#64, .gt, .w8⟩]]

/-- Both directions, merged. -/
def Flowquery.sessions : Flowquery where
  branchset := [Branch.sessions, Branch.sessions]
  mergerClauseset :=
    [[⟨0, 0, 1, 1, .comp .eq, .w8, .w8, 0#64⟩, ⟨0, 1, 1, 0, .comp .eq, .w8, .w8, 0#64⟩]]

/-- Flows in both directions between 1 and 2, of 110 and of 120 octets, one from 3 to 1, and
one of another protocol. -/
def Flowquery.flows : List Record :=
  [Record.ofBytes [1#8, 2#8, 60#8, 0#8, 6#8], Record.ofBytes [2#8, 1#8, 120#8, 0#8, 6#8],
    Record.ofBytes [3#8, 1#8, 200#8, 0#8, 6#8], Record.ofBytes [1#8, 2#8, 9#8, 0#8, 17#8],
    Record.ofBytes [1#8, 2#8, 50#8, 0#8, 6#8]]

/-- The sizes of the streams in the order of the tuples. -/
def EngineResult.streamSizes (result : EngineResult) : Option (List Nat) :=
  result.ungrouperResult.map fun uresult => uresult.streamset.map Stream.numRecords

set_option maxRecDepth 100000 in
/-- The two directions are one stream of three flows for each order. -/
theorem sessions_engine : ∃ result, engine Libc.insertion (IoHandler.untimed 5) (Stages.all true)
    Flowquery.sessions Flowquery.flows = .ok result ∧ result.streamSizes = some [3, 3] := by
  have sizes : (engine Libc.insertion (IoHandler.untimed 5) (Stages.all true) Flowquery.sessions
      Flowquery.flows).toOption.bind EngineResult.streamSizes = some [3, 3] := by
    decide +kernel
  cases run : engine Libc.insertion (IoHandler.untimed 5) (Stages.all true) Flowquery.sessions
      Flowquery.flows with
  | error fault =>
      rw [run] at sizes
      cases sizes
  | ok result =>
      rw [run] at sizes
      exact ⟨result, rfl, sizes⟩

end Nfql
