import Nfql.QueryMeaning
import Nfql.Refusals

set_option autoImplicit false

/- The engine answers its queries. -/
namespace Nfql

open GreedyRuns Odometer RelationalQueries

section Branches

variable (libc : Libc) (io : IoHandler) (groupaggregationsEnabled : Bool)
  (branchset : List Branch) (trace : List Record)

/-- The groups that a branch keeps are those its selection asks for, and their records
have the values of the groups. -/
structure Branch.Hands (branch : Branch) (kept : List Group) : Prop where
  groups : kept.map Group.rows =
    (branch.selection io groupaggregationsEnabled).groups (trace : Multiset Record)
  values : ∀ group ∈ kept, ∀ field ∈ branch.valueFields,
    field.read group.record = branch.cell groupaggregationsEnabled field group.rows
  nonempty : ∀ group ∈ kept, group.members ≠ []

variable (branch : Branch) (declarative : branch.Declarative)

include declarative

/-- The group filter's verdict is that on the values of the group. -/
theorem passes_having (group : Group)
    (values : ∀ field ∈ branch.valueFields,
      field.read group.record = branch.cell groupaggregationsEnabled field group.rows) :
    branch.passes group = (branch.selection io groupaggregationsEnabled).having group.rows := by
  rw [Bool.eq_iff_iff]
  unfold Branch.passes Branch.selection
  rw [Clauses.dnf_iff, Clauses.dnf_iff]
  refine exists_congr fun terms => and_congr_right fun inBranch => ?_
  refine forall₂_congr fun term member => ?_
  have value := values _ (declarative.groupfilter terms inBranch term member)
  rw [Field.read] at value
  rw [GroupfilterTerm.func, value]

/-- The runs of the sorted records are the classes of the branch's rows. -/
theorem groupRuns_classes (member : branch ∈ branchset) :
    (branch.groupRuns libc GrouperFuncs.generated (branch.filtered io branchset trace)).map
        (fun run => ((run.map RecordPtr.record : List Record) : Multiset Record)) =
      classes (branch.selection io groupaggregationsEnabled).key
        ((branch.selection io groupaggregationsEnabled).rows (trace : Multiset Record)) := by
  have records : (branch.filtered io branchset trace).map RecordPtr.record =
      (trace.filter branch.accepts).map (copyRecord io.readGetRecordSize) :=
    pointers_records branchset trace io.readGetRecordSize branch member
  obtain ⟨listed, perm⟩ := groupRuns_listed branch declarative libc
    (branch.filtered io branchset trace)
  have images : Classes (branch.selection io groupaggregationsEnabled).key
      (List.map (List.map RecordPtr.record) _) := Classes.map listed
  have rows : (((branch.groupRuns libc GrouperFuncs.generated
      (branch.filtered io branchset trace)).map (List.map RecordPtr.record)).flatten :
        Multiset Record) =
      (branch.selection io groupaggregationsEnabled).rows (trace : Multiset Record) := by
    rw [← List.map_flatten, Multiset.coe_eq_coe.mpr (perm.map RecordPtr.record), records,
      Selection.rows, Multiset.filter_coe, Multiset.map_coe]
    have accepted : trace.filter (fun record => decide (branch.accepts record = true)) =
        trace.filter branch.accepts := List.filter_congr fun record _ => Bool.decide_eq_true
    exact congrArg (fun rows : List Record =>
      ((rows.map (copyRecord io.readGetRecordSize) : List Record) : Multiset Record)) accepted.symm
  have answer := classes_listed _ _ images
  rw [rows, List.map_map] at answer
  exact answer

/-- What the grouper makes of a key clause, cut down by the group filter. -/
theorem cooked_hands (member : branch ∈ branchset) (made : List Group)
    (cooked : List.Forall₂ (Cooked libc io groupaggregationsEnabled branch)
      (branch.groupRuns libc GrouperFuncs.generated (branch.filtered io branchset trace)) made) :
    branch.Hands io groupaggregationsEnabled trace (made.filter branch.passes) := by
  have values : ∀ group ∈ made, (∀ field ∈ branch.valueFields,
      field.read group.record = branch.cell groupaggregationsEnabled field group.rows) ∧
      group.members ≠ [] := by
    intro group inside
    obtain ⟨run, inRuns, cooked⟩ := forall₂_right cooked group inside
    obtain ⟨listed, -⟩ := groupRuns_listed branch declarative libc
      (branch.filtered io branchset trace)
    have nonempty := listed.nonempty run inRuns
    rw [Group.rows, cooked.members]
    refine ⟨fun field named => ?_, nonempty⟩
    rw [cooked.record]
    exact groupRecord_cell branch declarative libc groupaggregationsEnabled run nonempty
      (listed.constant run inRuns) field named
  refine ⟨?_, ?_, ?_⟩
  · have all := groupRuns_classes libc io groupaggregationsEnabled branchset trace branch declarative
      member
    rw [← cooked_members libc io groupaggregationsEnabled branch _ made cooked, List.map_map] at all
    rw [Selection.groups, ← all]
    refine Eq.trans ?_ List.filter_map.symm
    refine congrArg _ (List.filter_congr fun group inside => ?_)
    exact passes_having io groupaggregationsEnabled branch declarative group (values group inside).1
  · intro group inside
    exact (values group (List.mem_filter.mp inside).1).1
  · intro group inside
    exact (values group (List.mem_filter.mp inside).1).2

theorem branchStart_hands (member : branch ∈ branchset) (result : BranchResult)
    (success : branchStart libc io (Stages.all groupaggregationsEnabled) branch
      (some (FilterResult.of (branch.filtered io branchset trace))) = .ok result) :
    ∃ kept, result.gfilterResult = some (GroupfilterResult.of kept) ∧
      branch.Hands io groupaggregationsEnabled trace kept := by
  obtain ⟨groups, grouped, -, rfl⟩ :=
    (branchStart_ok_iff libc io rfl rfl branch _ result).mp success
  obtain ⟨-, cooked⟩ := grouper_cooked libc _ io groupaggregationsEnabled branch _ _ grouped
  exact ⟨_, rfl, cooked_hands libc io groupaggregationsEnabled branchset trace branch declarative
    member groups cooked⟩

omit declarative

/-- The groups of all branches, as the merger finds them. -/
theorem branchesStart_hands (branches : List Branch)
    (members : ∀ branch ∈ branches, branch ∈ branchset)
    (declarative : ∀ branch ∈ branches, branch.Declarative)
    (results : List BranchResult)
    (success : branchesStart libc io (Stages.all groupaggregationsEnabled) branches
      (branches.map fun branch => some (FilterResult.of (branch.filtered io branchset trace))) =
        .ok results) :
    ∃ groupsets, gfilterResults results = .ok (groupsets.map GroupfilterResult.of) ∧
      List.Forall₂ (Branch.Hands io groupaggregationsEnabled trace) branches groupsets := by
  induction branches generalizing results with
  | nil =>
      cases success
      exact ⟨[], rfl, List.Forall₂.nil⟩
  | cons branch rest ih =>
      obtain ⟨result, head, success⟩ := bind_eq_ok success
      obtain ⟨others, later, success⟩ := bind_eq_ok success
      cases success
      obtain ⟨kept, found, hands⟩ := branchStart_hands libc io groupaggregationsEnabled branchset trace
        branch (declarative branch (by simp)) (members branch (by simp)) result head
      obtain ⟨groupsets, run, answers⟩ := ih (fun other inside => members other (by simp [inside]))
        (fun other inside => declarative other (by simp [inside])) others later
      refine ⟨kept :: groupsets, ?_, List.Forall₂.cons hands answers⟩
      simp only [gfilterResults, found, run, ok_bind, List.map_cons]

end Branches

section Merger

/-- The truth of a comparison, with the delta that `merger` passes. -/
def MergerTerm.truth {numBranches : Nat} (term : MergerTerm numBranches) (group1 group2 : Group) :
    Bool :=
  match term.op with
  | .comp op =>
      mergerComp op term.field1Type term.field2Type group1 term.field1 group2 term.field2 0#64
  | .isIn | .allen _ => false

variable {numBranches : Nat} (clauses : List (List (MergerTerm numBranches)))

theorem checkTerms_congr (call call' : MergerTerm numBranches → Except Fault Bool)
    (terms : List (MergerTerm numBranches)) (same : ∀ term ∈ terms, call term = call' term)
    (clause : Bool) : checkTerms call terms clause = checkTerms call' terms clause := by
  induction terms with
  | nil => rfl
  | cons term rest ih =>
      rw [checkTerms, checkTerms, same term (by simp),
        ih fun other member => same other (by simp [member])]

theorem checkClauses_congr (call call' : MergerTerm numBranches → Except Fault Bool)
    (same : ∀ terms ∈ clauses, ∀ term ∈ terms, call term = call' term) (clause : Bool) :
    checkClauses call clauses clause = checkClauses call' clauses clause := by
  induction clauses generalizing clause with
  | nil => rfl
  | cons terms rest ih =>
      rw [checkClauses, checkClauses, checkTerms_congr call call' terms (same terms (by simp))]
      refine bind_congr fun clause => ?_
      rw [ih fun others member => same others (by simp [member])]

/-- The merger calls nothing but the functions of its terms. -/
theorem merger_congr (func func' : MergerFunc numBranches)
    (same : ∀ terms ∈ clauses, ∀ term ∈ terms, ∀ group1 group2,
      func term group1 group2 0#64 = func' term group1 group2 0#64)
    (groupsets : List (List Group)) (nonempty : ∀ groupset ∈ groupsets, groupset ≠ [])
    (some_branch : groupsets ≠ []) :
    merger func clauses (groupsets.map GroupfilterResult.of) =
      merger func' clauses (groupsets.map GroupfilterResult.of) := by
  rw [merger_loop func clauses groupsets nonempty some_branch,
    merger_loop func' clauses groupsets nonempty some_branch]
  congr 1
  funext mresult tuple
  have calls := checkClauses_congr clauses
    (mergerTerm func (groupsets.map GroupfilterResult.of) tuple)
    (mergerTerm func' (groupsets.map GroupfilterResult.of) tuple) fun terms inQuery term member => by
      unfold mergerTerm
      refine bind_congr fun group1 => bind_congr fun group2 => ?_
      exact same terms inQuery term member group1 group2
  rw [mergeTuple, mergeTuple, calls]

/-- The tuples that the merger keeps, in order: those on which the first clause holds. -/
theorem merger_tuples (groupsets : List (List Group)) (count : groupsets.length = numBranches)
    (comparisons : ∀ terms ∈ clauses, ∀ term ∈ terms, ∃ op, term.op = .comp op)
    (mresult : MergerResult)
    (success : merger MergerTerm.func clauses (groupsets.map GroupfilterResult.of) = .ok mresult) :
    mresult.groupTuples =
      (product groupsets).filter fun tuple =>
        firstHolds (tupleHolds MergerTerm.truth tuple) clauses := by
  by_cases nonempty : ∀ groupset ∈ groupsets, groupset ≠ []
  · have some_branch : groupsets ≠ [] := by
      rintro rfl
      cases success
    have same : ∀ terms ∈ clauses, ∀ term ∈ terms, ∀ group1 group2,
        MergerTerm.func term group1 group2 0#64 =
          truthFunc MergerTerm.truth term group1 group2 0#64 := by
      intro terms inQuery term member group1 group2
      obtain ⟨op, comparison⟩ := comparisons terms inQuery term member
      rw [MergerTerm.func, truthFunc, MergerTerm.truth, comparison]
    rw [merger_congr clauses _ _ same groupsets nonempty some_branch] at success
    have room := merger_room MergerTerm.truth clauses groupsets count some_branch nonempty mresult
      success
    obtain ⟨total, run⟩ := merger_ok MergerTerm.truth clauses groupsets count some_branch nonempty
      room
    rw [run, Except.ok.injEq] at success
    rw [← success, ← selections_product, List.filter_map]
    rfl
  · simp only [not_forall, not_not] at nonempty
    obtain ⟨groupset, member, empty⟩ := nonempty
    have none : product groupsets = [] := by
      rw [List.eq_nil_iff_forall_not_mem]
      intro tuple inside
      obtain ⟨group, -, found⟩ := forall₂_left ((mem_product groupsets tuple).mp inside) groupset
        member
      rw [empty] at found
      cases found
    have stopped : (groupsets.map GroupfilterResult.of).any
        (fun gfilterResult => gfilterResult.numFilteredGroups == 0) = true := by
      refine List.any_eq_true.mpr ⟨_, List.mem_map_of_mem member, ?_⟩
      rw [empty]
      rfl
    rw [merger, if_pos stopped, Except.ok.injEq] at success
    rw [← success, none]
    rfl

end Merger

section Joins

variable (io : IoHandler) (groupaggregationsEnabled : Bool) (trace : List Record)

/-- A tuple has a group of each branch, with the values of the branch's result fields. -/
theorem tuple_values (branches : List Branch) (groupsets : List (List Group)) (tuple : List Group)
    (hands : List.Forall₂ (Branch.Hands io groupaggregationsEnabled trace) branches groupsets)
    (chosen : List.Forall₂ (fun groupset group => group ∈ groupset) groupsets tuple)
    (position : Fin branches.length) :
    ∃ group, tuple[position.val]? = some group ∧
      ∀ field ∈ (branches.get position).valueFields,
        field.read group.record =
          (branches.get position).cell groupaggregationsEnabled field group.rows := by
  obtain ⟨length, handed⟩ := List.forall₂_iff_get.mp hands
  obtain ⟨length', members⟩ := List.forall₂_iff_get.mp chosen
  have inside : position.val < groupsets.length := by
    rw [← length]
    exact position.isLt
  refine ⟨tuple.get ⟨position, by omega⟩, List.getElem?_eq_getElem _, ?_⟩
  exact (handed position position.isLt inside).values _ (members position inside (by omega))

theorem mergerComp_joins (op : CompOp) (atype1 atype2 : Width) (group1 group2 : Group)
    (field1 field2 : Nat) :
    mergerComp op atype1 atype2 group1 field1 group2 field2 0#64 =
      op.joins (readField atype1 group1.record field1) (readField atype2 group2.record field2) := by
  unfold mergerComp CompOp.joins
  simp only [compareDelta_zero]
  by_cases zero : readField atype1 group1.record field1 = 0#64 ∨
      readField atype2 group2.record field2 = 0#64
  · rw [if_pos zero]
    rcases zero with zero | zero <;> simp [zero]
  · rw [if_neg zero]
    rw [not_or] at zero
    simp [zero]

/-- On the groups that the branches hand over, the first clause holds if their values join. -/
theorem firstHolds_joins (fquery : Flowquery) (declarative : fquery.Declarative)
    (groupsets : List (List Group))
    (hands : List.Forall₂ (Branch.Hands io groupaggregationsEnabled trace) fquery.branchset groupsets)
    (tuple : List Group) (member : tuple ∈ product groupsets) :
    firstHolds (tupleHolds MergerTerm.truth tuple) fquery.mergerClauseset =
      (fquery.query io groupaggregationsEnabled).joins (tuple.map Group.rows) := by
  have chosen := (mem_product groupsets tuple).mp member
  obtain ⟨branchset, mergerClauseset⟩ := fquery
  cases mergerClauseset with
  | nil => rfl
  | cons terms rest =>
      show terms.all _ = terms.all _
      rw [Bool.eq_iff_iff, List.all_eq_true, List.all_eq_true]
      refine forall₂_congr fun term inside => ?_
      obtain ⟨op, comparison⟩ := declarative.comparisons terms (by simp) term inside
      obtain ⟨group1, found1, values1⟩ := tuple_values io groupaggregationsEnabled trace branchset
        groupsets tuple hands chosen term.branch1
      obtain ⟨group2, found2, values2⟩ := tuple_values io groupaggregationsEnabled trace branchset
        groupsets tuple hands chosen term.branch2
      have value1 := values1 _ (declarative.fields1 terms (by simp) term inside)
      have value2 := values2 _ (declarative.fields2 terms (by simp) term inside)
      simp only [tupleHolds, MergerTerm.meets, MergerTerm.truth, List.getElem?_map, found1, found2,
        Option.map_some, comparison, mergerComp_joins, ← value1, ← value2, Field.read]

end Joins

section Engine

variable (libc : Libc) (io : IoHandler) (groupaggregationsEnabled : Bool) (fquery : Flowquery)
  (trace : List Record)

/-- The tuples and streams in memory are those of the query, and the records of the groups
have their values. -/
structure Answers (mresult : MergerResult) (uresult : UngrouperResult) : Prop where
  numGroupTuples : mresult.numGroupTuples = mresult.groupTuples.length
  tuples : mresult.groupTuples.map (List.map Group.rows) =
    (fquery.query io groupaggregationsEnabled).tuples (trace : Multiset Record)
  values : ∀ tuple ∈ mresult.groupTuples, ∀ position : Fin fquery.branchset.length,
    ∃ group, tuple[position.val]? = some group ∧
      ∀ field ∈ (fquery.branchset.get position).valueFields,
        field.read group.record =
          (fquery.branchset.get position).cell groupaggregationsEnabled field group.rows
  numStreams : uresult.numStreams = uresult.streamset.length
  streams : uresult.streamset.map Stream.rows =
    (fquery.query io groupaggregationsEnabled).answer (trace : Multiset Record)

theorem concatenated_rows (tuple : List Group) :
    (((concatenated tuple).map RecordPtr.record : List Record) : Multiset Record) =
      (tuple.map Group.rows).sum := by
  induction tuple with
  | nil => rfl
  | cons group rest ih =>
      rw [concatenated, List.flatMap_cons, List.map_append, ← Multiset.coe_add, ← concatenated, ih]
      rfl

theorem concatenated_length (tuple : List Group) (most : Nat)
    (each : ∀ group ∈ tuple, group.members.length ≤ most) :
    (concatenated tuple).length ≤ tuple.length * most := by
  have sum := List.sum_le_card_nsmul (tuple.map fun group => group.members.length) most (by
    intro length member
    obtain ⟨group, inside, rfl⟩ := List.mem_map.mp member
    exact each group inside)
  rwa [List.length_map, smul_eq_mul, ← List.length_flatMap] at sum

/-- The tuples of groups that the branches hand over, filtered as the merger does. -/
theorem tuples_rows (declarative : fquery.Declarative) (groupsets : List (List Group))
    (hands : List.Forall₂ (Branch.Hands io groupaggregationsEnabled trace) fquery.branchset
      groupsets) :
    ((product groupsets).filter fun tuple =>
        firstHolds (tupleHolds MergerTerm.truth tuple) fquery.mergerClauseset).map
          (List.map Group.rows) =
      (fquery.query io groupaggregationsEnabled).tuples (trace : Multiset Record) := by
  have groups : groupsets.map (List.map Group.rows) =
      (fquery.query io groupaggregationsEnabled).selections.map fun selection =>
        selection.groups (trace : Multiset Record) := by
    rw [← List.forall₂_eq_eq_eq, Flowquery.query, List.map_map, List.forall₂_map_left_iff,
      List.forall₂_map_right_iff]
    exact (hands.imp fun _ _ handed => handed.groups).flip
  rw [RelationalQueries.Query.tuples, ← groups, product_map, List.filter_map]
  refine congrArg _ (List.filter_congr fun tuple member => ?_)
  exact firstHolds_joins io groupaggregationsEnabled trace fquery declarative groupsets hands tuple
    member

/-- A stream that does not wrap has the rows of its tuple. -/
theorem ungroupTuple_rows (groupsets : List (List Group))
    (hands : List.Forall₂ (Branch.Hands io groupaggregationsEnabled trace) fquery.branchset
      groupsets)
    (fits : fquery.branchset.length * trace.length < 2 ^ 32) (tuple : List Group)
    (member : tuple ∈ product groupsets) (stream : Stream)
    (success : ungroupTuple fquery.branchset.length tuple = .ok stream) :
    stream.rows = (tuple.map Group.rows).sum := by
  have chosen := (mem_product groupsets tuple).mp member
  have count : tuple.length = fquery.branchset.length :=
    chosen.length_eq.symm.trans hands.length_eq.symm
  have handed : ∀ group ∈ tuple, group.members ≠ [] ∧ group.members.length ≤ trace.length := by
    intro group inside
    obtain ⟨kept, inGroupsets, inKept⟩ := forall₂_right chosen group inside
    obtain ⟨branch, -, hands⟩ := forall₂_right hands kept inGroupsets
    refine ⟨hands.nonempty group inKept, ?_⟩
    have few := groups_card (branch.selection io groupaggregationsEnabled) (trace : Multiset Record)
      group.rows (by rw [← hands.groups]; exact List.mem_map_of_mem inKept)
    rwa [Group.rows, Multiset.coe_card, Multiset.coe_card, List.length_map] at few
  have short := concatenated_length tuple trace.length fun group inside => (handed group inside).2
  rw [← count] at fits success
  rw [ungroupTuple_ok tuple (fun group inside => (handed group inside).1) (by omega),
    Except.ok.injEq] at success
  rw [← success, Stream.rows, concatenated_rows]

variable (declarative : fquery.Declarative)
  (fits : fquery.branchset.length * trace.length < 2 ^ 32)

include declarative fits

theorem engine_answers (result : EngineResult)
    (success : engine libc io (Stages.all groupaggregationsEnabled) fquery trace = .ok result) :
    ∃ mresult uresult, result.mergerResult = some mresult ∧
      result.ungrouperResult = some uresult ∧
      Answers io groupaggregationsEnabled fquery trace mresult uresult := by
  obtain ⟨⟨data, filterResults⟩, filtered, success⟩ := bind_eq_ok success
  obtain ⟨-, -, rfl⟩ := readTrace_result io fquery.branchset trace data filterResults filtered
  obtain ⟨branchResults, branches, success⟩ := bind_eq_ok success
  obtain ⟨mergerResult, merged, success⟩ := bind_eq_ok success
  obtain ⟨ungrouperResult, ungrouped, success⟩ := bind_eq_ok success
  cases success
  obtain ⟨groupsets, found, hands⟩ := branchesStart_hands libc io groupaggregationsEnabled
    fquery.branchset trace fquery.branchset (fun _ member => member) declarative.branches _ branches
  rw [engineMerger, Stages.all, if_pos rfl, found, ok_bind] at merged
  obtain ⟨mresult, run, merged⟩ := bind_eq_ok merged
  cases merged
  rw [engineUngrouper, Stages.all, if_pos rfl] at ungrouped
  obtain ⟨uresult, streams, ungrouped⟩ := bind_eq_ok ungrouped
  cases ungrouped
  have valid := merger_valid _ _ _ mresult run
  have kept := merger_tuples fquery.mergerClauseset groupsets hands.length_eq.symm
    declarative.comparisons mresult run
  have chosen : ∀ tuple ∈ mresult.groupTuples, tuple ∈ product groupsets := by
    intro tuple member
    rw [kept] at member
    exact (List.mem_filter.mp member).1
  have tuples := tuples_rows io groupaggregationsEnabled fquery trace declarative groupsets hands
  rw [← kept] at tuples
  obtain ⟨count, each⟩ := ungrouper_each _ mresult uresult valid.numGroupTuples streams
  refine ⟨mresult, uresult, rfl, rfl, valid.numGroupTuples, tuples, ?_, ?_, ?_⟩
  · intro tuple member position
    exact tuple_values io groupaggregationsEnabled trace fquery.branchset groupsets tuple hands
      ((mem_product groupsets tuple).mp (chosen tuple member)) position
  · rw [count]
    exact each.length_eq
  · rw [RelationalQueries.Query.answer, ← tuples, List.map_map, ← List.forall₂_eq_eq_eq,
      List.forall₂_map_left_iff, List.forall₂_map_right_iff]
    refine List.Forall₂.flip (List.Forall₂.imp ?_ ((List.forall₂_and_left _ _).mpr ⟨chosen, each⟩))
    intro tuple stream both
    exact ungroupTuple_rows io groupaggregationsEnabled fquery trace groupsets hands fits tuple both.1
      stream both.2

end Engine

theorem Branch.sessions_declarative : Branch.sessions.Declarative where
  single := by decide
  keys := by
    intro term member
    have keys : term ∈ [GrouperTerm.mk 0 0 0#64 .eq .w8 .w8 .rel, ⟨1, 1, 0#64, .eq, .w8, .w8, .rel⟩] :=
      member
    rcases List.mem_cons.mp keys with rfl | later
    · exact ⟨rfl, rfl, rfl, rfl⟩
    · rw [List.mem_singleton.mp later]
      exact ⟨rfl, rfl, rfl, rfl⟩
  statics := by decide
  commutes := by
    intro term member
    have total : term ∈ [AggrTerm.mk 2 .sum .w8] := member
    rw [List.mem_singleton.mp total]
    exact .inl rfl
  unnamed := by
    intro term member field named
    have total : term ∈ [AggrTerm.mk 2 .sum .w8] := member
    have fields : field ∈ [Field.mk 4 .w8, ⟨0, .w8⟩, ⟨1, .w8⟩] := named
    rw [List.mem_singleton.mp total]
    simp only [List.mem_cons, List.not_mem_nil, or_false] at fields
    rcases fields with rfl | rfl | rfl
    · exact .inl (by decide)
    · exact .inr (by decide)
    · exact .inr (by decide)
  apart := List.pairwise_singleton _ _
  groupfilter := by decide

theorem Flowquery.sessions_declarative : Flowquery.sessions.Declarative where
  branches := by
    intro branch member
    have same : branch ∈ [Branch.sessions, Branch.sessions] := member
    simp only [List.mem_cons, List.not_mem_nil, or_false, or_self] at same
    rw [same]
    exact Branch.sessions_declarative
  comparisons := by
    intro terms inQuery term member
    rw [List.mem_singleton.mp inQuery] at member
    rcases List.mem_cons.mp member with rfl | later
    · exact ⟨.eq, rfl⟩
    · rw [List.mem_singleton.mp later]
      exact ⟨.eq, rfl⟩
  fields1 := by decide
  fields2 := by decide

end Nfql

namespace Nfql.Emit

open OutputStreams

section Processes

variable {fileSystem : FileSystem ResultFile Record} {options : OutputOptions} {libc : Libc}
  {io : IoHandler} {groupaggregationsEnabled : Bool} {fquery : Flowquery} {trace : List Record}
  {performed : List (StreamOp ResultFile Record)} {refused : Option (StreamOp ResultFile Record)}
  {left : EngineLeft}

/-- Whatever the schedule and the output options, a process that succeeds answers its query. -/
theorem process_answers (declarative : fquery.Declarative)
    (fits : fquery.branchset.length * trace.length < 2 ^ 32)
    (process : Process fileSystem options libc io (Stages.all groupaggregationsEnabled) fquery trace
      performed refused (.ok left)) :
    ∃ mresult uresult, left.mergerResult = some mresult ∧
      left.ungrouperResult = some uresult ∧
      Answers io groupaggregationsEnabled fquery trace mresult uresult := by
  obtain rfl := process.granted
  exact engine_answers libc io groupaggregationsEnabled fquery trace declarative fits left.plain
    (run_success process.run left rfl)

end Processes

theorem process_answers_sessions : ∃ performed left mresult uresult,
    SessionsProcess performed none (.ok left) ∧ left.plain.streamSizes = some [3, 3] ∧
    left.mergerResult = some mresult ∧ left.ungrouperResult = some uresult ∧
    Answers (IoHandler.untimed 5) true Flowquery.sessions Flowquery.flows mresult uresult := by
  obtain ⟨performed, left, process, sizes⟩ := sessions_process
  obtain ⟨mresult, uresult, merged, ungrouped, answers⟩ :=
    process_answers Flowquery.sessions_declarative (by decide) process
  exact ⟨performed, left, mresult, uresult, process, sizes, merged, ungrouped, answers⟩

end Nfql.Emit
