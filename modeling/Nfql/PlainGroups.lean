import Nfql.EngineStages

set_option autoImplicit false

/- The groups that the branches leave for the merger when no aggregations are computed, said
of the trace. -/
namespace Nfql

section Groups

/-- A group of a run of records, as the grouper leaves it without aggregations. -/
def Branch.plainGroup (io : IoHandler) (branch : Branch) (run : List RecordPtr) : Group :=
  let span := Span.ofMembers io run
  ⟨run, ⟨⟨branch.commonRecord run, span.startTs, span.endTs⟩, none⟩⟩

variable (libc : Libc) (io : IoHandler) (branchset : List Branch) (trace : List Record)

/-- The runs of the records that pass the branch's filter, as its grouper sorts them. -/
def Branch.traceRuns (branch : Branch) : List (List RecordPtr) :=
  branch.groupRuns libc GrouperFuncs.generated (branch.filtered io branchset trace)

/-- Those of their groups that pass the group filter. -/
def Branch.plainGroups (branch : Branch) : List Group :=
  ((branch.traceRuns libc io branchset trace).map (branch.plainGroup io)).filter branch.passes

/-- What the branch counts fits the types that it is counted in. -/
structure Branch.Countable (branch : Branch) : Prop where
  accepted : branch.acceptCount trace + 1 < 2 ^ 32
  single : branch.grouperClauseset = [] → branch.acceptCount trace ≤ intMax
  groups : (branch.traceRuns libc io branchset trace).length ≤ intMax

theorem cooked_plain (branch : Branch) (run : List RecordPtr) (group : Group)
    (cooked : Cooked libc io false branch run group) : group = branch.plainGroup io run := by
  obtain ⟨members, record, startTs, endTs, aggregated⟩ := cooked
  obtain ⟨members', ⟨aggrRecord, aggrset⟩⟩ := group
  obtain ⟨record', startTs', endTs'⟩ := aggrRecord
  have none : aggrset = none := by simpa using aggregated
  subst none
  subst members
  simp only [Group.record, Branch.groupRecord, Bool.false_eq_true, ↓reduceIte] at record
  simp only at startTs endTs
  rw [Branch.plainGroup, record, startTs, endTs]

variable {libc io branchset trace} {stages : Stages} (grouping : stages.grouperEnabled = true)
  (filtering : stages.groupfilterEnabled = true)
  (plain : stages.groupaggregationsEnabled = false) (branch : Branch) (member : branch ∈ branchset)

include grouping filtering plain member

theorem branchStart_plain (result : BranchResult)
    (success : branchStart libc io stages branch
      (some (FilterResult.of (branch.filtered io branchset trace))) = .ok result) :
    (branch.grouperClauseset = [] → branch.acceptCount trace ≤ intMax) ∧
      (branch.traceRuns libc io branchset trace).length ≤ intMax ∧
      result.gfilterResult =
        some (GroupfilterResult.of (branch.plainGroups libc io branchset trace)) := by
  have count : (branch.filtered io branchset trace).length = branch.acceptCount trace :=
    pointers_length branchset trace _ branch member
  obtain ⟨groups, grouped, inside, rfl⟩ :=
    (branchStart_ok_iff libc io grouping filtering branch _ result).mp success
  rw [plain] at grouped
  have feasible := grouper_feasible libc _ io false branch _ _ grouped
  obtain ⟨-, cooked⟩ := grouper_cooked libc _ io false branch _ _ grouped
  have made : (branch.traceRuns libc io branchset trace).map (branch.plainGroup io) = groups := by
    rw [← List.forall₂_eq_eq_eq, List.forall₂_map_left_iff]
    exact cooked.imp fun run group made => (cooked_plain libc io branch run group made).symm
  refine ⟨fun none => count ▸ feasible.single none, ?_, ?_⟩
  · rw [← made, List.length_map] at inside
    exact inside
  · rw [Branch.plainGroups, made]

theorem branchStart_countable (countable : branch.Countable libc io branchset trace) :
    ∃ result, branchStart libc io stages branch
      (some (FilterResult.of (branch.filtered io branchset trace))) = .ok result := by
  have count : (branch.filtered io branchset trace).length = branch.acceptCount trace :=
    pointers_length branchset trace _ branch member
  have limit : intMax < 2 ^ 32 := by decide
  have feasible : branch.Feasible libc GrouperFuncs.generated false
      (branch.filtered io branchset trace) :=
    ⟨lt_of_le_of_lt countable.groups limit, fun _ _ on => absurd on Bool.false_ne_true,
      fun none => count ▸ countable.single none⟩
  obtain ⟨groups, grouped, cooked⟩ := grouper_ok libc _ io false branch _ feasible
  have inside : groups.length ≤ intMax := by
    rw [← cooked.length_eq]
    exact countable.groups
  rw [← plain] at grouped
  exact ⟨_, (branchStart_ok_iff libc io grouping filtering branch _ _).mpr
    ⟨groups, grouped, inside, rfl⟩⟩

end Groups

section Merger

variable {libc : Libc} {io : IoHandler} {stages : Stages} {fquery : Flowquery} {trace : List Record}
  (grouping : stages.grouperEnabled = true) (filtering : stages.groupfilterEnabled = true)
  (plain : stages.groupaggregationsEnabled = false)

include grouping filtering plain

/-- The branches return exactly if they can count, and then leave those groups. -/
theorem branchesStart_plain_iff (branchset branches : List Branch)
    (members : ∀ branch ∈ branches, branch ∈ branchset)
    (accepted : ∀ branch ∈ branches, branch.acceptCount trace + 1 < 2 ^ 32)
    (groupsets : List (List Group)) :
    (∃ results, branchesStart libc io stages branches (branches.map fun branch =>
        some (FilterResult.of (branch.filtered io branchset trace))) = .ok results ∧
      gfilterResults results = .ok (groupsets.map GroupfilterResult.of)) ↔
      (∀ branch ∈ branches, branch.Countable libc io branchset trace) ∧
        groupsets = branches.map (Branch.plainGroups libc io branchset trace) := by
  induction branches generalizing groupsets with
  | nil =>
      constructor
      · rintro ⟨_, success, found⟩
        cases success
        refine ⟨by simp, ?_⟩
        have none := Except.ok.inj found
        exact List.map_eq_nil_iff.mp none.symm
      · rintro ⟨-, rfl⟩
        exact ⟨[], rfl, rfl⟩
  | cons branch rest ih =>
      obtain ⟨member, others⟩ := List.forall_mem_cons.mp members
      obtain ⟨few, fewer⟩ := List.forall_mem_cons.mp accepted
      constructor
      · rintro ⟨_, success, found⟩
        obtain ⟨result, head, success⟩ := bind_eq_ok success
        obtain ⟨remaining, tail, success⟩ := bind_eq_ok success
        cases success
        obtain ⟨single, groups, left⟩ :=
          branchStart_plain grouping filtering plain branch member result head
        rw [gfilterResults, left] at found
        obtain ⟨later, finds, found⟩ := bind_eq_ok found
        cases groupsets with
        | nil => cases found
        | cons groupset groupsets =>
            rw [List.map_cons, Except.ok.injEq, List.cons.injEq] at found
            obtain ⟨same, rfl⟩ := found
            obtain ⟨countable, rfl⟩ := (ih others fewer groupsets).mp ⟨remaining, tail, finds⟩
            have same : branch.plainGroups libc io branchset trace = groupset :=
              congrArg GroupfilterResult.filteredGroupset same
            refine ⟨List.forall_mem_cons.mpr ⟨⟨few, single, groups⟩, countable⟩, ?_⟩
            rw [List.map_cons, same]
      · rintro ⟨countable, rfl⟩
        obtain ⟨here, later⟩ := List.forall_mem_cons.mp countable
        obtain ⟨result, head⟩ := branchStart_countable grouping filtering plain branch member here
        obtain ⟨-, -, left⟩ := branchStart_plain grouping filtering plain branch member result head
        obtain ⟨remaining, tail, finds⟩ := (ih others fewer _).mpr ⟨later, rfl⟩
        refine ⟨result :: remaining, ?_, ?_⟩
        · simp only [List.map_cons, branchesStart, head, tail, ok_bind]
        · simp only [List.map_cons, gfilterResults, left, finds, ok_bind]

/-- Without aggregations a run leaves these groups for the merger, if all counts fit. -/
theorem leftForMerger_iff (reading : stages.filterEnabled = true) (groupsets : List (List Group)) :
    LeftForMerger libc io stages fquery trace groupsets ↔
      (∀ branch ∈ fquery.branchset, branch.Countable libc io fquery.branchset trace) ∧
        groupsets = fquery.branchset.map (Branch.plainGroups libc io fquery.branchset trace) := by
  constructor
  · rintro ⟨data, filterResults, results, read, branches, found⟩
    rw [reading] at read
    obtain ⟨accepted, -, rfl⟩ := readTrace_result io fquery.branchset trace data filterResults read
    exact (branchesStart_plain_iff grouping filtering plain fquery.branchset fquery.branchset
      (fun _ member => member) accepted groupsets).mp ⟨results, branches, found⟩
  · rintro ⟨countable, same⟩
    have accepted : ∀ branch ∈ fquery.branchset, branch.acceptCount trace + 1 < 2 ^ 32 :=
      fun branch member => (countable branch member).accepted
    obtain ⟨results, branches, found⟩ := (branchesStart_plain_iff grouping filtering plain
      fquery.branchset fquery.branchset (fun _ member => member) accepted groupsets).mpr
        ⟨countable, same⟩
    have read := readTrace_run io fquery.branchset trace accepted
    exact ⟨_, _, results, by rw [reading]; exact read, branches, found⟩

end Merger

end Nfql
