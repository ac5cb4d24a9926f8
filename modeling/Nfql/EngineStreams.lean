import Nfql.Engine
import Nfql.MergerTuples
import Nfql.GroupFields

set_option autoImplicit false

/- Where the records of the output streams come from. -/
namespace Nfql

section Branches

variable (libc : Libc) (io : IoHandler) (groupaggregationsEnabled : Bool)
  (branchset : List Branch) (trace : List Record)

/-- The records a branch's filter hands to its grouper. -/
def Branch.filtered (branch : Branch) : List RecordPtr :=
  branch.pointers (savedRecords io.readGetRecordSize branchset trace)

/-- A group of the branch, complete, that passes its group filter. Its members are
copies of different trace records that pass the branch's filter. -/
structure SoundGroup (branch : Branch) (gresult : GrouperResult) (group : Group) : Prop where
  complete : group ∈ gresult.groupset
  passes : branch.passes group = true
  nonempty : group.members ≠ []
  copies : ∀ item ∈ group.members, ∃ entry ∈ savedRecords io.readGetRecordSize branchset trace,
    entry.2 = item ∧ entry.1 ∈ trace ∧ branch.accepts entry.1 = true ∧
      item.record = copyRecord io.readGetRecordSize entry.1
  distinct : (group.members.map RecordPtr.index).Nodup

/-- The thread of a branch left its groups and those that pass the group filter. -/
def BranchSound (branch : Branch) (result : BranchResult) : Prop :=
  ∃ gresult kept, result = ⟨some gresult, some (GroupfilterResult.of kept)⟩ ∧
    ∀ group ∈ kept, SoundGroup io branchset trace branch gresult group

theorem filtered_distinct (branch : Branch) :
    ((branch.filtered io branchset trace).map RecordPtr.index).Nodup := by
  have all := savedRecords_nodup branchset trace io.readGetRecordSize
  rw [Branch.filtered, Branch.pointers, List.map_map]
  exact all.sublist (List.filter_sublist.map _)

theorem filtered_copies (branch : Branch) (item : RecordPtr)
    (member : item ∈ branch.filtered io branchset trace) :
    ∃ entry ∈ savedRecords io.readGetRecordSize branchset trace,
      entry.2 = item ∧ entry.1 ∈ trace ∧ branch.accepts entry.1 = true ∧
        item.record = copyRecord io.readGetRecordSize entry.1 := by
  obtain ⟨entry, inside, rfl⟩ := List.mem_map.mp member
  obtain ⟨saved, accepts⟩ := List.mem_filter.mp inside
  have traced : entry.1 ∈ trace.filter (keep branchset) := by
    rw [← savedRecords_records branchset trace io.readGetRecordSize]
    exact List.mem_map_of_mem saved
  exact ⟨entry, saved, rfl, (List.mem_filter.mp traced).1, accepts,
    (savedRecords_valid branchset trace io.readGetRecordSize entry saved).2⟩

/-- A branch with a grouper and a group filter leaves its groups and those of them that pass,
if the group filter can count them. -/
theorem branchStart_ok_iff {stages : Stages} (grouping : stages.grouperEnabled = true)
    (filtering : stages.groupfilterEnabled = true) (branch : Branch) (records : List RecordPtr)
    (result : BranchResult) :
    branchStart libc io stages branch (some (FilterResult.of records)) = .ok result ↔
      ∃ groups, grouper libc GrouperFuncs.generated io stages.groupaggregationsEnabled branch
          (FilterResult.of records) = .ok ⟨groups.length, groups⟩ ∧
        groups.length ≤ intMax ∧ result = ⟨some ⟨groups.length, groups⟩,
          some (GroupfilterResult.of (groups.filter branch.passes))⟩ := by
  constructor
  · intro success
    obtain ⟨grouperResult, run, success⟩ := bind_eq_ok success
    simp only [branchGrouper, grouping, ↓reduceIte] at run
    obtain ⟨⟨numGroups, groups⟩, grouped, run⟩ := bind_eq_ok run
    cases run
    obtain ⟨gfilterResult, run, success⟩ := bind_eq_ok success
    cases success
    simp only [branchGroupfilter, filtering, ↓reduceIte] at run
    obtain ⟨kept, filtered, run⟩ := bind_eq_ok run
    cases run
    obtain rfl : numGroups = groups.length :=
      (grouper_partition libc _ io _ branch _ _ grouped).numGroups
    have inside := groupfilter_inRange branch groups kept filtered
    rw [groupfilter_ok branch groups inside, Except.ok.injEq] at filtered
    subst filtered
    exact ⟨groups, grouped, inside, rfl⟩
  · rintro ⟨groups, grouped, inside, rfl⟩
    simp only [branchStart, branchGrouper, branchGroupfilter, grouping, filtering, ↓reduceIte,
      grouped, groupfilter_ok branch groups inside, ok_bind, GroupfilterResult.of]

theorem branchStart_sound (branch : Branch) (result : BranchResult)
    (success : branchStart libc io (Stages.all groupaggregationsEnabled) branch
      (some (FilterResult.of (branch.filtered io branchset trace))) = .ok result) :
    BranchSound io branchset trace branch result := by
  obtain ⟨groups, grouped, -, rfl⟩ :=
    (branchStart_ok_iff libc io rfl rfl branch _ result).mp success
  refine ⟨_, _, rfl, ?_⟩
  intro group member
  obtain ⟨complete, passes⟩ := List.mem_filter.mp member
  obtain ⟨run, -⟩ := grouper_group libc _ io _ branch _ _ grouped group complete
  obtain ⟨sorted, perm, sublist⟩ := groupRuns_sublist libc _ branch _ _ run
  refine ⟨complete, passes, groupRuns_nonempty libc _ branch _ _ run, ?_, ?_⟩
  · intro item member
    exact filtered_copies io branchset trace branch item (perm.mem_iff.mp (sublist.subset member))
  · have distinct := filtered_distinct io branchset trace branch
    exact ((perm.map _).nodup_iff.mpr distinct).sublist (sublist.map _)

/-- The threads of all branches, each on its own filter result. -/
theorem branchesStart_sound (branches : List Branch) (results : List BranchResult)
    (success : branchesStart libc io (Stages.all groupaggregationsEnabled) branches
      (branches.map fun branch => some (FilterResult.of (branch.filtered io branchset trace))) =
        .ok results) :
    List.Forall₂ (BranchSound io branchset trace) branches results := by
  induction branches generalizing results with
  | nil => cases success; exact List.Forall₂.nil
  | cons branch rest ih =>
      obtain ⟨result, head, success⟩ := bind_eq_ok success
      obtain ⟨others, later, success⟩ := bind_eq_ok success
      cases success
      exact List.Forall₂.cons
        (branchStart_sound libc io groupaggregationsEnabled branchset trace branch result head)
        (ih others later)

/-- The merger finds the filtered groups of every branch. -/
theorem gfilterResults_sound (branches : List Branch) (results : List BranchResult)
    (sound : List.Forall₂ (BranchSound io branchset trace) branches results) :
    ∃ groupsets, gfilterResults results = .ok (groupsets.map GroupfilterResult.of) ∧
      List.Forall₂ (fun result kept => result.gfilterResult = some (GroupfilterResult.of kept))
        results groupsets := by
  induction sound with
  | nil => exact ⟨[], rfl, List.Forall₂.nil⟩
  | cons head _ ih =>
      obtain ⟨gresult, kept, rfl, -⟩ := head
      obtain ⟨groupsets, run, later⟩ := ih
      exact ⟨kept :: groupsets, by simp only [gfilterResults, run, ok_bind, List.map_cons],
        List.Forall₂.cons rfl later⟩

end Branches

section Streams

variable (libc : Libc) (io : IoHandler) (groupaggregationsEnabled : Bool) (fquery : Flowquery)
  (trace : List Record)

/-- A stream is the concatenation, in branch order, of one sound group per branch. -/
structure SoundStream (branchResults : List BranchResult) (tuple : List Group)
    (stream : Stream) : Prop where
  branches : tuple.length = fquery.branchset.length
  segments : ∀ (position : Nat) (group : Group), tuple[position]? = some group →
    ∃ branch result gresult, fquery.branchset[position]? = some branch ∧
      branchResults[position]? = some result ∧ result.grouperResult = some gresult ∧
      SoundGroup io fquery.branchset trace branch gresult group
  recordset : (concatenated tuple).length < 2 ^ 32 → stream.recordset = concatenated tuple
  numRecords : (concatenated tuple).length < 2 ^ 32 →
    stream.numRecords = (tuple.map fun group => group.members.length).sum

/-- One sound stream for each merged tuple. -/
def SoundStreams (result : EngineResult) : Prop :=
  ∃ mresult uresult, result.mergerResult = some mresult ∧
    result.ungrouperResult = some uresult ∧
    uresult.numStreams = mresult.groupTuples.length ∧
    mresult.numGroupTuples = mresult.groupTuples.length ∧
    List.Forall₂ (SoundStream io fquery trace result.branchResults) mresult.groupTuples
      uresult.streamset

private theorem segments_of_tupleOf (branches : List Branch) (results : List BranchResult)
    (groupsets : List (List Group)) (tuple : List Group)
    (sound : List.Forall₂ (BranchSound io fquery.branchset trace) branches results)
    (found : List.Forall₂
      (fun result kept => result.gfilterResult = some (GroupfilterResult.of kept)) results groupsets)
    (chosen : TupleOf (groupsets.map GroupfilterResult.of) tuple) :
    tuple.length = branches.length ∧
      ∀ (position : Nat) (group : Group), tuple[position]? = some group →
        ∃ branch result gresult, branches[position]? = some branch ∧
          results[position]? = some result ∧ result.grouperResult = some gresult ∧
          SoundGroup io fquery.branchset trace branch gresult group := by
  induction sound generalizing groupsets tuple with
  | nil =>
      rw [List.forall₂_nil_left_iff.mp found] at chosen
      rw [List.forall₂_nil_left_iff.mp chosen]
      exact ⟨rfl, fun position group impossible => by cases impossible⟩
  | cons head _ ih =>
      obtain ⟨kept, others, same, later, rfl⟩ := List.forall₂_cons_left_iff.mp found
      rw [List.map_cons] at chosen
      obtain ⟨group, rest, member, remaining, rfl⟩ := List.forall₂_cons_left_iff.mp chosen
      obtain ⟨length, segments⟩ := ih others rest later remaining
      refine ⟨by rw [List.length_cons, List.length_cons, length], ?_⟩
      intro position segment located
      cases position with
      | zero =>
          obtain ⟨gresult, groups, rfl, sound⟩ := head
          have first : group = segment := Option.some.inj located
          have equal : groups = kept :=
            congrArg GroupfilterResult.filteredGroupset (Option.some.inj same)
          subst first equal
          exact ⟨_, _, gresult, rfl, rfl, rfl, sound _ member⟩
      | succ position => exact segments position segment located

theorem engine_sound (result : EngineResult)
    (success : engine libc io (Stages.all groupaggregationsEnabled) fquery trace = .ok result) :
    SoundStreams io fquery trace result := by
  obtain ⟨⟨data, filterResults⟩, filtered, success⟩ := bind_eq_ok success
  obtain ⟨-, -, rfl⟩ := readTrace_result io fquery.branchset trace data filterResults filtered
  obtain ⟨branchResults, branches, success⟩ := bind_eq_ok success
  obtain ⟨mergerResult, merged, success⟩ := bind_eq_ok success
  obtain ⟨ungrouperResult, ungrouped, success⟩ := bind_eq_ok success
  cases success
  have sound := branchesStart_sound libc io groupaggregationsEnabled fquery.branchset trace _ _
    branches
  obtain ⟨groupsets, found, same⟩ := gfilterResults_sound io fquery.branchset trace _ _ sound
  rw [engineMerger, Stages.all, if_pos rfl, found, ok_bind] at merged
  obtain ⟨mresult, run, merged⟩ := bind_eq_ok merged
  cases merged
  rw [engineUngrouper, Stages.all, if_pos rfl] at ungrouped
  obtain ⟨uresult, streams, ungrouped⟩ := bind_eq_ok ungrouped
  cases ungrouped
  have valid := merger_valid _ _ _ mresult run
  obtain ⟨count, each⟩ := ungrouper_each _ mresult uresult valid.numGroupTuples streams
  refine ⟨mresult, uresult, rfl, rfl, count, valid.numGroupTuples, ?_⟩
  rw [List.forall₂_iff_get] at each ⊢
  refine ⟨each.1, ?_⟩
  intro index inside insideStream
  have stream := each.2 index inside insideStream
  have tuple := valid.tuples _ (List.get_mem mresult.groupTuples ⟨index, inside⟩)
  obtain ⟨length, segments⟩ := segments_of_tupleOf io fquery trace _ _ groupsets _ sound same tuple
  have exact : (concatenated (mresult.groupTuples.get ⟨index, inside⟩)).length < 2 ^ 32 →
      uresult.streamset.get ⟨index, insideStream⟩ =
        ⟨(concatenated (mresult.groupTuples.get ⟨index, inside⟩)).length,
          concatenated (mresult.groupTuples.get ⟨index, inside⟩)⟩ := by
    intro room
    have nonempty : ∀ group ∈ mresult.groupTuples.get ⟨index, inside⟩, group.members ≠ [] := by
      intro group member
      obtain ⟨position, found⟩ := List.mem_iff_getElem?.mp member
      obtain ⟨_, _, _, _, _, _, segment⟩ := segments position group found
      exact segment.nonempty
    rw [← length, ungroupTuple_ok _ nonempty room, Except.ok.injEq] at stream
    exact stream.symm
  refine ⟨length, segments, ?_, ?_⟩
  · intro room
    rw [exact room]
  · intro room
    rw [exact room]
    exact List.length_flatMap

end Streams

end Nfql
