import Nfql.Refusals
import Nfql.StageContents

set_option autoImplicit false

/- What the result directory holds after a run. -/
namespace Nfql.Emit

open Emissions Interleavings OutputStreams Outcomes Odometer

section Contents

variable (options : OutputOptions) (fquery : Flowquery) (trace : List Record) (left : EngineLeft)
  (held : Directory ResultFile Record)

/-- The files of a branch's thread hold what it leaves in memory, apart from the group
members that are never written. -/
structure BranchHolds (branch : Branch) (branchId : Nat) (branchLeft : BranchLeft) : Prop where
  groups : options.verboseV = true → ∀ left, branchLeft.grouperLeft = some left →
    left.gresult.groupset ≠ [] →
      held (.grouper (.groups branchId)) = some (left.gresult.groupset.map Group.record)
  sorted : options.verboseVv = true → ∀ left, branchLeft.grouperLeft = some left →
    left.gresult.groupset ≠ [] → branch.grouperClauseset ≠ [] →
      held (.grouper (.sortedRecords branchId)) =
        some (left.sortedRecordset.map RecordPtr.record)
  members : options.verboseVv = true → ∀ left, branchLeft.grouperLeft = some left →
    ∀ number group, left.gresult.groupset[number]? = some group →
      held (.grouper (Output.memberFile branchId (number + 1))) =
        some ((Output.writtenMembers branch group.members).map RecordPtr.record)
  filteredGroups : options.verboseV = true → ∀ gfilterResult,
    branchLeft.gfilterResult = some gfilterResult →
      held (.filteredGroups branchId) =
        some (gfilterResult.filteredGroupset.map Group.record)

/-- Where every branch has filtered groups, the merger's files hold their tuples: those
that are merged, and all of them. -/
structure MergerHolds (mresult : MergerResult) (groupsets : List (List Group)) : Prop where
  merged : options.verboseV = true →
    held .mergedGroups = some (mresult.groupTuples.flatten.map Group.record)
  toBeMerged : options.verboseVv = true →
    held .toBeMergedGroups = some ((product groupsets).flatten.map Group.record)

/-- The result directory after a run that leaves this in memory. Streams are written
whatever the verbosity, and those of earlier runs stay if they have higher numbers. -/
structure DirectoryHolds (before : Directory ResultFile Record) : Prop where
  filteredRecords : options.verboseV = true → ∀ branchId branch,
    fquery.branchset[branchId]? = some branch →
      held (.filteredRecords branchId) = some (trace.filter branch.accepts)
  branches : ∀ branchId branch branchLeft, fquery.branchset[branchId]? = some branch →
    left.branchLefts[branchId]? = some branchLeft →
      BranchHolds options held branch branchId branchLeft
  merger : ∀ mresult groupsets, left.mergerResult = some mresult →
    left.branchLefts.map BranchLeft.gfilterResult =
      groupsets.map (some ∘ GroupfilterResult.of) →
    groupsets ≠ [] → (∀ groupset ∈ groupsets, groupset ≠ []) →
      MergerHolds options held mresult groupsets
  streams : ∀ mresult uresult, left.mergerResult = some mresult →
    left.ungrouperResult = some uresult → ∀ (index : Nat) tuple,
      mresult.groupTuples[index]? = some tuple → (concatenated tuple).length < 2 ^ 32 →
        ∃ stream, uresult.streamset[index]? = some stream ∧
          stream.numRecords = stream.recordset.length ∧
          stream.recordset = concatenated tuple ∧
          held (.stream index) = some (stream.recordset.map RecordPtr.record)
  stale : ∀ mresult, left.mergerResult = some mresult → ∀ index,
    mresult.groupTuples.length ≤ index → held (.stream index) = before (.stream index)

end Contents

section Threads

variable (options : OutputOptions) (directory : options.file = true) (libc : Libc) (io : IoHandler)
  (stages : Stages) (branch : Branch) (branchId : Nat) (files : Files)

include directory in
/-- The files of a grouper that succeeds. -/
theorem grouper_holds (funcs : GrouperFuncs) (groupaggregationsEnabled : Bool)
    (fresult : FilterResult) (left : Left)
    (success : (grouper options libc funcs io groupaggregationsEnabled branch branchId
      fresult).result = .ok left) (gfilterResult : Option GroupfilterResult)
    (held : Directory ResultFile Record)
    (same : ∀ file, held (.grouper file) = replay (grouper options libc funcs io
      groupaggregationsEnabled branch branchId fresult).actions (options.holds files)
        (.grouper file))
    (filtered : options.verboseV = true → ∀ kept, gfilterResult = some kept →
      held (.filteredGroups branchId) = some (kept.filteredGroupset.map Group.record)) :
    BranchHolds options held branch branchId ⟨some left, gfilterResult⟩ := by
  have written := grouper_writes options libc funcs io groupaggregationsEnabled branch branchId
    fresult files
  rw [OutputOptions.outcome, success] at written
  obtain ⟨gresult, -, leaves⟩ := Output.grouper_leaves options libc funcs io
    groupaggregationsEnabled branch branchId fresult files _ written
  have contents (file : StageFile) : held (.grouper file) =
      options.contents (options.leave (grouper options libc funcs io groupaggregationsEnabled branch
        branchId fresult).actions files) file := by
    rw [same, ← holds_leave options _ files _ directory]
    rfl
  have positive (some_group : left.gresult.groupset ≠ []) : 0 < fresult.numFilteredRecords := by
    by_contra none
    rw [grouper, if_neg none] at success
    cases success
    exact some_group rfl
  refine ⟨?_, ?_, ?_, filtered⟩
  · rintro set _ ⟨⟩ some_group
    rw [contents]
    exact (leaves.files (positive some_group)).groups directory set
  · rintro set _ ⟨⟩ some_group given
    rw [contents]
    exact leaves.sorted (positive some_group) given directory set
  · rintro set _ ⟨⟩ number group found
    rw [contents]
    refine (leaves.files (positive ?_)).members directory set number group found
    intro none
    rw [none] at found
    cases found

include directory in
theorem branchGroupfilter_fills (grouperLeft : Option Left) (selected : GroupfilterResult)
    (set : options.verboseV = true)
    (filtered : (branchGroupfilter options branch branchId stages grouperLeft).result =
      .ok (some selected)) (before : Option (List Record)) :
    content (.filteredGroups branchId)
        (branchGroupfilter options branch branchId stages grouperLeft).actions before =
      some (selected.filteredGroupset.map Group.record) := by
  unfold branchGroupfilter at filtered ⊢
  split at filtered
  · rename_i enabled
    rw [if_pos enabled]
    cases grouperLeft with
    | none => cases filtered
    | some left =>
        dsimp only at filtered ⊢
        rw [Emitted.bind_result] at filtered
        obtain ⟨_, run, same⟩ := bind_eq_ok filtered
        cases same
        rw [Emitted.bind_actions_of_ok _ run, content_append]
        exact groupfilter_fills options branch branchId (by rw [set, directory]; rfl) left.gresult
          _ selected run
  · cases filtered

include directory in
/-- The files of a branch's thread that succeeds. -/
theorem branchStart_holds (filterResult : Option FilterResult) (branchLeft : BranchLeft)
    (success : (branchStart options branch branchId libc io stages filterResult).result =
      .ok branchLeft) :
    BranchHolds options
      (replay (branchStart options branch branchId libc io stages filterResult).actions
        (options.holds files)) branch branchId branchLeft := by
  rw [branchStart, Emitted.bind_result] at success
  obtain ⟨grouperLeft, grouped, success⟩ := bind_eq_ok success
  rw [Emitted.bind_result] at success
  obtain ⟨gfilterResult, filtered, success⟩ := bind_eq_ok success
  cases success
  have actions : (branchStart options branch branchId libc io stages filterResult).actions =
      (branchGrouper options branch branchId libc io stages filterResult).actions ++
        (branchGroupfilter options branch branchId stages grouperLeft).actions := by
    rw [branchStart, Emitted.bind_actions_of_ok _ grouped, Emitted.bind_actions_of_ok _ filtered]
    exact congrArg _ (List.append_nil _)
  have kept : Streams (fun file => file = .filteredGroups branchId) 2 ∅
      (branchGroupfilter options branch branchId stages grouperLeft) ∅ :=
    branchGroupfilter_streams options branch branchId (by rfl) stages grouperLeft
  have groupfiles : options.verboseV = true → ∀ selected, gfilterResult = some selected →
      replay (branchStart options branch branchId libc io stages filterResult).actions
        (options.holds files) (.filteredGroups branchId) =
          some (selected.filteredGroupset.map Group.record) := by
    rintro set selected rfl
    rw [actions, replay_append, replay_content]
    exact branchGroupfilter_fills options directory stages branch branchId grouperLeft selected set
      filtered _
  cases grouperLeft with
  | none => exact ⟨by rintro _ _ ⟨⟩, by rintro _ _ ⟨⟩, by rintro _ _ ⟨⟩, groupfiles⟩
  | some left =>
      unfold branchGrouper at grouped
      split at grouped
      · rename_i enabled
        cases filterResult with
        | none => cases grouped
        | some fresult =>
            dsimp only at grouped
            rw [Emitted.bind_result] at grouped
            obtain ⟨_, run, same⟩ := bind_eq_ok grouped
            cases same
            refine grouper_holds options directory libc io branch branchId files _ _ fresult left
              run gfilterResult _ (fun file => ?_) groupfiles
            rw [actions, replay_append, streams_untouched kept (by simp)]
            rw [branchGrouper, if_pos enabled, Emitted.bind_actions_of_ok _ run]
            exact congrArg (fun actions => replay actions (options.holds files) (.grouper file))
              (List.append_nil _)
      · cases grouped

end Threads

section Joined

variable (options : OutputOptions) (stages : Stages) (fquery : Flowquery)
  (branchLefts : List BranchLeft) (before : Directory ResultFile Record)
  {mergerResult : Option MergerResult} {ungrouperResult : Option UngrouperResult}
  (success : (joined options stages fquery branchLefts).result =
    .ok (mergerResult, ungrouperResult))

include success in
theorem joined_parts :
    (engineMerger options stages fquery branchLefts).result = .ok mergerResult ∧
      (engineUngrouper options stages fquery mergerResult).result = .ok ungrouperResult ∧
      (joined options stages fquery branchLefts).actions =
        (engineMerger options stages fquery branchLefts).actions ++
          (engineUngrouper options stages fquery mergerResult).actions := by
  rw [joined, Emitted.bind_result] at success
  obtain ⟨merged, merging, success⟩ := bind_eq_ok success
  rw [Emitted.bind_result] at success
  obtain ⟨ungrouped, ungrouping, success⟩ := bind_eq_ok success
  cases success
  refine ⟨merging, ungrouping, ?_⟩
  rw [joined, Emitted.bind_actions_of_ok _ merging, Emitted.bind_actions_of_ok _ ungrouping]
  exact congrArg _ (List.append_nil _)

/-- The groups that the merger finds, if every branch has some. -/
theorem gfilterResults_some (results : List BranchResult) (groupsets : List (List Group))
    (found : results.map BranchResult.gfilterResult =
      groupsets.map (some ∘ GroupfilterResult.of)) :
    gfilterResults results = .ok (groupsets.map GroupfilterResult.of) := by
  induction results generalizing groupsets with
  | nil =>
      cases groupsets with
      | nil => rfl
      | cons groupset rest => cases found
  | cons result rest ih =>
      cases groupsets with
      | nil => cases found
      | cons groupset others =>
          rw [List.map_cons, List.map_cons, List.cons.injEq] at found
          rw [gfilterResults, found.1, ih others found.2]
          rfl

include success in
/-- What the merger writes stays as the ungrouper has files of its own. -/
theorem joined_merger (directory : options.file = true) (mresult : MergerResult)
    (left : mergerResult = some mresult) (groupsets : List (List Group))
    (found : branchLefts.map BranchLeft.gfilterResult =
      groupsets.map (some ∘ GroupfilterResult.of))
    (some_branch : groupsets ≠ []) (nonempty : ∀ groupset ∈ groupsets, groupset ≠ []) :
    MergerHolds options (replay (joined options stages fquery branchLefts).actions before) mresult
      groupsets := by
  obtain ⟨merging, -, actions⟩ := joined_parts options stages fquery branchLefts success
  have kept : Streams (fun file => file.kind = "/ungroupe") 2 ∅
      (engineUngrouper options stages fquery mergerResult) ∅ :=
    engineUngrouper_streams (fun _ => rfl) mergerResult
  have results : gfilterResults (branchLefts.map BranchLeft.plain) =
      .ok (groupsets.map GroupfilterResult.of) := by
    refine gfilterResults_some _ groupsets ?_
    rw [List.map_map]
    exact found
  subst left
  unfold engineMerger at merging
  split at merging
  · rename_i enabled
    rw [results, Emitted.bind_result] at merging
    obtain ⟨_, same, merging⟩ := bind_eq_ok merging
    cases same
    rw [Emitted.bind_result] at merging
    obtain ⟨_, run, same⟩ := bind_eq_ok merging
    cases same
    have written : (engineMerger options stages fquery branchLefts).actions =
        (merger options MergerTerm.func fquery.mergerClauseset
          (groupsets.map GroupfilterResult.of)).actions := by
      rw [engineMerger, if_pos enabled, results, Emitted.bind_actions_of_ok _ rfl,
        Emitted.bind_actions_of_ok _ run]
      exact List.append_nil _
    constructor
    · intro set
      rw [actions, replay_append, streams_untouched kept (by simp only [ResultFile.kind]; decide),
        written, replay_content]
      exact merger_fills_merged options _ _ groupsets nonempty some_branch _
        (by rw [set, directory]; rfl) _ run
    · intro set
      rw [actions, replay_append, streams_untouched kept (by simp only [ResultFile.kind]; decide),
        written, replay_content]
      exact merger_fills_toBeMerged options _ _ groupsets nonempty some_branch _
        (by rw [set, directory]; rfl) _ run
  · cases merging

include success in
/-- The ungrouper's files hold the streams, and only those of the tuples are changed. -/
theorem joined_streams_hold (directory : options.file = true) (mresult : MergerResult)
    (left : mergerResult = some mresult)
    (exact : mresult.numGroupTuples = mresult.groupTuples.length)
    (wide : ∀ tuple ∈ mresult.groupTuples, tuple.length ≤ fquery.branchset.length) :
    (∀ uresult, ungrouperResult = some uresult → ∀ (index : Nat) tuple,
      mresult.groupTuples[index]? = some tuple → (concatenated tuple).length < 2 ^ 32 →
        ∃ stream, uresult.streamset[index]? = some stream ∧
          stream.numRecords = stream.recordset.length ∧
          stream.recordset = concatenated tuple ∧
          replay (joined options stages fquery branchLefts).actions before (.stream index) =
            some (stream.recordset.map RecordPtr.record)) ∧
      ∀ index, mresult.groupTuples.length ≤ index →
        replay (joined options stages fquery branchLefts).actions before (.stream index) =
          before (.stream index) := by
  obtain ⟨-, ungrouping, actions⟩ := joined_parts options stages fquery branchLefts success
  have kept : Streams (fun file => file.kind = "/merger-m" ∨ file.kind = "/merger-t") 2 ∅
      (engineMerger options stages fquery branchLefts) ∅ :=
    engineMerger_streams (.inl rfl) (.inr rfl) branchLefts
  have start (index : Nat) : replay (engineMerger options stages fquery branchLefts).actions before
      (.stream index) = before (.stream index) :=
    streams_untouched kept (by simp only [ResultFile.kind]; decide) before
  subst left
  unfold engineUngrouper at ungrouping actions
  split at ungrouping
  · rename_i enabled
    rw [if_pos enabled] at actions
    rw [Emitted.bind_result] at ungrouping
    obtain ⟨uresult, run, same⟩ := bind_eq_ok ungrouping
    cases same
    obtain ⟨tuples, written⟩ := ungrouper_parts options fquery.branchset.length mresult exact
      uresult run
    have whole (index : Nat) :
        replay (joined options stages fquery branchLefts).actions before (.stream index) =
          content (.stream index)
            (ungroupTuples options fquery.branchset.length 0 mresult.groupTuples).actions
              (before (.stream index)) := by
      rw [actions, replay_append, replay_content, start, Emitted.bind_actions_of_ok _ run, ← written]
      exact congrArg (fun actions => content _ actions _) (List.append_nil _)
    constructor
    · rintro _ ⟨⟩ index tuple found room
      have short := List.take_of_length_le (wide tuple (List.mem_of_getElem? found))
      have filled := ungroupTuples_fills options directory fquery.branchset.length 0 index
        mresult.groupTuples tuple found (by rwa [short]) (before (.stream index))
      rw [Nat.zero_add, short] at filled
      rw [whole]
      exact filled _ tuples
    · intro index beyond
      rw [whole]
      exact ungroupTuples_fills_other options fquery.branchset.length 0 index mresult.groupTuples
        (.inr (by omega)) _ _ tuples
  · rename_i disabled
    cases ungrouping
    rw [if_neg disabled] at actions
    refine ⟨by rintro _ ⟨⟩, fun index _ => ?_⟩
    rw [actions, replay_append]
    exact start index

end Joined

section Whole

variable {options : OutputOptions} {libc : Libc} {io : IoHandler} {stages : Stages}
  {fquery : Flowquery} {trace : List Record}

theorem gfilterResults_length (results : List BranchResult) (found : List GroupfilterResult)
    (success : gfilterResults results = .ok found) : found.length = results.length := by
  induction results generalizing found with
  | nil => cases success; rfl
  | cons result rest ih =>
      rw [gfilterResults] at success
      split at success
      · cases success
      · obtain ⟨others, run, success⟩ := bind_eq_ok success
        cases success
        rw [List.length_cons, List.length_cons, ih others run]

/-- The merger of a run counts its tuples exactly, one group for each branch. -/
theorem merged_tuples (filterResults : List (Option FilterResult)) (branchLefts : List BranchLeft)
    (lefts : ∀ branchId,
      (thread options libc io stages fquery.branchset filterResults branchId).result =
        .ok branchLefts[branchId]?) (mresult : MergerResult)
    (ungrouperResult : Option UngrouperResult)
    (success : (joined options stages fquery branchLefts).result =
      .ok (some mresult, ungrouperResult)) :
    mresult.numGroupTuples = mresult.groupTuples.length ∧
      ∀ tuple ∈ mresult.groupTuples, tuple.length ≤ fquery.branchset.length := by
  have branches := threads_plain filterResults branchLefts lefts
  have lengths := ((branchesStart_ok_iff libc io stages _ _ _).mp branches).length_eq
  rw [List.length_zip, List.length_map] at lengths
  rw [joined_result options filterResults branchLefts branches] at success
  obtain ⟨_, merged, success⟩ := bind_eq_ok success
  obtain ⟨_, -, success⟩ := bind_eq_ok success
  cases success
  unfold Nfql.engineMerger at merged
  split at merged
  · obtain ⟨gresults, found, merged⟩ := bind_eq_ok merged
    obtain ⟨_, run, same⟩ := bind_eq_ok merged
    cases same
    have valid := merger_valid _ _ _ mresult run
    have count := gfilterResults_length _ gresults found
    rw [List.length_map] at count
    refine ⟨valid.numGroupTuples, fun tuple member => ?_⟩
    have width := (valid.tuples tuple member).length_eq
    omega
  · cases merged

section Frames

variable (file : ResultFile) (before : Directory ResultFile Record)

theorem read_other (other : file.kind ≠ "/filter-b") :
    replay (readTrace options stages.filterEnabled io fquery.branchset trace).actions before file =
      before file := by
  have kept : Streams (fun file => file.kind = "/filter-b") fquery.branchset.length ∅
      (readTrace options stages.filterEnabled io fquery.branchset trace) ∅ :=
    readTrace_streams options (fun _ => rfl) stages.filterEnabled io fquery.branchset trace
  exact streams_untouched kept other before

theorem schedule_other (filterResults : List (Option FilterResult))
    (schedule : List (StreamOp ResultFile Record))
    (run : Interleaves (fun branchId =>
      (thread options libc io stages fquery.branchset filterResults branchId).actions) schedule)
    (other : ¬ (file.kind = "/grouper-" ∨ file.kind = "/groupfil")) :
    replay schedule before file = before file := by
  have kept : Streams (fun file => file.kind = "/grouper-" ∨ file.kind = "/groupfil") _ ∅
      (thread options libc io stages fquery.branchset filterResults file.branchId) ∅ :=
    thread_streams options libc io stages fquery.branchset filterResults file.branchId (.inr rfl)
      fun _ _ => .inl rfl
  rw [interleaved_replay ResultFile.branchId run
    (threads_owned options libc io stages fquery.branchset filterResults)]
  exact streams_untouched kept other before

theorem joined_other (branchLefts : List BranchLeft)
    (other : ¬ (file.kind = "/merger-m" ∨ file.kind = "/merger-t" ∨ file.kind = "/ungroupe")) :
    replay (joined options stages fquery branchLefts).actions before file = before file := by
  have kept : Streams
      (fun file => file.kind = "/merger-m" ∨ file.kind = "/merger-t" ∨ file.kind = "/ungroupe") 2 ∅
      (joined options stages fquery branchLefts) ∅ :=
    joined_streams (.inl rfl) (.inr (.inl rfl)) (fun _ => .inr (.inr rfl)) branchLefts
  exact streams_untouched kept other before

end Frames

/-- A branch's files hold what its thread has left, when other files have been read and
written around them. -/
theorem thread_holds (directory : options.file = true) (filterResults : List (Option FilterResult))
    (branchId : Nat) (branch : Branch) (branchLeft : BranchLeft)
    (found : fquery.branchset[branchId]? = some branch)
    (left : (thread options libc io stages fquery.branchset filterResults branchId).result =
      .ok (some branchLeft)) (files : Files) :
    BranchHolds options
      (replay (thread options libc io stages fquery.branchset filterResults branchId).actions
        (options.holds files)) branch branchId branchLeft := by
  unfold thread at left ⊢
  cases entry : (fquery.branchset.zip filterResults)[branchId]? with
  | none =>
      rw [entry] at left
      cases left
  | some entry' =>
      obtain ⟨branch', filterResult⟩ := entry'
      rw [entry, branchThread_some] at left
      obtain ⟨branchLeft', run, same⟩ := bind_eq_ok left
      cases same
      have same : branch' = branch := by
        have first := (List.getElem?_zip_eq_some.mp entry).1
        rwa [found, Option.some.injEq, eq_comm] at first
      subst same
      have actions : (branchThread options libc io stages branchId
          (some (branch', filterResult))).actions =
          (branchStart options branch' branchId libc io stages filterResult).actions := by
        rw [branchThread, Emitted.bind_actions_of_ok _ run]
        exact List.append_nil _
      rw [actions]
      exact branchStart_holds options directory libc io stages branch' branchId files filterResult
        branchLeft run

variable {ops : List (StreamOp ResultFile Record)} {left : EngineLeft}
  (run : Run options libc io stages fquery trace ops (.ok left)) (directory : options.file = true)
  (files : Files)

include run directory in
/-- The parts of a run, and what they make of the result directory. -/
theorem run_replay : ∃ schedule,
    (readTrace options stages.filterEnabled io fquery.branchset trace).result =
      .ok (left.data, left.filterResults) ∧
    Interleaves (fun branchId =>
      (thread options libc io stages fquery.branchset left.filterResults branchId).actions)
        schedule ∧
    (∀ branchId,
      (thread options libc io stages fquery.branchset left.filterResults branchId).result =
        .ok left.branchLefts[branchId]?) ∧
    (joined options stages fquery left.branchLefts).result =
      .ok (left.mergerResult, left.ungrouperResult) ∧
    options.holds (options.leave ops files) =
      replay (joined options stages fquery left.branchLefts).actions (replay schedule
        (replay (readTrace options stages.filterEnabled io fquery.branchset trace).actions
          (options.holds files))) := by
  obtain ⟨schedule, read, interleaved, lefts, finished, rfl⟩ := run.parts
  refine ⟨schedule, read, interleaved, lefts, finished, ?_⟩
  rw [← replay_append, ← replay_append, ← List.append_assoc]
  exact funext fun file => holds_leave options _ files file directory

include run directory in
theorem run_filteredRecords (set : options.verboseV = true) (branchId : Nat) (branch : Branch)
    (found : fquery.branchset[branchId]? = some branch) :
    options.holds (options.leave ops files) (.filteredRecords branchId) =
      some (trace.filter branch.accepts) := by
  obtain ⟨schedule, read, interleaved, -, -, whole⟩ := run_replay run directory files
  rw [whole, joined_other _ _ _ (by simp only [ResultFile.kind]; decide),
    schedule_other _ _ _ schedule interleaved (by simp only [ResultFile.kind]; decide),
    replay_content]
  exact readTrace_fills options (by rw [set, directory]; rfl) stages.filterEnabled io
    fquery.branchset trace branchId branch found _ _ read

include run directory in
theorem run_branchHolds (branchId : Nat) (branch : Branch) (branchLeft : BranchLeft)
    (found : fquery.branchset[branchId]? = some branch)
    (leftHere : left.branchLefts[branchId]? = some branchLeft) :
    BranchHolds options (options.holds (options.leave ops files)) branch branchId branchLeft := by
  obtain ⟨schedule, -, interleaved, lefts, -, whole⟩ := run_replay run directory files
  have owned := threads_owned options libc io stages fquery.branchset left.filterResults
  have threaded := thread_holds directory left.filterResults branchId branch branchLeft found
    ((lefts branchId).trans (congrArg _ leftHere)) (options.leave
      (readTrace options stages.filterEnabled io fquery.branchset trace).actions files)
  have start : options.holds (options.leave
      (readTrace options stages.filterEnabled io fquery.branchset trace).actions files) =
      replay (readTrace options stages.filterEnabled io fquery.branchset trace).actions
        (options.holds files) := funext fun file => holds_leave options _ files file directory
  rw [start] at threaded
  rw [whole]
  have same (file : ResultFile) (own : file.branchId = branchId)
      (other : ¬ (file.kind = "/merger-m" ∨ file.kind = "/merger-t" ∨ file.kind = "/ungroupe")) :
      replay (joined options stages fquery left.branchLefts).actions
        (replay schedule (replay (readTrace options stages.filterEnabled io fquery.branchset
          trace).actions (options.holds files))) file =
      replay (thread options libc io stages fquery.branchset left.filterResults branchId).actions
        (replay (readTrace options stages.filterEnabled io fquery.branchset trace).actions
          (options.holds files)) file := by
    rw [joined_other _ _ _ other, interleaved_replay ResultFile.branchId interleaved owned, own]
  refine ⟨?_, ?_, ?_, ?_⟩
  · intro set left given some_group
    rw [same _ rfl (by simp only [ResultFile.kind]; decide)]
    exact threaded.groups set left given some_group
  · intro set left given some_group clauses
    rw [same _ rfl (by simp only [ResultFile.kind]; decide)]
    exact threaded.sorted set left given some_group clauses
  · intro set left given number group inside
    rw [same _ rfl (by simp only [ResultFile.kind]; decide)]
    exact threaded.members set left given number group inside
  · intro set gfilterResult given
    rw [same _ rfl (by simp only [ResultFile.kind]; decide)]
    exact threaded.filteredGroups set gfilterResult given

include run directory in
theorem run_mergerHolds (mresult : MergerResult) (groupsets : List (List Group))
    (merged : left.mergerResult = some mresult)
    (found : left.branchLefts.map BranchLeft.gfilterResult =
      groupsets.map (some ∘ GroupfilterResult.of))
    (some_branch : groupsets ≠ []) (nonempty : ∀ groupset ∈ groupsets, groupset ≠ []) :
    MergerHolds options (options.holds (options.leave ops files)) mresult groupsets := by
  obtain ⟨schedule, -, -, -, finished, whole⟩ := run_replay run directory files
  rw [whole]
  exact joined_merger options stages fquery left.branchLefts _ finished directory mresult merged
    groupsets found some_branch nonempty

include run in
/-- The merger's tuples are counted exactly, and have at most one group for each branch. -/
theorem run_tuples (mresult : MergerResult) (merged : left.mergerResult = some mresult) :
    mresult.numGroupTuples = mresult.groupTuples.length ∧
      ∀ tuple ∈ mresult.groupTuples, tuple.length ≤ fquery.branchset.length := by
  obtain ⟨schedule, -, -, lefts, finished, -⟩ := run.parts
  rw [merged] at finished
  exact merged_tuples left.filterResults left.branchLefts lefts mresult _ finished

include run directory in
theorem run_streamHolds (mresult : MergerResult) (uresult : UngrouperResult)
    (merged : left.mergerResult = some mresult) (ungrouped : left.ungrouperResult = some uresult)
    (index : Nat) (tuple : List Group) (found : mresult.groupTuples[index]? = some tuple)
    (room : (concatenated tuple).length < 2 ^ 32) :
    ∃ stream, uresult.streamset[index]? = some stream ∧
      stream.numRecords = stream.recordset.length ∧ stream.recordset = concatenated tuple ∧
      options.holds (options.leave ops files) (.stream index) =
        some (stream.recordset.map RecordPtr.record) := by
  obtain ⟨exact, wide⟩ := run_tuples run mresult merged
  obtain ⟨schedule, -, -, -, finished, whole⟩ := run_replay run directory files
  rw [whole]
  exact (joined_streams_hold options stages fquery left.branchLefts _ finished directory mresult
    merged exact wide).1 uresult ungrouped index tuple found room

include run directory in
theorem run_streamStale (mresult : MergerResult) (merged : left.mergerResult = some mresult)
    (index : Nat) (beyond : mresult.groupTuples.length ≤ index) :
    options.holds (options.leave ops files) (.stream index) = options.holds files (.stream index) := by
  obtain ⟨exact, wide⟩ := run_tuples run mresult merged
  obtain ⟨schedule, -, interleaved, -, finished, whole⟩ := run_replay run directory files
  rw [whole, (joined_streams_hold options stages fquery left.branchLefts _ finished directory mresult
    merged exact wide).2 index beyond,
    schedule_other _ _ _ schedule interleaved (by simp only [ResultFile.kind]; decide),
    read_other _ _ (by simp only [ResultFile.kind]; decide)]

/-- Whatever the schedule, the result directory holds what the run leaves in memory. -/
theorem run_directory {ops : List (StreamOp ResultFile Record)} {left : EngineLeft}
    (run : Run options libc io stages fquery trace ops (.ok left))
    (directory : options.file = true) (files : Files) :
    DirectoryHolds options fquery trace left (options.holds (options.leave ops files))
      (options.holds files) where
  filteredRecords := run_filteredRecords run directory files
  branches := run_branchHolds run directory files
  merger := run_mergerHolds run directory files
  streams := run_streamHolds run directory files
  stale := run_streamStale run directory files

/-- On any file system, the result directory holds what a process that succeeds leaves in
memory. -/
theorem process_directory {fileSystem : FileSystem ResultFile Record}
    {performed : List (StreamOp ResultFile Record)} {refused : Option (StreamOp ResultFile Record)}
    {left : EngineLeft} (process : Process fileSystem options libc io stages fquery trace performed
      refused (.ok left))
    (directory : options.file = true) (files : Files) :
    DirectoryHolds options fquery trace left (options.holds (options.leave performed files))
      (options.holds files) := by
  obtain rfl := process.granted
  exact run_directory process.run directory files

theorem process_directory_sessions : ∃ performed left,
    SessionsProcess performed none (.ok left) ∧ left.plain.streamSizes = some [3, 3] ∧
    DirectoryHolds Output.resultsOptions Flowquery.sessions Flowquery.flows left
      (Output.resultsOptions.holds (Output.resultsOptions.leave performed fun _ => none))
      (Output.resultsOptions.holds fun _ => none) := by
  obtain ⟨performed, left, process, sizes⟩ := sessions_process
  exact ⟨performed, left, process, sizes, process_directory process rfl fun _ => none⟩

end Whole

end Nfql.Emit
