import Nfql.DirectoryContents
import Nfql.EchoStages

set_option autoImplicit false

/- What is printed without a result directory is what the files of the directory hold. -/
namespace Nfql.Emit

open Emissions Interleavings OutputStreams Outcomes Odometer
open Echo (Line Shown)

section Counted

variable {options : OutputOptions} {libc : Libc} {io : IoHandler} {stages : Stages}

theorem grouper_counted (funcs : GrouperFuncs) (groupaggregationsEnabled : Bool) (branch : Branch)
    (branchId : Nat) (fresult : FilterResult) (left : Left)
    (success : (grouper options libc funcs io groupaggregationsEnabled branch branchId
      fresult).result = .ok left) : left.gresult.numGroups = left.gresult.groupset.length := by
  have written := grouper_writes options libc funcs io groupaggregationsEnabled branch branchId
    fresult fun _ => none
  rw [OutputOptions.outcome, success] at written
  obtain ⟨gresult, -, leaves⟩ := Output.grouper_leaves options libc funcs io
    groupaggregationsEnabled branch branchId fresult _ _ written
  by_cases positive : 0 < fresult.numFilteredRecords
  · exact (leaves.files positive).count
  · rw [grouper, if_neg positive] at success
    cases success
    rfl

/-- A branch's results count their groups exactly. -/
structure BranchLeft.Counted (branchLeft : BranchLeft) : Prop where
  groups : ∀ left, branchLeft.grouperLeft = some left →
    left.gresult.numGroups = left.gresult.groupset.length
  filteredGroups : ∀ gfilterResult, branchLeft.gfilterResult = some gfilterResult →
    gfilterResult = GroupfilterResult.of gfilterResult.filteredGroupset

theorem branchStart_counted (branch : Branch) (branchId : Nat) (filterResult : Option FilterResult)
    (branchLeft : BranchLeft)
    (success : (branchStart options branch branchId libc io stages filterResult).result =
      .ok branchLeft) : branchLeft.Counted := by
  constructor
  · rintro left given
    rw [branchStart, Emitted.bind_result] at success
    obtain ⟨grouperLeft, grouped, success⟩ := bind_eq_ok success
    rw [Emitted.bind_result] at success
    obtain ⟨gfilterResult, -, success⟩ := bind_eq_ok success
    cases success
    cases given
    unfold branchGrouper at grouped
    split at grouped
    · cases filterResult with
      | none => cases grouped
      | some fresult =>
          dsimp only at grouped
          rw [Emitted.bind_result] at grouped
          obtain ⟨_, run, same⟩ := bind_eq_ok grouped
          cases same
          exact grouper_counted _ _ branch branchId fresult left run
    · cases grouped
  · intro gfilterResult given
    have plain := branchStart_success options branch branchId libc io stages filterResult branchLeft
      success
    exact branchStart_of libc io stages branch filterResult branchLeft.plain plain gfilterResult given

variable {fquery : Flowquery} {trace : List Record}

theorem run_counted {ops : List (StreamOp ResultFile Record)} {left : EngineLeft}
    (run : Run options libc io stages fquery trace ops (.ok left)) (branchId : Nat)
    (branchLeft : BranchLeft) (found : left.branchLefts[branchId]? = some branchLeft) :
    branchLeft.Counted := by
  obtain ⟨schedule, -, -, lefts, -, -⟩ := run.parts
  have here := lefts branchId
  rw [found, thread] at here
  cases entry : (fquery.branchset.zip left.filterResults)[branchId]? with
  | none =>
      rw [entry] at here
      cases here
  | some entry' =>
      rw [entry, branchThread_some] at here
      obtain ⟨_, run, same⟩ := bind_eq_ok here
      cases same
      exact branchStart_counted entry'.1 branchId entry'.2 branchLeft run

end Counted

section Agreement

variable (options : OutputOptions) (io : IoHandler) (fquery : Flowquery) (left : EngineLeft)
  (held : Directory ResultFile Record)

/-- The lines show the groups with their times, and the file holds the groups' records. -/
def ShowsGroups (lines : List Line) (groups : List Group) (file : ResultFile) : Prop :=
  lines.filterMap Line.shown = groups.map Shown.ofGroup ∧ held file = some (groups.map Group.record)

/-- The lines show the records that the file holds. -/
def ShowsRecords (lines : List Line) (records : List RecordPtr) (file : ResultFile) : Prop :=
  lines.filterMap Line.shown = records.map Shown.ofMember ∧
    held file = some (records.map RecordPtr.record)

/-- What echo.c prints of the results left in memory is in the files, record for record; the
times that it prints of groups are not. The filtered records that it prints are copies, of as
many bytes as a record of the trace has. Where some branch has no filtered groups, no merger
file is written, and no group file of a branch without groups. -/
structure EchoAgrees : Prop where
  filter : options.verboseV = true → ∀ (branchId : Nat) fresult lines,
    left.filterResults[branchId]? = some (some fresult) → Echo.filter fresult = .ok lines →
      ∃ records, held (.filteredRecords branchId) = some records ∧
        lines.filterMap Line.shown =
          records.map fun record => ⟨copyRecord io.readGetRecordSize record, none⟩
  groupAggr : options.verboseV = true → ∀ (branchId : Nat) branchResult gresult lines,
    left.plain.branchResults[branchId]? = some branchResult →
      branchResult.grouperResult = some gresult → gresult.groupset ≠ [] →
        Echo.groupAggr gresult = .ok lines →
          ShowsGroups held lines gresult.groupset (.grouper (.groups branchId))
  gfilter : options.verboseV = true → ∀ (branchId : Nat) branchResult gfilterResult lines,
    left.plain.branchResults[branchId]? = some branchResult →
      branchResult.gfilterResult = some gfilterResult → Echo.gfilter gfilterResult = .ok lines →
        ShowsGroups held lines gfilterResult.filteredGroupset (.filteredGroups branchId)
  toBeMerged : options.verboseVv = true → ∀ mresult found lines,
    left.mergerResult = some mresult → gfilterResults left.plain.branchResults = .ok found →
      found ≠ [] → (∀ gfilterResult ∈ found, gfilterResult.numFilteredGroups ≠ 0) →
        Echo.toBeMerged mresult found = .ok lines →
          ShowsGroups held lines (product (found.map GroupfilterResult.filteredGroupset)).flatten
            .toBeMergedGroups
  merged : options.verboseV = true → ∀ mresult found lines,
    left.mergerResult = some mresult → gfilterResults left.plain.branchResults = .ok found →
      found ≠ [] → (∀ gfilterResult ∈ found, gfilterResult.numFilteredGroups ≠ 0) →
        Echo.merged fquery.branchset.length mresult = .ok lines →
          ShowsGroups held lines mresult.groupTuples.flatten .mergedGroups
  streams : ∀ mresult uresult lines, left.mergerResult = some mresult →
    left.ungrouperResult = some uresult → Echo.results uresult = .ok lines →
      ∀ (index : Nat) tuple, mresult.groupTuples[index]? = some tuple →
        (concatenated tuple).length < 2 ^ 32 → ∃ here, lines[index + 1]? = some here ∧
          ShowsRecords held here (concatenated tuple) (.stream index)

end Agreement

section Runs

variable {options : OutputOptions} {libc : Libc} {io : IoHandler} {stages : Stages}
  {fquery : Flowquery} {trace : List Record} {ops : List (StreamOp ResultFile Record)}
  {left : EngineLeft}

/-- The filtered groups that the merger finds, as lists. -/
theorem run_groupsets (run : Run options libc io stages fquery trace ops (.ok left))
    (found : List GroupfilterResult) (success : gfilterResults left.plain.branchResults = .ok found) :
    ∃ groupsets : List (List Group), found = groupsets.map GroupfilterResult.of ∧
      left.branchLefts.map BranchLeft.gfilterResult =
        groupsets.map (some ∘ GroupfilterResult.of) := by
  have exact := gfilterResults_of _ found (by
    intro result member gfilterResult given
    obtain ⟨branchLeft, inside, rfl⟩ := List.mem_map.mp member
    obtain ⟨branchId, here⟩ := List.mem_iff_getElem?.mp inside
    exact (run_counted run branchId branchLeft here).filteredGroups gfilterResult given) success
  have each (results : List BranchResult) (found : List GroupfilterResult)
      (success : gfilterResults results = .ok found) :
      results.map BranchResult.gfilterResult = found.map some := by
    induction results generalizing found with
    | nil => cases success; rfl
    | cons result rest ih =>
        cases given : result.gfilterResult with
        | none =>
            rw [gfilterResults, given] at success
            cases success
        | some gfilterResult =>
            rw [gfilterResults, given] at success
            obtain ⟨others, run, success⟩ := bind_eq_ok success
            cases success
            rw [List.map_cons, List.map_cons, given, ih others run]
  refine ⟨_, exact, ?_⟩
  have all := each _ found success
  rw [EngineLeft.plain, List.map_map] at all
  rw [← List.map_map, ← exact]
  exact all

/-- A branch of the plain results, with what its thread has left. -/
theorem plain_branch (branchId : Nat) (branchResult : BranchResult)
    (found : left.plain.branchResults[branchId]? = some branchResult) :
    ∃ branchLeft, left.branchLefts[branchId]? = some branchLeft ∧ branchLeft.plain = branchResult := by
  rw [EngineLeft.plain, List.getElem?_map] at found
  exact Option.map_eq_some_iff.mp found

/-- There is a branch for each that a thread has left. -/
theorem run_branch (run : Run options libc io stages fquery trace ops (.ok left)) (branchId : Nat)
    (branchLeft : BranchLeft) (found : left.branchLefts[branchId]? = some branchLeft) :
    ∃ branch, fquery.branchset[branchId]? = some branch := by
  obtain ⟨schedule, -, -, lefts, -, -⟩ := run.parts
  have here := lefts branchId
  rw [found, thread] at here
  cases entry : (fquery.branchset.zip left.filterResults)[branchId]? with
  | none =>
      rw [entry] at here
      cases here
  | some entry' => exact ⟨entry'.1, (List.getElem?_zip_eq_some.mp entry).1⟩

/-- The streams are counted exactly. -/
theorem run_streams (run : Run options libc io stages fquery trace ops (.ok left))
    (mresult : MergerResult) (uresult : UngrouperResult) (merged : left.mergerResult = some mresult)
    (ungrouped : left.ungrouperResult = some uresult) :
    uresult.numStreams = uresult.streamset.length := by
  obtain ⟨exact, -⟩ := run_tuples run mresult merged
  obtain ⟨-, -, -, -, finished, -⟩ := run.parts
  obtain ⟨-, ungrouping, -⟩ := joined_parts options stages fquery left.branchLefts finished
  rw [merged, ungrouped] at ungrouping
  unfold engineUngrouper at ungrouping
  split at ungrouping
  · rw [Emitted.bind_result, ungrouper_result] at ungrouping
    obtain ⟨_, run, same⟩ := bind_eq_ok ungrouping
    cases same
    obtain ⟨count, each⟩ := ungrouper_each fquery.branchset.length mresult uresult exact run
    rw [count, each.length_eq]
  · cases ungrouping

theorem groupsets_nonempty (groupsets : List (List Group))
    (some_branch : groupsets.map GroupfilterResult.of ≠ [])
    (nonempty : ∀ gfilterResult ∈ groupsets.map GroupfilterResult.of,
      gfilterResult.numFilteredGroups ≠ 0) :
    groupsets ≠ [] ∧ ∀ groupset ∈ groupsets, groupset ≠ [] := by
  constructor
  · rintro rfl
    exact some_branch rfl
  · rintro groupset member rfl
    exact nonempty _ (List.mem_map_of_mem member) rfl

section Prints

variable (run : Run options libc io stages fquery trace ops (.ok left))
  (directory : options.file = true) (files : Files)
include run directory

theorem filter_agrees (set : options.verboseV = true) (branchId : Nat) (fresult : FilterResult)
    (lines : List Echo.Line) (found : left.filterResults[branchId]? = some (some fresult))
    (shown : Echo.filter fresult = .ok lines) :
    ∃ records, options.holds (options.leave ops files) (.filteredRecords branchId) = some records ∧
      lines.filterMap Line.shown =
        records.map fun record => ⟨copyRecord io.readGetRecordSize record, none⟩ := by
  obtain ⟨schedule, read, -⟩ := run.parts
  have read := readTrace_success stages.filterEnabled fquery.branchset _ read
  cases enabled : stages.filterEnabled with
  | false =>
      rw [enabled] at read
      cases readTrace_none io _ trace _ _ read _ (List.mem_of_getElem? found)
  | true =>
      rw [enabled] at read
      obtain ⟨-, -, results⟩ := Nfql.readTrace_result io _ trace _ _ read
      rw [results, List.getElem?_map] at found
      obtain ⟨branch, known, given⟩ := Option.map_eq_some_iff.mp found
      cases given
      refine ⟨_, run_filteredRecords run directory files set branchId branch known, ?_⟩
      have records := pointers_records fquery.branchset trace io.readGetRecordSize branch
        (List.mem_of_getElem? known)
      have copies := congrArg (List.map fun record : Record => (⟨record, none⟩ : Shown)) records
      rw [List.map_map, List.map_map] at copies
      rw [Echo.filter_shown _ lines shown]
      exact copies

theorem groupAggr_agrees (set : options.verboseV = true) (branchId : Nat)
    (branchResult : BranchResult) (gresult : GrouperResult) (lines : List Echo.Line)
    (found : left.plain.branchResults[branchId]? = some branchResult)
    (given : branchResult.grouperResult = some gresult) (some_group : gresult.groupset ≠ [])
    (shown : Echo.groupAggr gresult = .ok lines) :
    ShowsGroups (options.holds (options.leave ops files)) lines gresult.groupset
      (.grouper (.groups branchId)) := by
  obtain ⟨branchLeft, here, rfl⟩ := plain_branch branchId branchResult found
  obtain ⟨branch, known⟩ := run_branch run branchId branchLeft here
  obtain ⟨grouperLeft, kept, rfl⟩ := Option.map_eq_some_iff.mp given
  have holds := run_branchHolds run directory files branchId branch branchLeft known here
  rw [Echo.groupAggr, (run_counted run branchId branchLeft here).groups grouperLeft kept] at shown
  exact ⟨Echo.groups_shown _ _ lines shown, holds.groups set grouperLeft kept some_group⟩

theorem gfilter_agrees (set : options.verboseV = true) (branchId : Nat)
    (branchResult : BranchResult) (gfilterResult : GroupfilterResult) (lines : List Echo.Line)
    (found : left.plain.branchResults[branchId]? = some branchResult)
    (given : branchResult.gfilterResult = some gfilterResult)
    (shown : Echo.gfilter gfilterResult = .ok lines) :
    ShowsGroups (options.holds (options.leave ops files)) lines gfilterResult.filteredGroupset
      (.filteredGroups branchId) := by
  obtain ⟨branchLeft, here, rfl⟩ := plain_branch branchId branchResult found
  obtain ⟨branch, known⟩ := run_branch run branchId branchLeft here
  have holds := run_branchHolds run directory files branchId branch branchLeft known here
  rw [Echo.gfilter,
    (run_counted run branchId branchLeft here).filteredGroups gfilterResult given] at shown
  exact ⟨Echo.groups_shown _ _ lines shown, holds.filteredGroups set gfilterResult given⟩

section Tuples

variable (mresult : MergerResult) (found : List GroupfilterResult)
  (merged : left.mergerResult = some mresult)
  (results : gfilterResults left.plain.branchResults = .ok found) (some_branch : found ≠ [])
  (nonempty : ∀ gfilterResult ∈ found, gfilterResult.numFilteredGroups ≠ 0)
include merged results some_branch nonempty

theorem toBeMerged_agrees (set : options.verboseVv = true) (lines : List Echo.Line)
    (shown : Echo.toBeMerged mresult found = .ok lines) :
    ShowsGroups (options.holds (options.leave ops files)) lines
      (product (found.map GroupfilterResult.filteredGroupset)).flatten .toBeMergedGroups := by
  obtain ⟨groupsets, rfl, given⟩ := run_groupsets run found results
  obtain ⟨some_groupset, lists⟩ := groupsets_nonempty groupsets some_branch nonempty
  have holds := run_mergerHolds run directory files mresult groupsets merged given some_groupset lists
  rw [List.map_map, show GroupfilterResult.filteredGroupset ∘ GroupfilterResult.of = id from rfl,
    List.map_id]
  exact ⟨Echo.toBeMerged_shown mresult groupsets lists some_groupset lines shown,
    holds.toBeMerged set⟩

theorem merged_agrees (set : options.verboseV = true) (lines : List Echo.Line)
    (shown : Echo.merged fquery.branchset.length mresult = .ok lines) :
    ShowsGroups (options.holds (options.leave ops files)) lines mresult.groupTuples.flatten
      .mergedGroups := by
  obtain ⟨groupsets, rfl, given⟩ := run_groupsets run found results
  obtain ⟨some_groupset, lists⟩ := groupsets_nonempty groupsets some_branch nonempty
  obtain ⟨exact, wide⟩ := run_tuples run mresult merged
  have holds := run_mergerHolds run directory files mresult groupsets merged given some_groupset lists
  exact ⟨Echo.merged_shown fquery.branchset.length mresult exact wide lines shown,
    holds.merged set⟩

end Tuples

theorem streams_agree (mresult : MergerResult) (uresult : UngrouperResult)
    (lines : List (List Echo.Line)) (merged : left.mergerResult = some mresult)
    (ungrouped : left.ungrouperResult = some uresult) (shown : Echo.results uresult = .ok lines)
    (index : Nat) (tuple : List Group) (found : mresult.groupTuples[index]? = some tuple)
    (room : (concatenated tuple).length < 2 ^ 32) :
    ∃ here, lines[index + 1]? = some here ∧
      ShowsRecords (options.holds (options.leave ops files)) here (concatenated tuple)
        (.stream index) := by
  obtain ⟨stream, inside, exact, concatenates, filled⟩ :=
    run_streamHolds run directory files mresult uresult merged ungrouped index tuple found room
  unfold Echo.results at shown
  split at shown
  · cases shown
  · obtain ⟨_, -, shown⟩ := bind_eq_ok shown
    obtain ⟨streamLines, run', shown⟩ := bind_eq_ok shown
    cases shown
    have numbered := run_streams run mresult uresult merged ungrouped
    rw [numbered, List.take_length] at run'
    obtain ⟨here, inside, shown⟩ := Echo.streams_each 0 _ streamLines run' index stream inside
    refine ⟨here, inside, ?_⟩
    have records := Echo.stream_shown _ stream exact here shown
    rw [concatenates] at records filled
    exact ⟨records, filled⟩

/-- What would be printed of the results of a run is what it leaves in its files. -/
theorem run_echo : EchoAgrees options io fquery left (options.holds (options.leave ops files)) where
  filter := filter_agrees run directory files
  groupAggr := groupAggr_agrees run directory files
  gfilter := gfilter_agrees run directory files
  toBeMerged set mresult found lines merged results some_branch nonempty :=
    toBeMerged_agrees run directory files mresult found merged results some_branch nonempty set lines
  merged set mresult found lines merged results some_branch nonempty :=
    merged_agrees run directory files mresult found merged results some_branch nonempty set lines
  streams := streams_agree run directory files

end Prints

/-- What is printed depends on the results only. -/
theorem EchoAgrees.of_plain {printed : EngineLeft} {held : Directory ResultFile Record}
    (agrees : EchoAgrees options io fquery left held) (same : printed.plain = left.plain) :
    EchoAgrees options io fquery printed held := by
  have filterResults : printed.filterResults = left.filterResults :=
    congrArg EngineResult.filterResults same
  have mergerResult : printed.mergerResult = left.mergerResult :=
    congrArg EngineResult.mergerResult same
  have ungrouperResult : printed.ungrouperResult = left.ungrouperResult :=
    congrArg EngineResult.ungrouperResult same
  obtain ⟨filter, groupAggr, gfilter, toBeMerged, merged, streams⟩ := agrees
  rw [← filterResults] at filter
  rw [← same] at groupAggr gfilter
  rw [← mergerResult, ← same] at toBeMerged merged
  rw [← mergerResult, ← ungrouperResult] at streams
  exact ⟨filter, groupAggr, gfilter, toBeMerged, merged, streams⟩

/-- What a run prints without a result directory is what any run of the same query over
the same trace leaves in the files of one. -/
theorem runs_echo {printed : EngineLeft} {ops' : List (StreamOp ResultFile Record)}
    (run : Run { options with dirpath := none } libc io stages fquery trace ops (.ok printed))
    (run' : Run options libc io stages fquery trace ops' (.ok left))
    (directory : options.file = true) (files : Files) :
    EchoAgrees options io fquery printed (options.holds (options.leave ops' files)) := by
  have plain := run_success run printed rfl
  have plain' := run_success run' left rfl
  have same : printed.plain = left.plain := Except.ok.inj (plain.symm.trans plain')
  exact (run_echo run' directory files).of_plain same

theorem runs_echo_sessions : ∃ ops printed held,
    Run { Output.resultsOptions with dirpath := none } Libc.insertion (IoHandler.untimed 5)
      (Stages.all true) Flowquery.sessions Flowquery.flows ops (.ok printed) ∧
    printed.plain.streamSizes = some [3, 3] ∧
    EchoAgrees Output.resultsOptions (IoHandler.untimed 5) Flowquery.sessions printed held := by
  obtain ⟨ops', left, run', sizes⟩ := sessions_run
  have plain := run_success run' left rfl
  obtain ⟨ops, printed, run⟩ : ∃ ops printed,
      Run { Output.resultsOptions with dirpath := none } Libc.insertion (IoHandler.untimed 5)
        (Stages.all true) Flowquery.sessions Flowquery.flows ops (.ok printed) :=
    run_succeeds (.inr rfl) (fun _ => by decide) ⟨_, plain⟩
  have same := (run_success run printed rfl).symm.trans plain
  rw [Except.ok.injEq] at same
  exact ⟨ops, printed, _, run, same ▸ sizes, runs_echo run run' rfl fun _ => none⟩

end Runs

end Nfql.Emit
