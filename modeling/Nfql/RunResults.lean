import Nfql.EngineRuns
import Nfql.EngineTotal
import Nfql.GrouperEcho

set_option autoImplicit false

/- All runs of a query over a trace agree, with each other and with the plain engine. -/
namespace Nfql.Emit

open Emissions Interleavings OutputStreams Outcomes

section Counts

/-- The count of the filtered groups is exact: where it wraps, `realloc` has failed. -/
theorem groupfilter_of (branch : Branch) (gresult : GrouperResult)
    (gfilterResult : GroupfilterResult)
    (success : Nfql.groupfilter branch gresult = .ok gfilterResult) :
    gfilterResult = GroupfilterResult.of gfilterResult.filteredGroupset := by
  have counted (groups : List Group) (before after : GroupfilterResult)
      (exact : before.numFilteredGroups = before.filteredGroupset.length)
      (room : before.numFilteredGroups < 2 ^ 32)
      (success : Nfql.filterGroups branch groups before = .ok after) :
      after.numFilteredGroups = after.filteredGroupset.length := by
    induction groups generalizing before with
    | nil =>
        cases success
        exact exact
    | cons group rest ih =>
        rw [Nfql.filterGroups] at success
        split at success
        · obtain ⟨_, allocated, success⟩ := bind_eq_ok success
          have next := uint32_exact before.numFilteredGroups room (realloc_positive allocated)
          refine ih _ ?_ (uint32_lt _) success
          rw [next, exact, List.length_append, List.length_singleton]
        · exact ih before exact room success
  obtain ⟨kept, run, success⟩ := bind_eq_ok success
  have exact := counted _ _ _ rfl (by decide) run
  split at success
  · cases success
  · obtain ⟨_, -, success⟩ := bind_eq_ok success
    cases success
    rw [GroupfilterResult.of, ← exact]

theorem branchStart_of (libc : Libc) (io : IoHandler) (stages : Stages) (branch : Branch)
    (filterResult : Option FilterResult) (result : BranchResult)
    (success : Nfql.branchStart libc io stages branch filterResult = .ok result)
    (gfilterResult : GroupfilterResult) (given : result.gfilterResult = some gfilterResult) :
    gfilterResult = GroupfilterResult.of gfilterResult.filteredGroupset := by
  obtain ⟨grouperResult, -, success⟩ := bind_eq_ok success
  obtain ⟨filtered, run, success⟩ := bind_eq_ok success
  cases success
  cases given
  unfold Nfql.branchGroupfilter at run
  split at run
  · cases grouperResult with
    | none => cases run
    | some gresult =>
        obtain ⟨kept, run, same⟩ := bind_eq_ok run
        cases same
        exact groupfilter_of branch gresult _ run
  · cases run

theorem gfilterResults_of (results : List BranchResult) (found : List GroupfilterResult)
    (exact : ∀ result ∈ results, ∀ gfilterResult, result.gfilterResult = some gfilterResult →
      gfilterResult = GroupfilterResult.of gfilterResult.filteredGroupset)
    (success : gfilterResults results = .ok found) :
    found = (found.map GroupfilterResult.filteredGroupset).map GroupfilterResult.of := by
  induction results generalizing found with
  | nil => cases success; rfl
  | cons result rest ih =>
      obtain ⟨here, later⟩ := List.forall_mem_cons.mp exact
      cases given : result.gfilterResult with
      | none =>
          rw [gfilterResults, given] at success
          cases success
      | some gfilterResult =>
          rw [gfilterResults, given] at success
          obtain ⟨others, run, success⟩ := bind_eq_ok success
          cases success
          rw [List.map_cons, List.map_cons, ← here gfilterResult given, ← ih others later run]

end Counts

section Threads

variable (options : OutputOptions) (libc : Libc) (io : IoHandler) (stages : Stages)

theorem branchesStart_ok_iff (branchset : List Branch) (filterResults : List (Option FilterResult))
    (results : List BranchResult) :
    branchesStart libc io stages branchset filterResults = .ok results ↔
      List.Forall₂ (fun entry result =>
        Nfql.branchStart libc io stages entry.1 entry.2 = .ok result)
          (branchset.zip filterResults) results := by
  induction branchset generalizing filterResults results with
  | nil =>
      rw [List.zip_nil_left, List.forall₂_nil_left_iff, branchesStart.eq_def]
      simp only [Except.ok.injEq, eq_comm]
  | cons branch rest ih =>
      cases filterResults with
      | nil =>
          rw [List.zip_nil_right, List.forall₂_nil_left_iff, branchesStart.eq_def]
          simp only [Except.ok.injEq, eq_comm]
      | cons filterResult others =>
          rw [List.zip_cons_cons, List.forall₂_cons_left_iff]
          constructor
          · intro success
            obtain ⟨result, run, success⟩ := bind_eq_ok success
            obtain ⟨later, runs, success⟩ := bind_eq_ok success
            cases success
            exact ⟨result, later, run, (ih others later).mp runs, rfl⟩
          · rintro ⟨result, later, run, runs, rfl⟩
            rw [branchesStart, run, ok_bind, (ih others later).mpr runs]
            rfl

theorem branchThread_some (branchId : Nat) (entry : Branch × Option FilterResult) :
    (branchThread options libc io stages branchId (some entry)).result =
      some <$> (branchStart options entry.1 branchId libc io stages entry.2).result := by
  obtain ⟨branch, filterResult⟩ := entry
  rw [branchThread, Emitted.bind_result]
  rfl

/-- Threads that have all succeeded leave what the branches leave one by one. -/
theorem lefts_plain (entries : List (Branch × Option FilterResult)) (first : Nat)
    (lefts : List BranchLeft)
    (each : ∀ index, (branchThread options libc io stages (first + index) entries[index]?).result =
      .ok lefts[index]?) :
    List.Forall₂ (fun entry result => Nfql.branchStart libc io stages entry.1 entry.2 = .ok result)
      entries (lefts.map BranchLeft.plain) := by
  induction entries generalizing first lefts with
  | nil =>
      have none := each 0
      rw [List.getElem?_nil, branchThread, Emitted.pure_result, Except.ok.injEq, eq_comm,
        List.getElem?_eq_none_iff, Nat.le_zero, List.length_eq_zero_iff] at none
      rw [none]
      exact List.Forall₂.nil
  | cons entry rest ih =>
      have here := each 0
      rw [List.getElem?_cons_zero, branchThread_some] at here
      obtain ⟨left, run, found⟩ := bind_eq_ok here
      cases lefts with
      | nil => cases found
      | cons head later =>
          cases found
          refine List.Forall₂.cons (branchStart_success options _ _ libc io stages _ _ run) ?_
          refine ih (first + 1) later fun index => ?_
          have next := each (index + 1)
          rwa [← Nat.add_assoc, Nat.add_right_comm, List.getElem?_cons_succ,
            List.getElem?_cons_succ] at next

/-- If no thread fails then together they leave a result for each branch. -/
theorem lefts_exist (entries : List (Branch × Option FilterResult)) (first : Nat)
    (each : ∀ index, ∃ left,
      (branchThread options libc io stages (first + index) entries[index]?).result = .ok left) :
    ∃ lefts : List BranchLeft, ∀ index,
      (branchThread options libc io stages (first + index) entries[index]?).result =
        .ok lefts[index]? := by
  induction entries generalizing first with
  | nil => exact ⟨[], fun index => by rw [List.getElem?_nil, List.getElem?_nil]; rfl⟩
  | cons entry rest ih =>
      obtain ⟨lefts, later⟩ := ih (first + 1) fun index => by
        obtain ⟨left, run⟩ := each (index + 1)
        rw [← Nat.add_assoc, Nat.add_right_comm, List.getElem?_cons_succ] at run
        exact ⟨left, run⟩
      obtain ⟨left, run⟩ := each 0
      rw [List.getElem?_cons_zero, branchThread_some] at run
      obtain ⟨head, here, same⟩ := bind_eq_ok run
      cases same
      refine ⟨head :: lefts, fun index => ?_⟩
      cases index with
      | zero =>
          rw [List.getElem?_cons_zero, List.getElem?_cons_zero, branchThread_some]
          exact run
      | succ index =>
          rw [← Nat.add_assoc, Nat.add_right_comm, List.getElem?_cons_succ,
            List.getElem?_cons_succ]
          exact later index

end Threads

section Filter

theorem filterBranch_none (recordSize : Nat) (record : Record) (pass pass' : Pass) (branch : Branch)
    (result : Option FilterResult)
    (success : Nfql.filterBranch recordSize record pass branch none = .ok (pass', result)) :
    result = none := by
  rw [Nfql.filterBranch] at success
  split at success
  · cases success
  · cases success
    rfl

theorem filterRecord_none (recordSize : Nat) (record : Record) (pass : Pass)
    (branches later : List (Branch × Option FilterResult)) (data : IoData)
    (off : ∀ entry ∈ branches, entry.2 = none)
    (success : Nfql.filterRecord recordSize record pass branches = .ok (data, later)) :
    ∀ entry ∈ later, entry.2 = none := by
  induction branches generalizing pass later data with
  | nil =>
      cases success
      exact off
  | cons entry rest ih =>
      obtain ⟨branch, result⟩ := entry
      obtain ⟨here, others⟩ := List.forall_mem_cons.mp off
      obtain ⟨⟨pass, filtered⟩, run, success⟩ := bind_eq_ok success
      obtain ⟨⟨data, passed⟩, runs, success⟩ := bind_eq_ok success
      cases success
      dsimp only at here
      rw [here] at run
      rw [List.forall_mem_cons]
      exact ⟨filterBranch_none recordSize record _ _ branch filtered run,
        ih pass passed data others runs⟩

/-- Without a filter there are no filter results. -/
theorem readTrace_none (io : IoHandler) (branchset : List Branch) (trace : List Record)
    (data : IoData) (filterResults : List (Option FilterResult))
    (success : Nfql.readTrace false io branchset trace = .ok (data, filterResults)) :
    ∀ result ∈ filterResults, result = none := by
  have off (records : List Record) (data data' : IoData)
      (branches later : List (Branch × Option FilterResult))
      (off : ∀ entry ∈ branches, entry.2 = none)
      (success : Nfql.filterTrace io.readGetRecordSize records data branches = .ok (data', later)) :
      ∀ entry ∈ later, entry.2 = none := by
    induction records generalizing data branches with
    | nil =>
        cases success
        exact off
    | cons record rest ih =>
        obtain ⟨⟨data, passed⟩, run, success⟩ := bind_eq_ok success
        exact ih data passed (filterRecord_none _ record _ branches passed data off run) success
  obtain ⟨⟨data', later⟩, run, success⟩ := bind_eq_ok success
  cases success
  intro result member
  obtain ⟨entry, inside, rfl⟩ := List.mem_map.mp member
  refine off trace _ _ _ later (fun entry inside => ?_) run entry inside
  obtain ⟨branch, -, rfl⟩ := List.mem_map.mp inside
  rfl

/-- No filter result counts more records than the trace has. -/
theorem readTrace_counts (filterEnabled : Bool) (io : IoHandler) (branchset : List Branch)
    (trace : List Record) (data : IoData) (filterResults : List (Option FilterResult))
    (success : Nfql.readTrace filterEnabled io branchset trace = .ok (data, filterResults))
    (fresult : FilterResult) (member : some fresult ∈ filterResults) :
    fresult.numFilteredRecords ≤ trace.length := by
  cases filterEnabled with
  | true =>
      obtain ⟨-, -, rfl⟩ := Nfql.readTrace_result io branchset trace data filterResults success
      obtain ⟨branch, inside, same⟩ := List.mem_map.mp member
      cases same
      exact filtered_length io branchset trace branch inside
  | false => cases readTrace_none io branchset trace data filterResults success _ member

end Filter

section Results

variable {options : OutputOptions} {libc : Libc} {io : IoHandler} {stages : Stages}
  {fquery : Flowquery} {trace : List Record}

theorem readTrace_success (filterEnabled : Bool) (branchset : List Branch)
    (filtered : IoData × List (Option FilterResult))
    (success : (readTrace options filterEnabled io branchset trace).result = .ok filtered) :
    Nfql.readTrace filterEnabled io branchset trace = .ok filtered := by
  rw [← success]
  refine (readTrace_result options filterEnabled io branchset trace ?_).symm
  by_contra crash
  rw [not_or, Bool.not_eq_false, Bool.and_eq_true, Bool.not_eq_true'] at crash
  obtain ⟨some_branch, asked, off⟩ := crash
  rw [off, readTrace_crash options io branchset trace some_branch asked] at success
  cases success

/-- The stages of `main` have the plain results, if the branches do. -/
theorem joined_result (options : OutputOptions) (filterResults : List (Option FilterResult))
    (branchLefts : List BranchLeft)
    (branches : branchesStart libc io stages fquery.branchset filterResults =
      .ok (branchLefts.map BranchLeft.plain)) :
    (joined options stages fquery branchLefts).result = (do
      let mergerResult ← Nfql.engineMerger stages fquery (branchLefts.map BranchLeft.plain)
      let ungrouperResult ← Nfql.engineUngrouper stages fquery mergerResult
      .ok (mergerResult, ungrouperResult)) := by
  have merging : (engineMerger options stages fquery branchLefts).result =
      Nfql.engineMerger stages fquery (branchLefts.map BranchLeft.plain) := by
    unfold engineMerger Nfql.engineMerger
    split
    · rw [Emitted.bind_result, Emitted.of_result]
      cases found : gfilterResults (branchLefts.map BranchLeft.plain) with
      | error fault => rfl
      | ok gresults =>
          have exact := gfilterResults_of _ gresults (by
            intro result member
            obtain ⟨entry, -, run⟩ :=
              forall₂_right ((branchesStart_ok_iff libc io stages _ _ _).mp branches) result member
            exact branchStart_of libc io stages entry.1 entry.2 result run) found
          rw [ok_bind, ok_bind, Emitted.bind_result, exact, merger_result]
          rfl
    · rfl
  rw [joined, Emitted.bind_result, merging]
  refine bind_congr fun mergerResult => ?_
  rw [Emitted.bind_result]
  have ungrouping : (engineUngrouper options stages fquery mergerResult).result =
      Nfql.engineUngrouper stages fquery mergerResult := by
    unfold engineUngrouper Nfql.engineUngrouper
    split
    · rw [Emitted.bind_result, ungrouper_result]
      rfl
    · rfl
  rw [ungrouping]
  rfl

/-- The threads together leave what the branches leave one by one. -/
theorem threads_plain (filterResults : List (Option FilterResult)) (branchLefts : List BranchLeft)
    (lefts : ∀ branchId,
      (thread options libc io stages fquery.branchset filterResults branchId).result =
        .ok branchLefts[branchId]?) :
    branchesStart libc io stages fquery.branchset filterResults =
      .ok (branchLefts.map BranchLeft.plain) := by
  rw [branchesStart_ok_iff]
  refine lefts_plain options libc io stages _ 0 branchLefts fun index => ?_
  rw [Nat.zero_add]
  exact lefts index

/-- When the branches have been run, the plain engine ends as the stages of `main` do. -/
theorem engine_joined (options : OutputOptions) (data : IoData)
    (filterResults : List (Option FilterResult)) (branchLefts : List BranchLeft)
    (read : Nfql.readTrace stages.filterEnabled io fquery.branchset trace =
      .ok (data, filterResults))
    (branches : branchesStart libc io stages fquery.branchset filterResults =
      .ok (branchLefts.map BranchLeft.plain)) :
    engine libc io stages fquery trace =
      (joined options stages fquery branchLefts).result.map fun results =>
        ⟨data, filterResults, branchLefts.map BranchLeft.plain, results.1, results.2⟩ := by
  rw [engine, read, ok_bind, joined_result options filterResults branchLefts branches]
  simp only [branches, ok_bind]
  cases Nfql.engineMerger stages fquery (branchLefts.map BranchLeft.plain) with
  | error fault => rfl
  | ok mergerResult =>
      rw [ok_bind, ok_bind]
      cases Nfql.engineUngrouper stages fquery mergerResult <;> rfl

variable {ops ops' : List (StreamOp ResultFile Record)} {ended : Except Fault EngineLeft}

/-- A run that succeeds leaves what the plain engine computes. -/
theorem run_success (run : Run options libc io stages fquery trace ops ended) (left : EngineLeft)
    (success : ended = .ok left) : engine libc io stages fquery trace = .ok left.plain := by
  cases run with
  | unread | failed => cases success
  | finished data filterResults schedule branchLefts read run lefts =>
      rw [engine_joined options data filterResults branchLefts
        (readTrace_success stages.filterEnabled fquery.branchset _ read)
        (threads_plain filterResults branchLefts lefts)]
      cases ended : (joined options stages fquery branchLefts).result with
      | error fault => rw [ended] at success; cases success
      | ok results =>
          rw [ended] at success
          cases success
          rfl

/-- A run fails only where the plain engine fails, though perhaps with another fault,
unless the filter is off where its records are to be written, or a verbose grouper meets
more records than an int counts. -/
theorem run_failure
    (created : fquery.branchset = [] ∨
      (options.verboseV && options.file && !stages.filterEnabled) = false)
    (short : options.verboseVv = true → trace.length ≤ intMax)
    (run : Run options libc io stages fquery trace ops ended) (fault : Fault)
    (failure : ended = .error fault) :
    ∃ fault', engine libc io stages fquery trace = .error fault' := by
  have reading := readTrace_result options stages.filterEnabled io fquery.branchset trace created
  cases plain : engine libc io stages fquery trace with
  | error fault' => exact ⟨fault', rfl⟩
  | ok result =>
      exfalso
      obtain ⟨⟨data', filterResults'⟩, read', later⟩ := bind_eq_ok plain
      obtain ⟨branchResults, branches, later⟩ := bind_eq_ok later
      cases run with
      | unread fault read =>
          rw [reading, read'] at read
          cases read
      | failed data filterResults schedule rest branchId fault read run reached failure =>
          rw [reading, read'] at read
          cases read
          have each := (branchesStart_ok_iff libc io stages _ _ _).mp branches
          rw [thread] at failure
          cases found : (fquery.branchset.zip filterResults')[branchId]? with
          | none =>
              rw [found] at failure
              cases failure
          | some entry =>
              have member := List.mem_of_getElem? found
              obtain ⟨branchResult, -, run⟩ := forall₂_left each entry member
              rw [found, branchThread_some] at failure
              have same := branchStart_result options entry.1 branchId libc io stages entry.2 (by
                intro fresult given _ _ set
                refine (readTrace_counts _ io _ trace _ _ read' fresult ?_).trans (short set)
                rw [← given]
                exact (List.of_mem_zip member).2)
              rw [run] at same
              cases ended : (branchStart options entry.1 branchId libc io stages entry.2).result with
              | error fault => rw [ended] at same; cases same
              | ok left => rw [ended] at failure; cases failure
      | finished data filterResults schedule branchLefts read run lefts =>
          rw [reading, read'] at read
          cases read
          rw [engine_joined options data' filterResults' branchLefts read'
            (threads_plain filterResults' branchLefts lefts)] at plain
          cases ended : (joined options stages fquery branchLefts).result with
          | error fault => rw [ended] at plain; cases plain
          | ok results => rw [ended] at failure; cases failure

/-- For every query and trace there is a run, such as one thread after the other. -/
theorem run_exists (options : OutputOptions) (libc : Libc) (io : IoHandler) (stages : Stages)
    (fquery : Flowquery) (trace : List Record) :
    ∃ ops ended, Run options libc io stages fquery trace ops ended := by
  cases read : (readTrace options stages.filterEnabled io fquery.branchset trace).result with
  | error fault => exact ⟨_, _, Run.unread fault read⟩
  | ok filtered =>
      obtain ⟨data, filterResults⟩ := filtered
      by_cases fails : ∃ branchId fault,
          (thread options libc io stages fquery.branchset filterResults branchId).result =
            .error fault
      · obtain ⟨branchId, fault, failure⟩ := fails
        exact ⟨_, _, Run.failed data filterResults _ _ branchId fault read
          (Runs.alone _ branchId) (Function.update_self ..) failure⟩
      · have each (branchId : Nat) : ∃ left,
            (thread options libc io stages fquery.branchset filterResults branchId).result =
              .ok left := by
          cases ended : (thread options libc io stages fquery.branchset filterResults
            branchId).result with
          | error fault => exact absurd ⟨branchId, fault, ended⟩ fails
          | ok left => exact ⟨left, rfl⟩
        obtain ⟨branchLefts, lefts⟩ := lefts_exist options libc io stages
          (fquery.branchset.zip filterResults) 0 fun index => by
            rw [Nat.zero_add]
            exact each index
        refine ⟨_, _, Run.finished data filterResults _ branchLefts read
          (Interleaves.sequential (List.range fquery.branchset.length) List.nodup_range _ ?_)
          fun branchId => ?_⟩
        · intro branchId outside
          have none : (fquery.branchset.zip filterResults)[branchId]? = none := by
            rw [List.mem_range] at outside
            rw [List.getElem?_eq_none_iff, List.length_zip]
            omega
          rw [thread, none]
          rfl
        · have left := lefts branchId
          rwa [Nat.zero_add] at left

/-- Where the plain engine succeeds, so does some run. -/
theorem run_succeeds (created : fquery.branchset = [] ∨
      (options.verboseV && options.file && !stages.filterEnabled) = false)
    (short : options.verboseVv = true → trace.length ≤ intMax)
    (success : ∃ result, engine libc io stages fquery trace = .ok result) :
    ∃ ops left, Run options libc io stages fquery trace ops (.ok left) := by
  obtain ⟨result, plain⟩ := success
  obtain ⟨ops, ended, run⟩ := run_exists options libc io stages fquery trace
  cases ended with
  | error fault =>
      obtain ⟨fault', failed⟩ := run_failure created short run fault rfl
      rw [plain] at failed
      cases failed
  | ok left => exact ⟨ops, left, run⟩

/-- Runs that look for sessions, with files for all results. -/
abbrev SessionsRun : List (StreamOp ResultFile Record) → Except Fault EngineLeft → Prop :=
  Run Output.resultsOptions Libc.insertion (IoHandler.untimed 5) (Stages.all true)
    Flowquery.sessions Flowquery.flows

theorem sessions_run : ∃ ops left, SessionsRun ops (.ok left) ∧
    left.plain.streamSizes = some [3, 3] := by
  obtain ⟨result, success, sizes⟩ := sessions_engine
  have succeeds : ∃ ops left, SessionsRun ops (.ok left) :=
    run_succeeds (.inr rfl) (fun _ => by decide) ⟨result, success⟩
  obtain ⟨ops, left, run⟩ := succeeds
  have plain := run_success run left rfl
  rw [success, Except.ok.injEq] at plain
  exact ⟨ops, left, run, plain ▸ sizes⟩

/-- If one run succeeds, then all of them do, and leave the same in memory and in the
files, in whatever orders their threads were scheduled. -/
theorem runs_agree {left : EngineLeft}
    (run : Run options libc io stages fquery trace ops (.ok left))
    (run' : Run options libc io stages fquery trace ops' ended) (files : Files) :
    ended = .ok left ∧ options.leave ops' files = options.leave ops files := by
  obtain ⟨schedule, read, interleaved, lefts, finished, rfl⟩ := run.parts
  cases run' with
  | unread fault read' =>
      rw [read] at read'
      cases read'
  | failed data filterResults schedule' rest branchId fault read' _ _ failure =>
      rw [read] at read'
      cases read'
      rw [lefts branchId] at failure
      cases failure
  | finished data filterResults schedule' branchLefts read' interleaved' lefts' =>
      rw [read] at read'
      cases read'
      have same : branchLefts = left.branchLefts := by
        refine List.ext_getElem? fun branchId => ?_
        have both := (lefts' branchId).symm.trans (lefts branchId)
        rwa [Except.ok.injEq] at both
      rw [same, finished]
      refine ⟨rfl, leave_congr options _ _ (fun directory file => ?_) files⟩
      have owned := threads_owned options libc io stages fquery.branchset left.filterResults
      have scheduled (start : Directory ResultFile Record) :
          replay schedule' start = replay schedule start := by
        funext file
        rw [interleaved_replay ResultFile.branchId interleaved owned,
          interleaved_replay ResultFile.branchId interleaved' owned]
      rw [replay_append, replay_append, replay_append, replay_append, scheduled]

theorem runs_agree_sessions : ∃ ops left, SessionsRun ops (.ok left) ∧
    left.plain.streamSizes = some [3, 3] ∧ ∀ ops' ended, SessionsRun ops' ended →
      ended = .ok left ∧ ∀ files,
        Output.resultsOptions.leave ops' files = Output.resultsOptions.leave ops files := by
  obtain ⟨ops, left, run, sizes⟩ := sessions_run
  refine ⟨ops, left, run, sizes, fun _ _ run' => ⟨(runs_agree run run' fun _ => none).1, ?_⟩⟩
  exact fun files => (runs_agree run run' files).2

/-- Whatever the schedule, a run succeeds exactly if the plain engine does, with the same
results. -/
theorem run_iff_engine (created : fquery.branchset = [] ∨
      (options.verboseV && options.file && !stages.filterEnabled) = false)
    (short : options.verboseVv = true → trace.length ≤ intMax)
    (run : Run options libc io stages fquery trace ops ended) (result : EngineResult) :
    engine libc io stages fquery trace = .ok result ↔
      ∃ left, ended = .ok left ∧ left.plain = result := by
  constructor
  · intro plain
    cases ended with
    | error fault =>
        obtain ⟨fault', failed⟩ := run_failure created short run fault rfl
        rw [plain] at failed
        cases failed
    | ok left =>
        have same := run_success run left rfl
        rw [plain, Except.ok.injEq] at same
        exact ⟨left, rfl, same.symm⟩
  · rintro ⟨left, rfl, rfl⟩
    exact run_success run left rfl

/-- At every moment of a run each stream that is written or closed is open, and none is
created while it is. There are never more than two for each branch, or two. A run that
succeeds leaves none open. -/
theorem run_protocol (run : Run options libc io stages fquery trace ops ended) :
    (∀ first second, ops = first ++ second → ∃ opened : Finset ResultFile,
      follow StreamOp.step ∅ first = some opened ∧
        opened.card ≤ 2 * max fquery.branchset.length 1) ∧
      ∀ left, ended = .ok left → follow StreamOp.step ∅ ops = some ∅ := by
  obtain ⟨safe, closed⟩ := run_safe run
  refine ⟨fun first second whole => ?_, closed⟩
  rw [whole] at safe
  obtain ⟨opened, followed, later⟩ := safe.moment
  exact ⟨opened, followed, later.start⟩

theorem run_protocol_sessions : ∃ ops left, SessionsRun ops (.ok left) ∧
    left.plain.streamSizes = some [3, 3] ∧ follow StreamOp.step ∅ ops = some ∅ := by
  obtain ⟨ops, left, run, sizes⟩ := sessions_run
  exact ⟨ops, left, run, sizes, (run_protocol run).2 left rfl⟩

end Results

end Nfql.Emit
