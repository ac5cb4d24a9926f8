import Nfql.EmitMerges
import Nfql.EngineStages
import Nfql.StreamProtocol
import Mathlib.Algebra.Order.BigOperators.Group.Finset

set_option autoImplicit false

/- The runs of the engine: `main` reads the trace, the threads of the branches interleave,
and the other stages follow when all of them are joined. -/
namespace Nfql.Emit

open Emissions Interleavings OutputStreams Outcomes

/-- What a run leaves in memory. -/
@[ext]
structure EngineLeft where
  data : IoData
  filterResults : List (Option FilterResult)
  branchLefts : List BranchLeft
  mergerResult : Option MergerResult
  ungrouperResult : Option UngrouperResult

def EngineLeft.plain (left : EngineLeft) : EngineResult :=
  ⟨left.data, left.filterResults, left.branchLefts.map BranchLeft.plain, left.mergerResult,
    left.ungrouperResult⟩

section Main

variable (options : OutputOptions) (libc : Libc) (io : IoHandler) (stages : Stages)

/-- What a thread does, for a branch with its filter result. -/
def branchThread (branchId : Nat) : Option (Branch × Option FilterResult) →
    Emission (Option BranchLeft)
  | some (branch, filterResult) => do
      let left ← branchStart options branch branchId libc io stages filterResult
      pure (some left)
  | none => pure none

/-- The threads that `run_branch_async` starts. There is none past the last branch. -/
def thread (branchset : List Branch) (filterResults : List (Option FilterResult))
    (branchId : Nat) : Emission (Option BranchLeft) :=
  branchThread options libc io stages branchId (branchset.zip filterResults)[branchId]?

def engineMerger (fquery : Flowquery) (branchLefts : List BranchLeft) :
    Emission (Option MergerResult) :=
  if stages.mergerEnabled then do
    let gfilterResults ← .of (gfilterResults (branchLefts.map BranchLeft.plain))
    let mresult ← merger options MergerTerm.func fquery.mergerClauseset gfilterResults
    pure (some mresult)
  else pure none

def engineUngrouper (fquery : Flowquery) (mergerResult : Option MergerResult) :
    Emission (Option UngrouperResult) :=
  if stages.ungrouperEnabled then do
    let uresult ← ungrouper options fquery.branchset.length mergerResult
    pure (some uresult)
  else pure none

/-- The stages that follow when the threads are joined. -/
def joined (fquery : Flowquery) (branchLefts : List BranchLeft) :
    Emission (Option MergerResult × Option UngrouperResult) := do
  let mergerResult ← engineMerger options stages fquery branchLefts
  let ungrouperResult ← engineUngrouper options stages fquery mergerResult
  pure (mergerResult, ungrouperResult)

/-- The operations of a run on the result directory, and how it ends. A thread's failure
ends the process, wherever the other threads are. -/
inductive Run (fquery : Flowquery) (trace : List Record) :
    List (StreamOp ResultFile Record) → Except Fault EngineLeft → Prop where
  | unread (fault : Fault)
      (read : (readTrace options stages.filterEnabled io fquery.branchset trace).result =
        .error fault) :
      Run fquery trace
        (readTrace options stages.filterEnabled io fquery.branchset trace).actions (.error fault)
  | failed (data : IoData) (filterResults : List (Option FilterResult))
      (schedule : List (StreamOp ResultFile Record))
      (rest : Nat → List (StreamOp ResultFile Record)) (branchId : Nat) (fault : Fault)
      (read : (readTrace options stages.filterEnabled io fquery.branchset trace).result =
        .ok (data, filterResults))
      (run : Runs (fun branchId =>
        (thread options libc io stages fquery.branchset filterResults branchId).actions)
          schedule rest)
      (reached : rest branchId = [])
      (failure : (thread options libc io stages fquery.branchset filterResults branchId).result =
        .error fault) :
      Run fquery trace
        ((readTrace options stages.filterEnabled io fquery.branchset trace).actions ++ schedule)
        (.error fault)
  | finished (data : IoData) (filterResults : List (Option FilterResult))
      (schedule : List (StreamOp ResultFile Record)) (branchLefts : List BranchLeft)
      (read : (readTrace options stages.filterEnabled io fquery.branchset trace).result =
        .ok (data, filterResults))
      (run : Interleaves (fun branchId =>
        (thread options libc io stages fquery.branchset filterResults branchId).actions) schedule)
      (left : ∀ branchId,
        (thread options libc io stages fquery.branchset filterResults branchId).result =
          .ok branchLefts[branchId]?) :
      Run fquery trace
        ((readTrace options stages.filterEnabled io fquery.branchset trace).actions ++ schedule ++
          (joined options stages fquery branchLefts).actions)
        ((joined options stages fquery branchLefts).result.map fun results =>
          ⟨data, filterResults, branchLefts, results.1, results.2⟩)

end Main

section Parts

variable {options : OutputOptions} {libc : Libc} {io : IoHandler} {stages : Stages}
  {fquery : Flowquery} {trace : List Record}

/-- A run that succeeds has read the trace, has run all threads to their end, and has
gone through the other stages. -/
theorem Run.parts {ops : List (StreamOp ResultFile Record)} {left : EngineLeft}
    (run : Run options libc io stages fquery trace ops (.ok left)) :
    ∃ schedule,
      (readTrace options stages.filterEnabled io fquery.branchset trace).result =
        .ok (left.data, left.filterResults) ∧
      Interleaves (fun branchId =>
        (thread options libc io stages fquery.branchset left.filterResults branchId).actions)
          schedule ∧
      (∀ branchId,
        (thread options libc io stages fquery.branchset left.filterResults branchId).result =
          .ok left.branchLefts[branchId]?) ∧
      (joined options stages fquery left.branchLefts).result =
        .ok (left.mergerResult, left.ungrouperResult) ∧
      ops = (readTrace options stages.filterEnabled io fquery.branchset trace).actions ++ schedule ++
        (joined options stages fquery left.branchLefts).actions := by
  generalize success : (.ok left : Except Fault EngineLeft) = ended at run
  cases run with
  | unread | failed => cases success
  | finished data filterResults schedule branchLefts read run lefts =>
      cases finished : (joined options stages fquery branchLefts).result with
      | error fault => rw [finished] at success; cases success
      | ok results =>
          rw [finished] at success
          cases success
          exact ⟨schedule, read, run, lefts, finished, rfl⟩

end Parts

section Streams

variable (options : OutputOptions) (libc : Libc) (io : IoHandler) (stages : Stages)
  (branchset : List Branch) (filterResults : List (Option FilterResult))

/-- A thread works on the files of its branch, with at most two streams open. -/
theorem thread_streams (branchId : Nat) {mine : ResultFile → Prop} [DecidablePred mine]
    (own : mine (.filteredGroups branchId))
    (stageOwn : ∀ file : StageFile, file.branchId = branchId → mine (.grouper file)) :
    Streams mine (if branchId < branchset.length then 2 else 0) ∅
      (thread options libc io stages branchset filterResults branchId) ∅ := by
  have within (limit : Nat) : AtMost limit ∅ := Nat.zero_le _
  rw [thread]
  cases found : (branchset.zip filterResults)[branchId]? with
  | none => exact Keeps.pure (within _) _
  | some entry =>
      have inside := (List.getElem?_eq_some_iff.mp found).1
      rw [List.length_zip] at inside
      rw [if_pos (by omega)]
      exact (branchStart_streams options entry.1 branchId own libc io stages stageOwn entry.2).bind
        fun _ _ => Keeps.pure (within 2) _

theorem thread_owns (branchId : Nat) :
    Streams (fun file => file.branchId = branchId) (if branchId < branchset.length then 2 else 0) ∅
      (thread options libc io stages branchset filterResults branchId) ∅ :=
  thread_streams options libc io stages branchset filterResults branchId (by rfl)
    fun _ same => same

theorem threads_owned : Owned (fun op : StreamOp ResultFile Record => op.file.branchId)
    fun branchId => (thread options libc io stages branchset filterResults branchId).actions := by
  intro branchId op member
  have safe := (thread_owns options libc io stages branchset filterResults branchId).safe
  obtain ⟨_, _, taken⟩ := safe.allows member
  exact StreamOp.stepOn_mine taken

/-- What the open streams come down to if no thread has more than two. -/
theorem card_opened_le (count : Nat) (opened : Finset ResultFile)
    (each : ∀ branchId, AtMost (if branchId < count then 2 else 0)
      (opened.filter fun file => file.branchId = branchId)) : opened.card ≤ 2 * count := by
  have bound := Finset.card_le_mul_card_image_of_maps_to (s := opened) (t := Finset.range count)
    (f := ResultFile.branchId) (by
      intro file inside
      rw [Finset.mem_range]
      by_contra beyond
      have none := each file.branchId
      rw [if_neg beyond] at none
      have empty := Finset.card_eq_zero.mp (Nat.le_zero.mp none)
      exact Finset.notMem_empty file (empty ▸ Finset.mem_filter.mpr ⟨inside, rfl⟩))
    2 (by
      intro branchId inside
      have few := each branchId
      rwa [if_pos (Finset.mem_range.mp inside)] at few)
  rwa [Finset.card_range] at bound

/-- However the threads interleave, they keep to the protocol of the streams. -/
theorem threads_safe {schedule : List (StreamOp ResultFile Record)}
    {rest : Nat → List (StreamOp ResultFile Record)}
    (run : Runs (fun branchId =>
      (thread options libc io stages branchset filterResults branchId).actions) schedule rest) :
    ∃ reached, follow StreamOp.step ∅ schedule = some reached ∧
      reached.card ≤ 2 * branchset.length ∧
      ∀ branchId, follow StreamOp.step (reached.filter fun file => file.branchId = branchId)
          (rest branchId) =
        follow StreamOp.step ∅
          (thread options libc io stages branchset filterResults branchId).actions := by
  have safe (branchId : Nat) :
      Safe StreamOp.step (AtMost (if branchId < branchset.length then 2 else 0)) ∅
        (thread options libc io stages branchset filterResults branchId).actions :=
    (thread_owns options libc io stages branchset filterResults branchId).safe.weaken
      StreamOp.stepOn_step
  obtain ⟨reached, followed, each⟩ := interleaved_safe ResultFile.branchId run
    (threads_owned options libc io stages branchset filterResults) ∅ (by
      intro branchId
      rw [Finset.filter_empty]
      exact safe branchId)
  refine ⟨reached, followed, card_opened_le _ _ fun branchId => (each branchId).1.start, ?_⟩
  intro branchId
  have same := (each branchId).2
  rwa [Finset.filter_empty] at same

end Streams

section Safety

variable {options : OutputOptions} {libc : Libc} {io : IoHandler} {stages : Stages}
  {fquery : Flowquery} {trace : List Record} {ops : List (StreamOp ResultFile Record)}
  {ended : Except Fault EngineLeft}

theorem engineMerger_streams {mine : ResultFile → Prop} [DecidablePred mine]
    (own : mine .mergedGroups) (own' : mine .toBeMergedGroups) (branchLefts : List BranchLeft) :
    Streams mine 2 ∅ (engineMerger options stages fquery branchLefts) ∅ := by
  have within : AtMost 2 ∅ := Nat.zero_le _
  unfold engineMerger
  split
  · refine (Keeps.of within _).bind fun gfilterResults _ => ?_
    exact (merger_streams options MergerTerm.func fquery.mergerClauseset gfilterResults own
      own').bind fun _ _ => Keeps.pure within _
  · exact Keeps.pure within _

theorem engineUngrouper_streams {mine : ResultFile → Prop} [DecidablePred mine]
    (own : ∀ index, mine (.stream index)) (mergerResult : Option MergerResult) :
    Streams mine 2 ∅ (engineUngrouper options stages fquery mergerResult) ∅ := by
  have within : AtMost 2 ∅ := Nat.zero_le _
  unfold engineUngrouper
  split
  · have single := ungrouper_streams options fquery.branchset.length own mergerResult
    have wider : Streams mine 2 ∅ (ungrouper options fquery.branchset.length mergerResult) ∅ :=
      ⟨single.safe.imp fun _ few => few.trans (by decide), single.ends⟩
    exact wider.bind fun _ _ => Keeps.pure within _
  · exact Keeps.pure within _

theorem joined_streams {mine : ResultFile → Prop} [DecidablePred mine] (own : mine .mergedGroups)
    (own' : mine .toBeMergedGroups) (streamOwn : ∀ index, mine (.stream index))
    (branchLefts : List BranchLeft) :
    Streams mine 2 ∅ (joined options stages fquery branchLefts) ∅ := by
  have within : AtMost 2 ∅ := Nat.zero_le _
  refine (engineMerger_streams own own' branchLefts).bind fun mergerResult _ => ?_
  exact (engineUngrouper_streams streamOwn mergerResult).bind fun _ _ => Keeps.pure within _

/-- When all threads have ended without failure, all their streams are closed. -/
theorem threads_closed (branchset : List Branch) (filterResults : List (Option FilterResult))
    (schedule : List (StreamOp ResultFile Record)) (branchLefts : List BranchLeft)
    (run : Interleaves (fun branchId =>
      (thread options libc io stages branchset filterResults branchId).actions) schedule)
    (left : ∀ branchId, (thread options libc io stages branchset filterResults branchId).result =
      .ok branchLefts[branchId]?) : follow StreamOp.step ∅ schedule = some ∅ := by
  obtain ⟨reached, followed, -, each⟩ :=
    threads_safe options libc io stages branchset filterResults run
  rw [followed, Option.some.injEq, Finset.eq_empty_iff_forall_notMem]
  intro file inside
  have ends := follow_weaken StreamOp.stepOn_step
    ((thread_owns options libc io stages branchset filterResults file.branchId).ends _
      (left file.branchId))
  have none := (each file.branchId).trans ends
  rw [follow, List.foldlM_nil, Option.pure_def, Option.some.injEq] at none
  exact Finset.notMem_empty file (none ▸ Finset.mem_filter.mpr ⟨inside, rfl⟩)

theorem run_safe (run : Run options libc io stages fquery trace ops ended) :
    Safe StreamOp.step (AtMost (2 * max fquery.branchset.length 1)) ∅ ops ∧
      ∀ left, ended = .ok left → follow StreamOp.step ∅ ops = some ∅ := by
  have reading : Streams (fun _ => True) fquery.branchset.length ∅
      (readTrace options stages.filterEnabled io fquery.branchset trace) ∅ :=
    readTrace_streams options (fun _ => trivial) stages.filterEnabled io fquery.branchset trace
  have read_safe : Safe StreamOp.step (AtMost (2 * max fquery.branchset.length 1)) ∅
      (readTrace options stages.filterEnabled io fquery.branchset trace).actions :=
    (reading.safe.weaken StreamOp.stepOn_step).imp fun _ few => few.trans (by omega)
  have threads_safe (filterResults : List (Option FilterResult))
      (schedule : List (StreamOp ResultFile Record))
      (rest : Nat → List (StreamOp ResultFile Record)) (run : Runs (fun branchId =>
        (thread options libc io stages fquery.branchset filterResults branchId).actions)
          schedule rest) :
      Safe StreamOp.step (AtMost (2 * max fquery.branchset.length 1)) ∅ schedule := by
    refine Safe.of_moments fun first second whole => ?_
    rw [whole] at run
    obtain ⟨middle, before, -⟩ := run.split
    obtain ⟨reached, followed, few, -⟩ :=
      threads_safe options libc io stages fquery.branchset filterResults before
    exact ⟨reached, followed, few.trans (by omega)⟩
  cases run with
  | unread fault read => exact ⟨read_safe, fun _ success => nomatch success⟩
  | failed data filterResults schedule rest branchId fault read run reached failure =>
      refine ⟨read_safe.append fun reached followed => ?_, fun _ success => nomatch success⟩
      have closed := follow_weaken StreamOp.stepOn_step (reading.ends _ read)
      rw [closed, Option.some.injEq] at followed
      rw [← followed]
      exact threads_safe filterResults schedule rest run
  | finished data filterResults schedule branchLefts read run left =>
      have closed := follow_weaken StreamOp.stepOn_step (reading.ends _ read)
      have all_closed := threads_closed fquery.branchset filterResults schedule branchLefts run left
      have later : Streams (fun _ => True) 2 ∅ (joined options stages fquery branchLefts) ∅ :=
        joined_streams trivial trivial (fun _ => trivial) branchLefts
      constructor
      · refine (read_safe.append fun reached followed => ?_).append fun reached followed => ?_
        · rw [closed, Option.some.injEq] at followed
          rw [← followed]
          exact threads_safe filterResults schedule _ run
        · rw [follow_append closed, all_closed, Option.some.injEq] at followed
          rw [← followed]
          exact (later.safe.weaken StreamOp.stepOn_step).imp fun _ few => few.trans (by omega)
      · intro whole success
        rw [follow_append (by rw [follow_append closed, all_closed])]
        cases ended : (joined options stages fquery branchLefts).result with
        | error fault => rw [ended] at success; cases success
        | ok results => exact follow_weaken StreamOp.stepOn_step (later.ends _ ended)

end Safety

end Nfql.Emit
