import Nfql.EmitResults
import Mathlib.Data.Finset.Card

set_option autoImplicit false

/- Every stage writes and closes only streams that it has open, and opens none twice. -/
namespace Nfql.Emit

open Emissions OutputStreams

section Operations

variable (options : OutputOptions)

/-- The open streams after `if (asked && file)` has created one. -/
def opening (asked : Bool) (file : ResultFile) (opened : Finset ResultFile) : Finset ResultFile :=
  if asked && options.file then insert file opened else opened

theorem mem_opening (asked : Bool) (file : ResultFile) (opened : Finset ResultFile)
    (created : (asked && options.file) = true) : file ∈ opening options asked file opened := by
  rw [opening, if_pos created]
  exact Finset.mem_insert_self file opened

theorem mem_opening_of_mem (asked : Bool) (file other : ResultFile) (opened : Finset ResultFile)
    (inside : other ∈ opened) : other ∈ opening options asked file opened := by
  rw [opening]
  split
  · exact Finset.mem_insert_of_mem inside
  · exact inside

theorem notMem_opening (asked : Bool) {file other : ResultFile} {opened : Finset ResultFile}
    (apart : other ≠ file) (outside : other ∉ opened) :
    other ∉ opening options asked file opened := by
  rw [opening]
  split
  · rw [Finset.mem_insert, not_or]
    exact ⟨apart, outside⟩
  · exact outside

theorem card_opening_le (asked : Bool) (file : ResultFile) (opened : Finset ResultFile) :
    (opening options asked file opened).card ≤ opened.card + 1 := by
  rw [opening]
  split
  · exact Finset.card_insert_le file opened
  · exact Nat.le_succ _

def AtMost (limit : Nat) (opened : Finset ResultFile) : Prop := opened.card ≤ limit

theorem atMost_opening {limit : Nat} (asked : Bool) (file : ResultFile)
    {opened : Finset ResultFile} (room : opened.card < limit) :
    AtMost limit (opening options asked file opened) :=
  (card_opening_le options asked file opened).trans room

variable (mine : ResultFile → Prop) [DecidablePred mine] (limit : Nat)

/-- From some open streams to others, without ever more than a limit of them. -/
abbrev Streams {α : Type} (before : Finset ResultFile) (run : Emission α)
    (after : Finset ResultFile) : Prop :=
  Keeps (StreamOp.stepOn mine) (AtMost limit) before run after

variable {mine limit} {asked : Bool} {file : ResultFile} {opened : Finset ResultFile}

theorem streams_create (own : mine file) (fresh : file ∉ opened) (room : opened.card < limit) :
    Streams mine limit opened (options.create asked file) (opening options asked file opened) := by
  have within : AtMost limit opened := room.le
  unfold OutputOptions.create OutputOptions.emit opening
  split
  · refine Keeps.action within ?_ ((Finset.card_insert_le file opened).trans room)
    rw [StreamOp.stepOn, if_pos (by exact own), StreamOp.step_create fresh]
  · exact Keeps.pure within ()

theorem streams_write (own : mine file)
    (isOpen : (asked && options.file) = true → file ∈ opened) (room : AtMost limit opened)
    (record : Record) : Streams mine limit opened (options.write asked file record) opened := by
  unfold OutputOptions.write OutputOptions.emit
  split
  · rename_i created
    refine Keeps.action room ?_ room
    rw [StreamOp.stepOn, if_pos (by exact own), StreamOp.step_write (isOpen created)]
  · exact Keeps.pure room ()

theorem streams_close (own : mine file) (fresh : file ∉ opened) (room : opened.card < limit) :
    Streams mine limit (opening options asked file opened) (options.close asked file) opened := by
  have within : AtMost limit opened := room.le
  unfold OutputOptions.close OutputOptions.emit opening
  split
  · refine Keeps.action ((Finset.card_insert_le file opened).trans room) ?_ room.le
    rw [StreamOp.stepOn, if_pos (by exact own),
      StreamOp.step_close (Finset.mem_insert_self file opened), Finset.erase_insert fresh]
  · exact Keeps.pure within ()

/-- Files that a part of the run does not work on are left as they are. -/
theorem streams_untouched {α : Type} {before after : Finset ResultFile} {run : Emission α}
    (kept : Streams mine limit before run after) (other : ¬ mine file)
    (directory : Directory ResultFile Record) : replay run.actions directory file = directory file := by
  refine replay_untouched file _ (fun op member same => ?_) directory
  obtain ⟨_, _, taken⟩ := kept.safe.allows member
  exact other (same ▸ StreamOp.stepOn_mine taken)

end Operations

section Grouper

variable (options : OutputOptions) (libc : Libc) (funcs : GrouperFuncs) (io : IoHandler)
  (groupaggregationsEnabled : Bool) (branch : Branch) (branchId : Nat)
  {mine : ResultFile → Prop} [DecidablePred mine]

theorem growGroup_streams {limit : Nat} {opened : Finset ResultFile} (clause : List GrouperTerm)
    (recordset : List (Option RecordPtr)) (lastItem : Nat) (file : ResultFile) (currentItem : Nat)
    (group : Output.Growing) (own : mine file)
    (isOpen : (options.verboseVv && options.file) = true → file ∈ opened)
    (room : AtMost limit opened) :
    Streams mine limit opened
      (growGroup options funcs io clause recordset lastItem file currentItem group) opened := by
  fun_induction growGroup options funcs io clause recordset lastItem file currentItem group with
  | case1 => exact Keeps.pure room _
  | case2 | case3 => exact Keeps.error room _
  | case4 => exact Keeps.pure room _
  | case5 currentItem group _ item _ _ ih =>
      refine (streams_write options own isOpen room item.record).bind fun _ _ => ?_
      exact (ih).bind fun _ _ => Keeps.pure room _

variable (own : ∀ file : StageFile, file.branchId = branchId → mine (.grouper file))

include own in
/-- Each turn of the scan has one more stream open, that of the group's members. -/
theorem scanGroups_streams {opened : Finset ResultFile} (clause : List GrouperTerm)
    (recordset : List (Option RecordPtr)) (lastItem : Nat)
    (cook : List RecordPtr → Span → Except Fault Group) (currentItem : Nat) (left : Left)
    (isOpen : (options.verboseV && options.file) = true → .grouper (.groups branchId) ∈ opened)
    (fresh : ∀ group, .grouper (.groupRecords branchId group) ∉ opened)
    (room : opened.card < 2) :
    Streams mine 2 opened
      (scanGroups options funcs io branchId clause recordset lastItem cook currentItem left)
      opened := by
  have within : AtMost 2 opened := room.le
  fun_induction scanGroups options funcs io branchId clause recordset lastItem cook currentItem
      left with
  | case1 => exact Keeps.error within _
  | case2 => exact Keeps.pure within _
  | case3 currentItem left item _ numGroups ih =>
      let file := ResultFile.grouper (Output.memberFile branchId numGroups)
      have closed : file ∉ opened := fresh _
      have members : mine file := own _ rfl
      refine (Keeps.of within _).bind fun _ _ => ?_
      refine (streams_create options members closed room).bind fun _ _ => ?_
      refine (growGroup_streams options funcs io clause recordset lastItem file currentItem _
        members (mem_opening options _ file opened)
        (atMost_opening options _ file room)).bind fun ⟨⟨reached, forward⟩, grown⟩ _ => ?_
      refine (streams_close options members closed room).bind fun _ _ => ?_
      refine (Keeps.of within _).bind fun group _ => ?_
      refine (streams_write options (own _ rfl) isOpen within _).bind fun _ _ => ?_
      exact ih reached forward group

include own in
theorem saveSorted_streams {opened : Finset ResultFile} (sorted : List RecordPtr) (left : Left)
    (fresh : .grouper (.sortedRecords branchId) ∉ opened) (room : opened.card < 2) :
    Streams mine 2 opened (saveSorted options branchId sorted left) opened := by
  have within : AtMost 2 opened := room.le
  have wider := atMost_opening options true (.grouper (.sortedRecords branchId)) room
  rw [saveSorted]
  split
  · refine (streams_create options (own _ rfl) fresh room).bind fun _ _ => ?_
    refine (Keeps.of wider _).bind fun _ _ => ?_
    refine (Keeps.forM sorted wider fun item _ => ?_).bind fun _ _ => ?_
    · exact streams_write options (own _ rfl) (mem_opening options true _ opened) wider item.record
    · refine (streams_close options (own _ rfl) fresh room).bind fun _ _ => ?_
      exact Keeps.pure within _
  · exact Keeps.pure within _

variable (numFilteredRecords : Nat)

include own in
theorem groupClauses_streams {opened : Finset ResultFile} (clauses : List (List GrouperTerm))
    (recordset : List (Option RecordPtr)) (left : Left)
    (isOpen : (options.verboseV && options.file) = true → .grouper (.groups branchId) ∈ opened)
    (fresh : ∀ group, .grouper (.groupRecords branchId group) ∉ opened)
    (unsorted : .grouper (.sortedRecords branchId) ∉ opened) (room : opened.card < 2) :
    Streams mine 2 opened (groupClauses options libc funcs io groupaggregationsEnabled branch
      branchId numFilteredRecords clauses recordset left) opened := by
  have within : AtMost 2 opened := room.le
  induction clauses generalizing recordset left with
  | nil => exact Keeps.pure within _
  | cons clause rest ih =>
      have sorting : Streams mine 2 opened (getGrouperIntermediates options libc funcs branchId
          numFilteredRecords recordset clause left) opened := by
        refine (Keeps.of within _).bind fun items _ => ?_
        refine (saveSorted_streams options branchId own _ left unsorted room).bind fun left _ => ?_
        split
        · exact Keeps.pure within _
        · exact Keeps.error within _
      refine sorting.bind fun sorted _ => ?_
      refine (scanGroups_streams options funcs io branchId own clause sorted.1 _ _ 0 sorted.2 isOpen
        fresh room).bind fun left _ => ih _ _

include own in
theorem clubRecords_streams {opened : Finset ResultFile} (recordset : List (Option RecordPtr))
    (isOpen : (options.verboseV && options.file) = true → .grouper (.groups branchId) ∈ opened)
    (fresh : .grouper (.groupRecords branchId 0) ∉ opened) (room : opened.card < 2) :
    Streams mine 2 opened (clubRecords options libc io groupaggregationsEnabled branch branchId
      numFilteredRecords recordset) opened := by
  have within : AtMost 2 opened := room.le
  refine (Keeps.of within _).bind fun members _ => ?_
  cases members with
  | nil => exact Keeps.error within _
  | cons first rest =>
      refine (Keeps.of within _).bind fun _ _ => ?_
      refine (Keeps.of within _).bind fun group _ => ?_
      refine (streams_write options (own _ rfl) isOpen within group.record).bind fun _ _ => ?_
      refine (streams_create options (own _ rfl) fresh room).bind fun _ _ => ?_
      refine (streams_close options (own _ rfl) fresh room).bind fun _ _ => ?_
      exact Keeps.pure within _

include own in
theorem grouper_streams (fresult : FilterResult) :
    Streams mine 2 ∅ (grouper options libc funcs io groupaggregationsEnabled branch branchId fresult)
      ∅ := by
  have none : (∅ : Finset ResultFile).card < 2 := by decide
  have within : AtMost 2 ∅ := none.le
  have groups : (opening options options.verboseV (.grouper (.groups branchId)) ∅).card < 2 :=
    Nat.lt_succ_of_le (card_opening_le options _ _ ∅)
  have isOpen := mem_opening options options.verboseV (.grouper (.groups branchId)) ∅
  have fresh (file : StageFile) (apart : file ≠ .groups branchId) : ResultFile.grouper file ∉
      opening options options.verboseV (.grouper (.groups branchId)) ∅ :=
    notMem_opening options _ (fun same => apart (ResultFile.grouper.inj same)) (Finset.notMem_empty _)
  rw [grouper]
  split
  · refine (streams_create options (own _ rfl) (Finset.notMem_empty _) none).bind fun _ _ => ?_
    have grouping : Streams mine 2 (opening options options.verboseV (.grouper (.groups branchId)) ∅)
        (groupRecords options libc funcs io groupaggregationsEnabled branch branchId fresult)
        (opening options options.verboseV (.grouper (.groups branchId)) ∅) := by
      rw [groupRecords]
      split
      · exact clubRecords_streams options libc io groupaggregationsEnabled branch branchId own _ _
          isOpen (fresh _ (by simp)) groups
      · exact groupClauses_streams options libc funcs io groupaggregationsEnabled branch branchId
          own _ _ _ _ isOpen (fun group => fresh _ (by simp)) (fresh _ (by simp)) groups
    refine grouping.bind fun left _ => ?_
    refine (streams_close options (own _ rfl) (Finset.notMem_empty _) none).bind fun _ _ => ?_
    exact Keeps.pure within _
  · exact Keeps.pure within _

end Grouper

section Filter

variable (options : OutputOptions) (recordSize : Nat)
  {mine : ResultFile → Prop} [DecidablePred mine]

/-- The open streams of the filtered records of some branches. -/
def filteredStreams (branchIds : List Nat) : Finset ResultFile :=
  if options.verboseV && options.file then (branchIds.map ResultFile.filteredRecords).toFinset
  else ∅

theorem card_filteredStreams_le (branchIds : List Nat) :
    (filteredStreams options branchIds).card ≤ branchIds.length := by
  rw [filteredStreams]
  split
  · exact (List.toFinset_card_le _).trans (List.length_map ..).le
  · exact Nat.zero_le _

theorem filteredStreams_cons (branchId : Nat) (rest : List Nat) :
    filteredStreams options (branchId :: rest) =
      opening options options.verboseV (.filteredRecords branchId)
        (filteredStreams options rest) := by
  unfold filteredStreams opening
  split
  · rw [List.map_cons, List.toFinset_cons]
  · rfl

theorem filteredStreams_range_succ (count : Nat) :
    filteredStreams options (List.range (count + 1)) =
      opening options options.verboseV (.filteredRecords count)
        (filteredStreams options (List.range count)) := by
  rw [← filteredStreams_cons]
  unfold filteredStreams
  split
  · rw [List.range_succ, List.map_append, List.map_cons, List.map_nil,
      List.toFinset_eq_of_perm _ _ List.perm_append_comm]
    rfl
  · rfl

theorem notMem_filteredStreams {branchId : Nat} {branchIds : List Nat}
    (outside : branchId ∉ branchIds) :
    .filteredRecords branchId ∉ filteredStreams options branchIds := by
  rw [filteredStreams]
  split
  · rw [List.mem_toFinset, List.mem_map]
    rintro ⟨other, inside, same⟩
    cases same
    exact outside inside
  · exact Finset.notMem_empty _

variable {limit : Nat} {opened : Finset ResultFile}
  (own : ∀ branchId, mine (.filteredRecords branchId)) (room : AtMost limit opened)

include own room in
/-- While the trace is read the streams of all branches stay open. -/
theorem filterRecord_streams (record : Record) (branchId : Nat) (pass : Pass)
    (branches : List (Branch × Option FilterResult))
    (isOpen : (options.verboseV && options.file) = true → ∀ i < branches.length,
      .filteredRecords (branchId + i) ∈ opened) :
    Streams mine limit opened (filterRecord options recordSize record branchId pass branches)
      opened := by
  induction branches generalizing branchId pass with
  | nil => exact Keeps.pure room _
  | cons entry rest ih =>
      obtain ⟨branch, result⟩ := entry
      have decided : Streams mine limit opened
          (filterBranch options recordSize record branchId pass branch result) opened := by
        refine (Keeps.of room _).bind fun filtered _ => ?_
        split
        · refine (streams_write options (own _) (fun asked => ?_) room record).bind fun _ _ =>
            Keeps.pure room _
          exact isOpen asked 0 (Nat.zero_lt_succ _)
        · exact Keeps.pure room _
      refine decided.bind fun ⟨pass, result⟩ _ => ?_
      refine (ih (branchId + 1) pass fun asked i inside => ?_).bind fun _ _ => Keeps.pure room _
      rw [Nat.add_assoc, Nat.add_comm 1 i]
      exact isOpen asked (i + 1) (Nat.succ_lt_succ inside)

include own room in
theorem filterTrace_streams (trace : List Record) (data : IoData)
    (branches : List (Branch × Option FilterResult))
    (isOpen : (options.verboseV && options.file) = true → ∀ branchId < branches.length,
      .filteredRecords branchId ∈ opened) :
    Streams mine limit opened (filterTrace options recordSize trace data branches) opened := by
  induction trace generalizing data branches with
  | nil => exact Keeps.pure room _
  | cons record rest ih =>
      refine (filterRecord_streams options recordSize own room record 0 _ branches
        fun asked i inside => ?_).bind fun ⟨data, later⟩ run => ?_
      · rw [Nat.zero_add]
        exact isOpen asked i inside
      · rw [filterRecord_result] at run
        have count := congrArg List.length (filterRecord_branches _ _ _ _ _ _ run)
        rw [List.length_map, List.length_map] at count
        exact ih data later (by rwa [count])

theorem filteredStreams_atMost {branches : Nat} (branchIds : List Nat)
    (few : branchIds.length ≤ branches) : AtMost branches (filteredStreams options branchIds) :=
  (card_filteredStreams_le options branchIds).trans few

theorem filteredStreams_nil : filteredStreams options [] = ∅ := by
  unfold filteredStreams
  split <;> rfl

/-- Before a branch's turn, the streams of the branches before it are open. -/
theorem filteredStreams_created (own : ∀ branchId, mine (.filteredRecords branchId))
    (filterEnabled : Bool) (branches : Nat) :
    Streams mine branches ∅ ((List.range branches).forM (createFiltered options filterEnabled))
      (filteredStreams options (List.range branches)) := by
  let opened (rest : List Nat) := filteredStreams options (List.range (branches - rest.length))
  have all : AtMost branches (opened []) :=
    filteredStreams_atMost options _ (List.length_range ..).le
  have loop : Streams mine branches (opened (List.range branches))
      ((List.range branches).forM (createFiltered options filterEnabled)) (opened []) := by
    refine Keeps.forM_rest opened _ all ?_
    rintro branchId rest ⟨before, whole⟩
    have length := congrArg List.length whole
    rw [List.length_append, List.length_cons, List.length_range] at length
    have first := congrArg (·[before.length]?) whole
    simp only [List.getElem?_append_right (Nat.le_refl _), Nat.sub_self,
      List.getElem?_cons_zero] at first
    rw [List.getElem?_range (by omega), Option.some.injEq] at first
    have done : branches - (branchId :: rest).length = branchId := by
      rw [List.length_cons]
      omega
    have next : branches - rest.length = branchId + 1 := by omega
    show Streams mine _ (filteredStreams options (List.range (_ - _))) _
      (filteredStreams options (List.range (_ - _)))
    rw [done, next, filteredStreams_range_succ]
    have fits : (filteredStreams options (List.range branchId)).card < branches :=
      (card_filteredStreams_le options _).trans_lt (by rw [List.length_range]; omega)
    have fresh : .filteredRecords branchId ∉ filteredStreams options (List.range branchId) :=
      notMem_filteredStreams options (by simp)
    refine (streams_create options (own _) fresh fits).bind fun _ _ => ?_
    split
    · exact Keeps.error (atMost_opening options _ _ fits) _
    · exact Keeps.pure (atMost_opening options _ _ fits) _
  have start : opened (List.range branches) = ∅ := by
    show filteredStreams options (List.range (_ - _)) = ∅
    rw [List.length_range, Nat.sub_self, List.range_zero, filteredStreams_nil]
  rwa [start] at loop

theorem filteredStreams_closed (own : ∀ branchId, mine (.filteredRecords branchId))
    (branches : Nat) :
    Streams mine branches (filteredStreams options (List.range branches))
      ((List.range branches).forM fun branchId =>
        options.close options.verboseV (.filteredRecords branchId)) ∅ := by
  rw [← filteredStreams_nil options]
  refine Keeps.forM_rest (filteredStreams options) _
    (filteredStreams_atMost options [] (Nat.zero_le _)) ?_
  intro branchId rest suffix
  have length := suffix.length_le
  rw [List.length_cons, List.length_range] at length
  have fresh := (List.nodup_cons.mp (suffix.sublist.nodup List.nodup_range)).1
  have room : (filteredStreams options rest).card < branches :=
    (card_filteredStreams_le options rest).trans_lt length
  rw [filteredStreams_cons]
  exact streams_close options (own _) (notMem_filteredStreams options fresh) room

/-- `read_trace` opens at most one stream for each branch. -/
theorem readTrace_streams (own : ∀ branchId, mine (.filteredRecords branchId))
    (filterEnabled : Bool) (io : IoHandler) (branchset : List Branch) (trace : List Record) :
    Streams mine branchset.length ∅ (readTrace options filterEnabled io branchset trace) ∅ := by
  have all : AtMost branchset.length (filteredStreams options (List.range branchset.length)) :=
    filteredStreams_atMost options _ (List.length_range ..).le
  refine (filteredStreams_created options own filterEnabled branchset.length).bind fun _ _ => ?_
  refine (filterTrace_streams options io.readGetRecordSize own all trace ⟨0, []⟩ _ ?_).bind
    fun filtered _ => ?_
  · intro asked branchId inside
    rw [List.length_map] at inside
    rw [filteredStreams, if_pos asked, List.mem_toFinset]
    exact List.mem_map_of_mem (List.mem_range.mpr inside)
  · refine (filteredStreams_closed options own branchset.length).bind fun _ _ => ?_
    have empty : AtMost branchset.length ∅ := Nat.zero_le _
    split
    · exact (Keeps.of empty _).bind fun _ _ => Keeps.pure empty _
    · exact Keeps.pure empty _

end Filter

section Branches

variable (options : OutputOptions) (branch : Branch) (branchId : Nat)
  {mine : ResultFile → Prop} [DecidablePred mine] (own : mine (.filteredGroups branchId))

include own in
theorem filterGroups_streams {opened : Finset ResultFile} (room : AtMost 2 opened)
    (isOpen : (options.verboseV && options.file) = true → .filteredGroups branchId ∈ opened)
    (groups : List Group) (gfilterResult : GroupfilterResult) :
    Streams mine 2 opened (filterGroups options branch branchId groups gfilterResult) opened := by
  induction groups generalizing gfilterResult with
  | nil => exact Keeps.pure room _
  | cons group rest ih =>
      rw [filterGroups]
      split
      · refine (Keeps.of room _).bind fun _ _ => ?_
        exact (streams_write options own isOpen room group.record).bind fun _ _ => ih _
      · exact ih gfilterResult

include own in
theorem groupfilter_streams (gresult : GrouperResult) :
    Streams mine 2 ∅ (groupfilter options branch branchId gresult) ∅ := by
  have none : (∅ : Finset ResultFile).card < 2 := by decide
  have within : AtMost 2 ∅ := none.le
  have fresh : .filteredGroups branchId ∉ (∅ : Finset ResultFile) := Finset.notMem_empty _
  have filtering := atMost_opening options options.verboseV (.filteredGroups branchId) none
  refine (streams_create options own fresh none).bind fun _ _ => ?_
  refine (filterGroups_streams options branch branchId own filtering
    (mem_opening options _ _ ∅) _ _).bind fun _ _ => ?_
  split
  · exact Keeps.error filtering _
  · refine (Keeps.of filtering _).bind fun _ _ => ?_
    exact (streams_close options own fresh none).bind fun _ _ => Keeps.pure within _

variable (libc : Libc) (io : IoHandler) (stages : Stages)

theorem branchGrouper_streams
    (stageOwn : ∀ file : StageFile, file.branchId = branchId → mine (.grouper file))
    (filterResult : Option FilterResult) :
    Streams mine 2 ∅ (branchGrouper options branch branchId libc io stages filterResult) ∅ := by
  have within : AtMost 2 ∅ := Nat.zero_le _
  unfold branchGrouper
  split
  · cases filterResult with
    | none => exact Keeps.error within _
    | some fresult =>
        exact (grouper_streams options libc _ io _ branch branchId stageOwn fresult).bind
          fun _ _ => Keeps.pure within _
  · exact Keeps.pure within _

include own in
theorem branchGroupfilter_streams (grouperLeft : Option Left) :
    Streams mine 2 ∅ (branchGroupfilter options branch branchId stages grouperLeft) ∅ := by
  have within : AtMost 2 ∅ := Nat.zero_le _
  unfold branchGroupfilter
  split
  · cases grouperLeft with
    | none => exact Keeps.error within _
    | some left =>
        exact (groupfilter_streams options branch branchId own left.gresult).bind
          fun _ _ => Keeps.pure within _
  · exact Keeps.pure within _

include own in
/-- A branch's thread never has more than two streams open, and closes them. -/
theorem branchStart_streams
    (stageOwn : ∀ file : StageFile, file.branchId = branchId → mine (.grouper file))
    (filterResult : Option FilterResult) :
    Streams mine 2 ∅ (branchStart options branch branchId libc io stages filterResult) ∅ := by
  have within : AtMost 2 ∅ := Nat.zero_le _
  refine (branchGrouper_streams options branch branchId libc io stages stageOwn filterResult).bind
    fun grouperLeft _ => ?_
  exact (branchGroupfilter_streams options branch branchId own stages grouperLeft).bind
    fun _ _ => Keeps.pure within _

end Branches

section Merger

variable (options : OutputOptions) {numBranches : Nat} (func : MergerFunc numBranches)
  (clauses : List (List (MergerTerm numBranches))) (gfilterResults : List GroupfilterResult)
  {mine : ResultFile → Prop} [DecidablePred mine]

theorem writeTuple_streams {limit : Nat} {opened : Finset ResultFile} (room : AtMost limit opened)
    (asked : Bool) (file : ResultFile) (own : mine file)
    (isOpen : (asked && options.file) = true → file ∈ opened) (tuple : List Nat) :
    Streams mine limit opened (writeTuple options asked file gfilterResults tuple) opened := by
  induction gfilterResults generalizing tuple with
  | nil => exact Keeps.pure room _
  | cons gfilterResult rest ih =>
      rcases tuple with - | ⟨- | groupId, tuple⟩
      · exact Keeps.error room _
      · exact Keeps.error room _
      · rw [writeTuple]
        cases gfilterResult.filteredGroupset[groupId]? with
        | none => exact Keeps.error room _
        | some group =>
            refine (streams_write options own isOpen room group.record).bind fun _ _ => ?_
            exact (ih tuple).bind fun _ _ => Keeps.pure room _

variable (own : mine .mergedGroups) (own' : mine .toBeMergedGroups)

include own own' in
theorem mergeTuple_streams {opened : Finset ResultFile} (room : AtMost 2 opened)
    (merged : (options.verboseV && options.file) = true → .mergedGroups ∈ opened)
    (toBeMerged : (options.verboseVv && options.file) = true → .toBeMergedGroups ∈ opened)
    (mresult : MergerResult) (tuple : List Nat) :
    Streams mine 2 opened (mergeTuple options func clauses gfilterResults mresult tuple)
      opened := by
  have kept (mresult : MergerResult) : Streams mine 2 opened
      (keepTuple options func clauses gfilterResults mresult tuple) opened := by
    refine (Keeps.of room _).bind fun clause _ => ?_
    split
    · refine (writeTuple_streams options gfilterResults room _ _ own merged tuple).bind
        fun groups _ => ?_
      exact (Keeps.of room _).bind fun _ _ => Keeps.pure room _
    · exact Keeps.pure room _
  rw [mergeTuple]
  dsimp only
  split
  · rename_i asked
    exact (writeTuple_streams options gfilterResults room _ _ own' (fun _ => toBeMerged asked)
      tuple).bind fun _ _ => kept _
  · exact kept _

include own own' in
theorem mergeTuples_streams {opened : Finset ResultFile} (room : AtMost 2 opened)
    (merged : (options.verboseV && options.file) = true → .mergedGroups ∈ opened)
    (toBeMerged : (options.verboseVv && options.file) = true → .toBeMergedGroups ∈ opened)
    (slots : List Slot) (mresult : MergerResult) :
    Streams mine 2 opened (mergeTuples options func clauses gfilterResults slots mresult)
      opened := by
  fun_induction mergeTuples options func clauses gfilterResults slots mresult with
  | case1 => exact Keeps.pure room _
  | case2 slots mresult reached _ ih =>
      exact (mergeTuple_streams options func clauses gfilterResults own own' room merged
        toBeMerged
        mresult _).bind fun mresult _ => ih mresult

include own own' in
theorem merger_streams : Streams mine 2 ∅ (merger options func clauses gfilterResults) ∅ := by
  have none : (∅ : Finset ResultFile).card < 2 := by decide
  have within : AtMost 2 ∅ := none.le
  have first : (opening options options.verboseV .mergedGroups ∅).card < 2 :=
    Nat.lt_succ_of_le (card_opening_le options _ _ ∅)
  have fresh : .mergedGroups ∉ (∅ : Finset ResultFile) := Finset.notMem_empty _
  have fresh' : .toBeMergedGroups ∉ opening options options.verboseV .mergedGroups ∅ :=
    notMem_opening options _ (by simp) (Finset.notMem_empty _)
  have both := atMost_opening options options.verboseVv .toBeMergedGroups first
  rw [merger]
  split
  · exact Keeps.pure within _
  · split
    · exact Keeps.error within _
    · refine (streams_create options own fresh none).bind fun _ _ => ?_
      refine (streams_create options own' fresh' first).bind fun _ _ => ?_
      refine (mergeTuples_streams options func clauses gfilterResults own own' both
        (fun asked => mem_opening_of_mem options _ _ _ _ (mem_opening options _ _ ∅ asked))
        (mem_opening options _ _ _) _ _).bind fun _ _ => ?_
      refine (streams_close options own' fresh' first).bind fun _ _ => ?_
      exact (streams_close options own fresh none).bind fun _ _ => Keeps.pure within _

end Merger

section Ungrouper

variable (options : OutputOptions) (numBranches : Nat)
  {mine : ResultFile → Prop} [DecidablePred mine]

theorem ungroupTuple_streams (index : Nat) (own : mine (.stream index)) (groupTuple : List Group) :
    Streams mine 1 ∅ (ungroupTuple options numBranches index groupTuple) ∅ := by
  have none : (∅ : Finset ResultFile).card < 1 := by decide
  have within : AtMost 1 ∅ := none.le
  have fresh : .stream index ∉ (∅ : Finset ResultFile) := Finset.notMem_empty _
  have writing := atMost_opening options true (.stream index) none
  refine (streams_create options own fresh none).bind fun _ _ => ?_
  split
  · exact Keeps.error writing _
  · refine (Keeps.foldlM _ _ writing fun stream group _ => ?_).bind fun _ _ => ?_
    · refine (Keeps.of writing _).bind fun _ _ => ?_
      refine (Keeps.forM _ writing fun item _ => ?_).bind fun _ _ => Keeps.pure writing _
      exact streams_write options own (mem_opening options true _ ∅) writing item.record
    · exact (streams_close options own fresh none).bind fun _ _ => Keeps.pure within _

/-- The ungrouper writes one stream after the other. -/
theorem ungrouper_streams (own : ∀ index, mine (.stream index)) (mresult : Option MergerResult) :
    Streams mine 1 ∅ (ungrouper options numBranches mresult) ∅ := by
  have within : AtMost 1 ∅ := Nat.zero_le _
  have tuples (index : Nat) (groupTuples : List (List Group)) :
      Streams mine 1 ∅ (ungroupTuples options numBranches index groupTuples) ∅ := by
    induction groupTuples generalizing index with
    | nil => exact Keeps.pure within _
    | cons groupTuple rest ih =>
        refine (ungroupTuple_streams options numBranches index (own index) groupTuple).bind fun _ _ => ?_
        exact (ih (index + 1)).bind fun _ _ => Keeps.pure within _
  cases mresult with
  | none => exact Keeps.pure within _
  | some mresult =>
      rw [ungrouper]
      split
      · exact Keeps.error within _
      · refine (tuples 0 _).bind fun _ _ => ?_
        exact (Keeps.of within _).bind fun _ _ => Keeps.pure within _

end Ungrouper

end Nfql.Emit
