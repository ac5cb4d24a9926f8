import Nfql.GrouperEcho
import Nfql.MergerTuples
import Nfql.Ungrouper

set_option autoImplicit false

/- What echo.c prints of the results when there is no result directory. -/
namespace Nfql.Echo

open Odometer

section Lines

/-- What is printed: a text, the header of a table, a flow record, or the record of a
group. -/
inductive Line where
  | text (text : String)
  | header
  | record (record : Record)
  | aggrRecord (record : AggrRecord)

/-- What a line shows of a record. For the record of a group, the print functions show the
group's times in place of those in the record. -/
structure Shown where
  record : Record
  times : Option (BitVec 64 × BitVec 64)

def Line.shown : Line → Option Shown
  | .record bytes => some ⟨bytes, none⟩
  | .aggrRecord aggr => some ⟨aggr.aggrRecord, some (aggr.startTsMsec, aggr.endTsMsec)⟩
  | .text _ | .header => none

def Shown.ofMember (item : RecordPtr) : Shown := ⟨item.record, none⟩

def Shown.ofGroup (group : Group) : Shown :=
  ⟨group.record, some (group.aggrResult.aggrRecord.startTsMsec,
    group.aggrResult.aggrRecord.endTsMsec)⟩

def printRecords (records : List RecordPtr) : List Line :=
  records.map fun item => .record item.record

def printGroups (groups : List Group) : List Line :=
  groups.map fun group => .aggrRecord group.aggrResult.aggrRecord

/-- A count, and the header if it is not zero. -/
def heading (text : String) (count : Nat) : List Line :=
  if count = 0 then [.text text] else [.text text, .header]

theorem printRecords_shown (records : List RecordPtr) :
    (printRecords records).filterMap Line.shown = records.map Shown.ofMember := by
  rw [printRecords, List.filterMap_map]
  exact congrFun List.filterMap_eq_map' records

theorem printGroups_shown (groups : List Group) :
    (printGroups groups).filterMap Line.shown = groups.map Shown.ofGroup := by
  rw [printGroups, List.filterMap_map]
  exact congrFun List.filterMap_eq_map' groups

theorem heading_shown (text : String) (count : Nat) :
    (heading text count).filterMap Line.shown = [] := by
  rw [heading]
  split <;> rfl

end Lines

section Stages

/-- `echo_filter`. -/
def filter (fresult : FilterResult) : Except Fault (List Line) := do
  let records ← readItems fresult.numFilteredRecords fresult.filteredRecordset
  intLoop fresult.numFilteredRecords
  .ok (heading ("\nNo. of Filtered Records: " ++ toString fresult.numFilteredRecords ++ "\n")
    fresult.numFilteredRecords ++ printRecords records)

/-- The groups of a result, under a text with their number. -/
def groups (text : String) (count : Nat) (groupset : List Group) : Except Fault (List Line) :=
  if groupset.length < count then .error .outOfBounds
  else do
    intLoop count
    .ok (heading (text ++ toString count ++ " (Aggregations)\n") count ++
      printGroups (groupset.take count))

/-- `echo_group_aggr`. -/
def groupAggr (gresult : GrouperResult) : Except Fault (List Line) :=
  groups "\nNo. of Groups: " gresult.numGroups gresult.groupset

/-- `echo_gfilter`. -/
def gfilter (gfilterResult : GroupfilterResult) : Except Fault (List Line) :=
  groups "\nNo. of Filtered Groups: " gfilterResult.numFilteredGroups gfilterResult.filteredGroupset

/-- `while(iter_next(iter))`, over the tuples of a second iterator. -/
def tuples (gfilterResults : List GroupfilterResult) (slots : List Slot) :
    Except Fault (List Line) :=
  match _next : iterNext slots with
  | (false, _) => .ok []
  | (true, slots) => do
      let groups ← matchedTuple gfilterResults (slots.map Slot.position)
      let rest ← tuples gfilterResults slots
      .ok (printGroups groups ++ .text "\n" :: rest)
termination_by tuplesLeft slots
decreasing_by exact iterNext_closer _ _ _next

/-- `echo_merger`, the part that is printed `if (verbose_vv)`. -/
def toBeMerged (mresult : MergerResult) (gfilterResults : List GroupfilterResult) :
    Except Fault (List Line) :=
  let text := "\nNo. of (to be) Matched Groups: " ++ toString mresult.totalNumGroupTuples ++ " \n"
  if gfilterResults.any fun gfilterResult => gfilterResult.numFilteredGroups == 0 then
    .ok [.text text]
  else if gfilterResults.isEmpty then .error .outOfBounds
  else do
    let lines ← tuples gfilterResults
      (iterStart (gfilterResults.map GroupfilterResult.numFilteredGroups))
    .ok (.text text :: .header :: lines)

/-- One of the group tuples. -/
def groupTuple (numBranches : Nat) (tuple : List Group) : Except Fault (List Line) :=
  if tuple.length < numBranches then .error .outOfBounds
  else .ok (printGroups (tuple.take numBranches) ++ [.text "\n"])

/-- `echo_merger`, the other part. -/
def merged (numBranches : Nat) (mresult : MergerResult) : Except Fault (List Line) :=
  if mresult.groupTuples.length < mresult.numGroupTuples then .error .outOfBounds
  else do
    intLoop mresult.numGroupTuples
    let lines ← (mresult.groupTuples.take mresult.numGroupTuples).mapM (groupTuple numBranches)
    .ok (heading ("\nNo. of Merged Groups: " ++ toString mresult.numGroupTuples ++ " (Tuples)\n")
      mresult.numGroupTuples ++ lines.flatten)

/-- One of the streams, which are numbered from 1. -/
def stream (index : Nat) (stream : Stream) : Except Fault (List Line) :=
  if stream.recordset.length < stream.numRecords then .error .outOfBounds
  else do
    intLoop stream.numRecords
    .ok (heading ("\nNo. of Records in Stream (" ++ toString (index + 1) ++ "): " ++
      toString stream.numRecords ++ " \n") stream.numRecords ++
      printRecords (stream.recordset.take stream.numRecords) ++ [.text "\n"])

/-- The streams, from some stream on. -/
def streams : Nat → List Stream → Except Fault (List (List Line))
  | _, [] => .ok []
  | index, first :: rest => do
      let lines ← stream index first
      let later ← streams (index + 1) rest
      .ok (lines :: later)

/-- `echo_results`. -/
def results (uresult : UngrouperResult) : Except Fault (List (List Line)) :=
  if uresult.streamset.length < uresult.numStreams then .error .outOfBounds
  else do
    intLoop uresult.numStreams
    let lines ← streams 0 (uresult.streamset.take uresult.numStreams)
    .ok ([.text ("\nNo. of Streams: " ++ toString uresult.numStreams ++ " \n"),
      .text "----------------- \n"] :: lines)

end Stages

section Printed

/-- All filtered records are shown. -/
theorem filter_shown (records : List RecordPtr) (lines : List Line)
    (success : filter (FilterResult.of records) = .ok lines) :
    lines.filterMap Line.shown = records.map Shown.ofMember := by
  rw [filter] at success
  obtain ⟨items, read, success⟩ := bind_eq_ok success
  obtain ⟨_, -, success⟩ := bind_eq_ok success
  cases success
  rw [FilterResult.of, readItems_ok records [none], Except.ok.injEq] at read
  rw [List.filterMap_append, heading_shown, printRecords_shown, List.nil_append, read]

theorem groups_shown (text : String) (groupset : List Group) (lines : List Line)
    (success : groups text groupset.length groupset = .ok lines) :
    lines.filterMap Line.shown = groupset.map Shown.ofGroup := by
  rw [groups, if_neg (Nat.lt_irrefl _), List.take_length] at success
  obtain ⟨_, -, success⟩ := bind_eq_ok success
  cases success
  rw [List.filterMap_append, heading_shown, printGroups_shown, List.nil_append]

theorem tuples_shown (groupsets : List (List Group)) (slots : List Slot)
    (positive : ∀ slot ∈ slots, 0 < slot.count) (selected : List (List (Nat × Group)))
    (chosen : ∀ selection ∈ selected, List.Forall₂ Chosen groupsets selection)
    (ahead : tuplesAfter slots =
      selected.map fun selection => selection.map fun choice => choice.1 + 1)
    (lines : List Line)
    (success : tuples (groupsets.map GroupfilterResult.of) slots = .ok lines) :
    lines.filterMap Line.shown =
      (selected.map (List.map Prod.snd)).flatten.map Shown.ofGroup := by
  induction left : tuplesLeft slots using Nat.strong_induction_on
    generalizing slots selected lines with
  | h left ih =>
      have after := iterNext_after slots positive
      rw [tuples] at success
      split at success
      · rename_i next
        rw [next, if_neg Bool.false_ne_true] at after
        rw [after.2.1] at ahead
        rw [List.map_eq_nil_iff.mp ahead.symm]
        cases success
        rfl
      · rename_i reached next
        have closer := iterNext_closer slots reached next
        rw [next, if_pos rfl] at after
        obtain ⟨groups, matched, success⟩ := bind_eq_ok success
        obtain ⟨rest, later, success⟩ := bind_eq_ok success
        cases success
        cases selected with
        | nil =>
            rw [after.2] at ahead
            cases ahead
        | cons selection selected =>
            obtain ⟨here, chosen⟩ := List.forall_mem_cons.mp chosen
            rw [after.2, List.map_cons, List.cons.injEq] at ahead
            rw [ahead.1, matchedTuple_ok groupsets selection here, Except.ok.injEq] at matched
            have counts : ∀ slot ∈ reached, 0 < slot.count := by
              intro slot member
              have count := List.mem_map_of_mem (f := Slot.count) member
              rw [after.1] at count
              obtain ⟨other, inside, same⟩ := List.mem_map.mp count
              rw [← same]
              exact positive other inside
            have shown := ih _ (by omega) reached counts selected chosen ahead.2 rest later rfl
            rw [List.filterMap_append, printGroups_shown, List.filterMap_cons, shown, ← matched,
              List.map_cons, List.flatten_cons, List.map_append]
            rfl

/-- A second iterator shows all tuples. -/
theorem toBeMerged_shown (mresult : MergerResult) (groupsets : List (List Group))
    (nonempty : ∀ groupset ∈ groupsets, groupset ≠ []) (some_branch : groupsets ≠ [])
    (lines : List Line)
    (success : toBeMerged mresult (groupsets.map GroupfilterResult.of) = .ok lines) :
    lines.filterMap Line.shown = (product groupsets).flatten.map Shown.ofGroup := by
  have counts : (groupsets.map GroupfilterResult.of).map GroupfilterResult.numFilteredGroups =
      groupsets.map List.length := by
    rw [List.map_map]
    rfl
  have positive : ∀ count ∈ groupsets.map List.length, 0 < count := by
    intro count member
    obtain ⟨groupset, inside, rfl⟩ := List.mem_map.mp member
    exact List.length_pos_iff.mpr (nonempty groupset inside)
  have slots : ∀ slot ∈ iterStart (groupsets.map List.length), 0 < slot.count := by
    intro slot member
    apply positive
    rw [← iterStart_counts (groupsets.map List.length)]
    exact List.mem_map_of_mem member
  unfold toBeMerged at success
  dsimp only at success
  split at success
  · rename_i empty
    obtain ⟨gfilterResult, member, zero⟩ := List.any_eq_true.mp empty
    have inside := List.mem_map_of_mem (f := GroupfilterResult.numFilteredGroups) member
    rw [counts, beq_iff_eq.mp zero] at inside
    exact absurd (positive 0 inside) (Nat.lt_irrefl 0)
  · split at success
    · cases success
    · obtain ⟨tupleLines, run, success⟩ := bind_eq_ok success
      cases success
      rw [counts] at run
      have shown := tuples_shown groupsets _ slots (selections groupsets)
        (selections_chosen groupsets)
        ((tuplesAfter_start _ (by simpa using some_branch) positive).trans
          (product_selections groupsets)) tupleLines run
      rw [selections_product] at shown
      exact shown

theorem groupTuples_shown (numBranches : Nat) (groupTuples : List (List Group))
    (wide : ∀ tuple ∈ groupTuples, tuple.length ≤ numBranches) (lines : List (List Line))
    (success : groupTuples.mapM (groupTuple numBranches) = .ok lines) :
    lines.flatten.filterMap Line.shown = groupTuples.flatten.map Shown.ofGroup := by
  induction groupTuples generalizing lines with
  | nil => cases success; rfl
  | cons tuple rest ih =>
      obtain ⟨here, later⟩ := List.forall_mem_cons.mp wide
      rw [List.mapM_cons] at success
      obtain ⟨first, shown, success⟩ := bind_eq_ok success
      obtain ⟨others, runs, success⟩ := bind_eq_ok success
      cases success
      rw [groupTuple] at shown
      split at shown
      · cases shown
      · cases shown
        rw [List.flatten_cons, List.filterMap_append, List.filterMap_append, printGroups_shown,
          List.take_of_length_le here, List.flatten_cons, List.map_append, ih later others runs]
        exact congrArg (· ++ _) (List.append_nil _)

theorem merged_shown (numBranches : Nat) (mresult : MergerResult)
    (exact : mresult.numGroupTuples = mresult.groupTuples.length)
    (wide : ∀ tuple ∈ mresult.groupTuples, tuple.length ≤ numBranches) (lines : List Line)
    (success : merged numBranches mresult = .ok lines) :
    lines.filterMap Line.shown = mresult.groupTuples.flatten.map Shown.ofGroup := by
  rw [merged, if_neg (by omega), exact, List.take_length] at success
  obtain ⟨_, -, success⟩ := bind_eq_ok success
  obtain ⟨tupleLines, run, success⟩ := bind_eq_ok success
  cases success
  rw [List.filterMap_append, heading_shown, List.nil_append]
  exact groupTuples_shown numBranches mresult.groupTuples wide tupleLines run

theorem stream_shown (index : Nat) (shown : Stream)
    (exact : shown.numRecords = shown.recordset.length) (lines : List Line)
    (success : stream index shown = .ok lines) :
    lines.filterMap Line.shown = shown.recordset.map Shown.ofMember := by
  rw [stream, if_neg (by omega), exact, List.take_length] at success
  obtain ⟨_, -, success⟩ := bind_eq_ok success
  cases success
  rw [List.filterMap_append, List.filterMap_append, heading_shown, printRecords_shown,
    List.nil_append]
  exact List.append_nil _

theorem streams_each (index : Nat) (streamset : List Stream) (lines : List (List Line))
    (success : streams index streamset = .ok lines) (position : Nat) (shown : Stream)
    (found : streamset[position]? = some shown) :
    ∃ here, lines[position]? = some here ∧ stream (index + position) shown = .ok here := by
  induction streamset generalizing index lines position with
  | nil => cases found
  | cons first rest ih =>
      obtain ⟨head, run, success⟩ := bind_eq_ok success
      obtain ⟨later, runs, success⟩ := bind_eq_ok success
      cases success
      cases position with
      | zero =>
          cases found
          exact ⟨head, rfl, run⟩
      | succ position =>
          obtain ⟨here, inside, shown⟩ := ih (index + 1) later runs position found
          refine ⟨here, inside, ?_⟩
          rwa [Nat.add_right_comm] at shown

end Printed

end Nfql.Echo
