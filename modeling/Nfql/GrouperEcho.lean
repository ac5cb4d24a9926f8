import Nfql.GroupFields
import Nfql.MemberFiles

set_option autoImplicit false

/- The files of the grouper, and what echo.c prints in their place. -/
namespace Nfql.Output

open Outcomes

section Echo

/-- What is printed: a text, the header of a table, or a record. -/
inductive Line where
  | text (text : String)
  | header
  | record (record : Record)

def Line.printed : Line → Option Record
  | .record printed => some printed
  | .text _ | .header => none

def printRecords (records : List RecordPtr) : List Line :=
  records.map fun item => .record item.record

def echoHeading (text : String) (count : Nat) : List Line :=
  if count = 0 then [.text text] else [.text text, .header]

/-- The sorted records, if there are clauses to sort for. -/
def echoSorted (numGrouperClauses numSortedRecords : Nat) (sortedRecordset : List RecordPtr) :
    Except Fault (List Line) :=
  if 0 < numGrouperClauses then do
    let sorted ← readItems numSortedRecords (sortedRecordset.map some)
    intLoop numSortedRecords
    .ok (echoHeading ("\nNo. of Sorted Records: " ++ toString numSortedRecords ++ "\n")
      numSortedRecords ++ printRecords sorted)
  else .ok []

/-- The members of one group. -/
def echoMembers (group : Group) : Except Fault (List Line) := do
  intLoop group.numMembers
  .ok (.text "\n" :: printRecords group.members)

/-- `echo_grouper` without a result directory; with one it prints nothing. -/
def echoGrouper (numGrouperClauses numSortedRecords : Nat) (produced : Produced) :
    Except Fault (List Line) := do
  let sorted ← echoSorted numGrouperClauses numSortedRecords produced.sortedRecordset
  intLoop produced.gresult.numGroups
  let members ← produced.gresult.groupset.mapM echoMembers
  .ok (sorted ++ echoHeading ("\nNo. of Groups: " ++ toString produced.gresult.numGroups ++
    " (Verbose Output)\n") produced.gresult.numGroups ++ members.flatten)

theorem printRecords_printed (records : List RecordPtr) :
    (printRecords records).filterMap Line.printed = records.map RecordPtr.record := by
  rw [printRecords, List.filterMap_map]
  exact congrFun List.filterMap_eq_map' records

theorem echoHeading_printed (text : String) (count : Nat) :
    (echoHeading text count).filterMap Line.printed = [] := by
  rw [echoHeading]
  split <;> rfl

theorem echoMembers_printed (group : Group) (lines : List Line)
    (success : echoMembers group = .ok lines) :
    lines.filterMap Line.printed = group.members.map RecordPtr.record := by
  obtain ⟨_, _, whole⟩ := bind_eq_ok success
  cases whole
  exact printRecords_printed group.members

theorem echoGroups_printed (groups : List Group) (lines : List (List Line))
    (each : List.Forall₂ (fun group lines => echoMembers group = .ok lines) groups lines) :
    lines.flatten.filterMap Line.printed =
      groups.flatMap fun group => group.members.map RecordPtr.record := by
  induction each with
  | nil => rfl
  | cons head _ ih =>
      rw [List.flatten_cons, List.filterMap_append, List.flatMap_cons, ih,
        echoMembers_printed _ _ head]

/-- Without a directory all members of all groups are printed, after the sorted records. -/
theorem echoGrouper_printed (numGrouperClauses numSortedRecords : Nat) (produced : Produced)
    (lines : List Line)
    (success : echoGrouper numGrouperClauses numSortedRecords produced = .ok lines) :
    ∃ sorted, echoSorted numGrouperClauses numSortedRecords produced.sortedRecordset = .ok sorted ∧
      lines.filterMap Line.printed = sorted.filterMap Line.printed ++
        produced.gresult.groupset.flatMap fun group => group.members.map RecordPtr.record := by
  obtain ⟨sorted, run, success⟩ := bind_eq_ok success
  obtain ⟨_, _, success⟩ := bind_eq_ok success
  obtain ⟨members, each, whole⟩ := bind_eq_ok success
  cases whole
  refine ⟨sorted, run, ?_⟩
  rw [List.filterMap_append, List.filterMap_append, echoHeading_printed, List.append_nil]
  rw [echoGroups_printed _ _ (mapM_forall₂ echoMembers _ _ each)]

end Echo

section Stage

variable (options : OutputOptions) (libc : Libc) (funcs : GrouperFuncs) (io : IoHandler)
  (groupaggregationsEnabled : Bool) (branch : Branch) (branchId : Nat) (records : List RecordPtr)
  (files : Files)

/-- The file of each group holds its members, as they are printed without a directory. -/
def HoldsMembers (produced : Produced) : Prop :=
  ∀ (number : Nat) (group : Group), produced.gresult.groupset[number]? = some group →
    ∃ content, options.contents produced.files (.groupRecords branchId number) = some content ∧
      content = group.members.map RecordPtr.record ∧
      ∀ lines, echoMembers group = .ok lines → lines.filterMap Line.printed = content

/-- Output does not stop a run, unless there are too many sorted records to count. -/
theorem grouper_written (feasible : branch.Feasible libc funcs groupaggregationsEnabled records)
    (inside : branch.grouperClauseset ≠ [] → options.verboseVv = true →
      records.length ≤ intMax) :
    ∃ produced, grouper options libc funcs io groupaggregationsEnabled branch branchId
      (FilterResult.of records) files = .ok produced := by
  have alike := grouper_alike options libc funcs io groupaggregationsEnabled branch branchId
    (FilterResult.of records) files inside
  obtain ⟨groups, run, -⟩ :=
    grouper_ok libc funcs io groupaggregationsEnabled branch records feasible
  rw [run] at alike
  obtain ⟨produced, written, -⟩ := alike.from_ok
  exact ⟨produced, written⟩

section Success

variable (produced : Produced)
  (success : grouper options libc funcs io groupaggregationsEnabled branch branchId
    (FilterResult.of records) files = .ok produced)

include success

theorem produced_partition :
    Partitions libc funcs branch records produced.gresult ∧
      (records ≠ [] → FilesHold options branchId (writtenMembers branch) produced) := by
  obtain ⟨gresult, run, leaves⟩ := grouper_leaves options libc funcs io groupaggregationsEnabled
    branch branchId _ files produced success
  refine ⟨?_, fun nonempty => leaves.files (List.length_pos_iff.mpr nonempty)⟩
  rw [leaves.gresult]
  exact grouper_partition libc funcs io groupaggregationsEnabled branch records gresult run

/-- No group has more members than there are records. -/
theorem produced_length_le (group : Group) (member : group ∈ produced.gresult.groupset) :
    group.members.length ≤ records.length := by
  obtain ⟨gresult, run, leaves⟩ := grouper_leaves options libc funcs io groupaggregationsEnabled
    branch branchId _ files produced success
  rw [leaves.gresult] at member
  have made := grouper_group libc funcs io groupaggregationsEnabled branch records gresult run
    group member
  exact groupRuns_length_le libc funcs branch records _ made.1

/-- Records are grouped into at least one group. -/
theorem produced_some (nonempty : records ≠ []) :
    ∃ group, produced.gresult.groupset[0]? = some group ∧ group.members ≠ [] := by
  obtain ⟨partition, -⟩ := produced_partition options libc funcs io groupaggregationsEnabled branch
    branchId records files produced success
  cases groups : produced.gresult.groupset with
  | nil =>
      by_cases none : branch.grouperClauseset = []
      · have single := partition.single none nonempty
        rw [groups] at single
        cases single
      · have overall := partition.overall none
        rw [groups, List.flatMap_nil] at overall
        have each := List.flatten_eq_nil_iff.mp overall.nil_eq.symm records
        obtain ⟨clause, rest, clauses⟩ := List.exists_cons_of_ne_nil none
        exact absurd (each (by simp [clauses, List.replicate_succ])) nonempty
  | cons group rest => exact ⟨group, rfl, partition.nonempty group (by simp [groups])⟩

/-- The file of the sorted records holds what is printed of them. -/
theorem sortedFile_printed (nonempty : records ≠ []) (given : branch.grouperClauseset ≠ [])
    (directory : options.file = true) (set : options.verboseVv = true) :
    ∃ lines, echoSorted branch.grouperClauseset.length records.length produced.sortedRecordset =
        .ok lines ∧
      options.contents produced.files (.sortedRecords branchId) =
        some (lines.filterMap Line.printed) := by
  obtain ⟨gresult, -, leaves⟩ := grouper_leaves options libc funcs io groupaggregationsEnabled
    branch branchId _ files produced success
  have positive : 0 < (FilterResult.of records).numFilteredRecords :=
    List.length_pos_iff.mpr nonempty
  have length := leaves.count positive given set
  have inside := grouper_inside options libc funcs io groupaggregationsEnabled branch branchId _
    files produced success given set
  have read := readItems_ok produced.sortedRecordset []
  rw [List.append_nil, length] at read
  have count : (FilterResult.of records).numFilteredRecords = records.length := rfl
  rw [count] at read inside
  rw [echoSorted, if_pos (List.length_pos_iff.mpr given), read, ok_bind, intLoop_ok _ inside,
    ok_bind, leaves.sorted positive given directory set]
  refine ⟨_, rfl, ?_⟩
  rw [List.filterMap_append, printRecords_printed, echoHeading_printed, List.nil_append]

/-- With groups, the file of the first one is not right. -/
theorem not_holdsMembers (nonempty : records ≠ []) (directory : options.file = true)
    (set : options.verboseVv = true) : ¬ HoldsMembers options branchId produced := by
  intro holds
  obtain ⟨-, hold⟩ := produced_partition options libc funcs io groupaggregationsEnabled branch
    branchId records files produced success
  obtain ⟨group, first, members⟩ := produced_some options libc funcs io groupaggregationsEnabled
    branch branchId records files produced success nonempty
  obtain ⟨content, held, whole, -⟩ := holds 0 group first
  have written := (hold nonempty).members directory set 0 group first
  have number : memberFile branchId (0 + 1) = .groupRecords branchId (0 : Nat) := rfl
  rw [number, held, Option.some.injEq, whole] at written
  have shorter := writtenMembers_length branch group.members members
  have lengths := congrArg List.length written
  rw [List.length_map, List.length_map] at lengths
  omega

end Success

/-- A group's file lacks its first member, or all members if there is no clause, so
that only a branch without groups has its files right. -/
theorem memberFiles_iff (before : OutputOptions) (level : Int)
    (verbose : before.verbose level = .ok options) (high : 2 ≤ level)
    (directory : options.file = true) (produced : Produced)
    (success : grouper options libc funcs io groupaggregationsEnabled branch branchId
      (FilterResult.of records) files = .ok produced) :
    HoldsMembers options branchId produced ↔ records = [] := by
  obtain ⟨-, set⟩ := before.verbose_two options level verbose high
  constructor
  · intro holds
    by_contra nonempty
    exact not_holdsMembers options libc funcs io groupaggregationsEnabled branch branchId records
      files produced success nonempty directory set holds
  · rintro rfl number group found
    obtain ⟨partition, -⟩ := produced_partition options libc funcs io groupaggregationsEnabled
      branch branchId [] files produced success
    rw [partition.empty rfl] at found
    cases found

end Stage

section Single

/-- `--verbose=2 --dirpath=results`. -/
def resultsOptions : OutputOptions := ⟨true, true, some "results", "ftz"⟩

def zeroRecord : RecordPtr := ⟨0, fun _ => 0#8⟩

/-- A branch that keeps all records and does nothing but group them. -/
def grouping (grouperClauseset : List (List GrouperTerm)) : Branch :=
  ⟨[[]], grouperClauseset, [], []⟩

/-- The grouper of such a branch, for a single record. -/
def groupZero (grouperClauseset : List (List GrouperTerm)) : Except Fault Produced :=
  grouper resultsOptions Libc.insertion GrouperFuncs.generated IoHandler.empty false
    (grouping grouperClauseset) 0 (FilterResult.of [zeroRecord]) fun _ => none

theorem groupZero_ok (clauses : List (List GrouperTerm)) (few : clauses.length ≤ 1) :
    ∃ produced, groupZero clauses = .ok produced := by
  refine grouper_written _ _ _ _ _ _ _ _ _ (feasible_of_bounds _ _ _ _ _ ?_ (by decide))
    fun _ _ => by decide
  rw [List.length_singleton, Nat.mul_one]
  exact lt_of_le_of_lt few (by decide)

theorem groupZero_lost (clauses : List (List GrouperTerm)) (few : clauses.length ≤ 1) :
    ∃ produced, groupZero clauses = .ok produced ∧
      resultsOptions.contents produced.files (.groupRecords 0 0) = some [] ∧
      ¬ HoldsMembers resultsOptions 0 produced := by
  obtain ⟨produced, run⟩ := groupZero_ok clauses few
  have nonempty : [zeroRecord] ≠ [] := List.cons_ne_nil _ _
  refine ⟨produced, run, ?_, not_holdsMembers _ _ _ _ _ _ _ _ _ _ run nonempty rfl rfl⟩
  obtain ⟨-, hold⟩ := produced_partition _ _ _ _ _ _ _ _ _ _ run
  obtain ⟨group, first, members⟩ := produced_some _ _ _ _ _ _ _ _ _ _ run nonempty
  have few := produced_length_le _ _ _ _ _ _ _ _ _ _ run group (List.mem_of_getElem? first)
  have shorter := writtenMembers_length (grouping clauses) group.members members
  have written := (hold nonempty).members rfl rfl 0 group first
  have none : writtenMembers (grouping clauses) group.members = [] := by
    apply List.eq_nil_of_length_eq_zero
    rw [List.length_singleton] at few
    omega
  rwa [none] at written

theorem memberFiles_clubbed : ∃ produced, groupZero [] = .ok produced ∧
    (HoldsMembers resultsOptions 0 produced ↔ [zeroRecord] = []) := by
  obtain ⟨produced, run⟩ := groupZero_ok [] (by decide)
  let quiet : OutputOptions := { resultsOptions with verboseV := false, verboseVv := false }
  exact ⟨produced, run, memberFiles_iff resultsOptions _ _ _ _ _ _ _ _ quiet 2 rfl (by decide) rfl
    produced run⟩

/-- The file of a single record's group exists and is empty, with a clause and without. -/
theorem memberFiles_lost :
    (∃ produced, groupZero [] = .ok produced ∧
      resultsOptions.contents produced.files (.groupRecords 0 0) = some [] ∧
      ¬ HoldsMembers resultsOptions 0 produced) ∧
    ∃ produced, groupZero [[⟨0, 0, 0#64, .eq, .w8, .w8, .no⟩]] = .ok produced ∧
      resultsOptions.contents produced.files (.groupRecords 0 0) = some [] ∧
      ¬ HoldsMembers resultsOptions 0 produced :=
  ⟨groupZero_lost [] (by decide), groupZero_lost _ (by decide)⟩

end Single

end Nfql.Output
