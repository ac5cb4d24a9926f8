import Nfql.GrouperOutput
import Nfql.GrouperStage
import Nfql.Outcomes

set_option autoImplicit false

/- What the files of the grouper hold. -/
namespace Nfql.Output

open Outcomes

/-- The locals and the group's record both hold the timestamps of the members. -/
structure Growing.Refines (grown : Growing) (members : List RecordPtr) (span : Span) : Prop where
  members : grown.members = members
  min : grown.min = span.startTs
  max : grown.max = span.endTs
  record : grown.groupAggrRecord = span

theorem start_refines (io : IoHandler) (members : List RecordPtr) (item : RecordPtr) :
    (Growing.start io members item).Refines members (Span.of io item) := ⟨rfl, rfl, rfl, rfl⟩

theorem Growing.Refines.add (io : IoHandler) {grown : Growing} {members : List RecordPtr}
    {span : Span} (refines : grown.Refines members span) (item : RecordPtr) :
    (grown.add io item).Refines (members ++ [item]) (span.widen io item) := by
  obtain ⟨rfl, min, max, rfl⟩ := refines
  refine ⟨rfl, ?_, ?_, ?_⟩
  · rw [Growing.add, min, Span.widen]
  · rw [Growing.add, max, Span.widen]
  · rw [Growing.add, min, max, Span.widen]

section Scan

variable (options : OutputOptions) (funcs : GrouperFuncs) (io : IoHandler) (branchId : Nat)
  (clause : List GrouperTerm) (recordset : List (Option RecordPtr)) (lastItem : Nat)

theorem growGroup_alike (file : StageFile) (currentItem : Nat) (group : Growing) (files : Files)
    (span : Span) (refines : group.Refines group.members span) :
    Alike (fun written run => written.1 = run.1 ∧ written.2.1.Refines run.2.1 run.2.2 ∧
        ∃ added, run.2.1 = group.members ++ added ∧
          written.2.2 = options.writeRecords options.verboseVv file added files)
      (growGroup options funcs io clause recordset lastItem file currentItem group files)
      (Nfql.growGroup funcs io clause recordset lastItem currentItem group.members span) := by
  fun_induction growGroup options funcs io clause recordset lastItem file currentItem group
      files generalizing span with
  | case1 group files =>
      rw [Nfql.growGroup, if_pos rfl]
      exact ⟨rfl, refines, [], (List.append_nil _).symm, rfl⟩
  | case2 currentItem group files more outside =>
      rw [Nfql.growGroup, if_neg more]
      split <;> rename_i found <;> rw [outside] at found <;> cases found
      rfl
  | case3 currentItem group files more sentinel =>
      rw [Nfql.growGroup, if_neg more]
      split <;> rename_i found <;> rw [sentinel] at found <;> cases found
      rfl
  | case4 currentItem group files more item inside stopped =>
      rw [growGroup_item _ _ _ _ _ _ _ _ more _ inside, if_pos stopped]
      exact ⟨rfl, refines, [], (List.append_nil _).symm, rfl⟩
  | case5 currentItem group files more item inside complete ih =>
      rw [growGroup_item _ _ _ _ _ _ _ _ more _ inside, if_neg complete]
      refine (ih (span.widen io item) (refines.add io item)).imp ?_
      rintro written run ⟨same, refines, added, members, written⟩
      refine ⟨same, refines, item :: added, ?_, written⟩
      rw [members, Growing.add, List.append_assoc]
      rfl

/-- A group that is begun writes all members that it adds to its first. -/
theorem newGroup_alike (file : StageFile) (currentItem : Nat) (item : RecordPtr) (files : Files) :
    Alike (fun written run => written.1 = run.1 ∧ written.2.1.Refines run.2.1 run.2.2 ∧
        ∃ added, run.2.1 = item :: added ∧
          written.2.2 = options.writeRecords options.verboseVv file added files)
      (growGroup options funcs io clause recordset lastItem file currentItem
        (Growing.start io [item] item) files)
      (Nfql.growGroup funcs io clause recordset lastItem currentItem [item] (Span.of io item)) :=
  growGroup_alike options funcs io clause recordset lastItem file currentItem _ files _
    (start_refines io [item] item)

/-- The loop over all records that are clubbed into one group. -/
theorem Growing.Refines.foldl (io : IoHandler) {grown : Growing} {members : List RecordPtr}
    {span : Span} (refines : grown.Refines members span) (items : List RecordPtr) :
    (items.foldl (Growing.add io) grown).Refines (members ++ items)
      (items.foldl (Span.widen io) span) := by
  induction items generalizing grown members span with
  | nil => rwa [List.append_nil]
  | cons item rest ih =>
      have next := ih (refines.add io item)
      rwa [List.append_assoc, List.singleton_append] at next

end Scan

section Files

variable (options : OutputOptions) (branchId : Nat)

/-- After some turns the file of the groups holds the groups' records, and the file of
a group those of its members that are written. -/
structure FilesHold (written : List RecordPtr → List RecordPtr) (produced : Produced) :
    Prop where
  count : produced.gresult.numGroups = produced.gresult.groupset.length
  bound : produced.gresult.numGroups < 2 ^ 32
  groups : options.file = true → options.verboseV = true →
    options.contents produced.files (.groups branchId) =
      some (produced.gresult.groupset.map Group.record)
  members : options.file = true → options.verboseVv = true → ∀ number group,
    produced.gresult.groupset[number]? = some group →
      options.contents produced.files (memberFile branchId (number + 1)) =
        some ((written group.members).map RecordPtr.record)

/-- The numbers of the files are those of the groups. -/
theorem memberFile_injective (m n : Nat) (fits : m < 2 ^ 32) (fits' : n < 2 ^ 32)
    (same : memberFile branchId m = memberFile branchId n) : m = n := by
  rw [memberFile, memberFile, StageFile.groupRecords.injEq, BitVec.toInt_inj] at same
  have numbers := congrArg BitVec.toNat ((BitVec.sub_left_inj _).mp same.2)
  simpa only [BitVec.toNat_ofNat, Nat.mod_eq_of_lt fits, Nat.mod_eq_of_lt fits'] using numbers

theorem memberFile_ne_groups (m : Nat) : memberFile branchId m ≠ .groups branchId := by
  rw [memberFile]
  exact StageFile.noConfusion

/-- What one turn writes, first to the file of its group and then to that of the groups. -/
def turnFiles (numGroups : Nat) (group : Group) (added : List RecordPtr) (files : Files) : Files :=
  options.writeRecord options.verboseV (.groups branchId) group.record
    (options.writeRecords options.verboseVv (memberFile branchId numGroups) added
      (options.writeInit options.verboseVv (memberFile branchId numGroups) files))

theorem turnFiles_groups (numGroups : Nat) (group : Group) (added : List RecordPtr) (files : Files)
    (directory : options.file = true) (set : options.verboseV = true) :
    options.contents (turnFiles options branchId numGroups group added files) (.groups branchId) =
      (options.contents files (.groups branchId)).map (· ++ [group.record]) := by
  rw [turnFiles, contents_writeRecord _ _ _ _ _ set directory,
    contents_written_other _ _ _ _ _ _ (memberFile_ne_groups branchId numGroups).symm]

theorem turnFiles_members (numGroups : Nat) (group : Group) (added : List RecordPtr) (files : Files)
    (directory : options.file = true) (set : options.verboseVv = true) :
    options.contents (turnFiles options branchId numGroups group added files)
      (memberFile branchId numGroups) = some (added.map RecordPtr.record) := by
  rw [turnFiles, contents_writeRecord_other _ _ _ _ _ _ (memberFile_ne_groups branchId numGroups),
    contents_written _ _ _ _ _ set directory]

theorem turnFiles_other (numGroups : Nat) (group : Group) (added : List RecordPtr) (files : Files)
    (other : StageFile) (groups : other ≠ .groups branchId)
    (members : other ≠ memberFile branchId numGroups) :
    options.contents (turnFiles options branchId numGroups group added files) other =
      options.contents files other := by
  rw [turnFiles, contents_writeRecord_other _ _ _ _ _ _ groups,
    contents_written_other _ _ _ _ _ _ members]

/-- One turn keeps this: it creates the file of its group and changes only that file
and the one of the groups. -/
theorem FilesHold.turn {options : OutputOptions} {branchId : Nat} {produced : Produced}
    (hold : FilesHold options branchId List.tail produced) (group : Group) (first : RecordPtr)
    (added : List RecordPtr) (members : group.members = first :: added)
    (room : uint32 (produced.gresult.numGroups + 1) ≠ 0) :
    FilesHold options branchId List.tail
      { produced with
        gresult := ⟨uint32 (produced.gresult.numGroups + 1), produced.gresult.groupset ++ [group]⟩
        files := turnFiles options branchId (uint32 (produced.gresult.numGroups + 1)) group added
          produced.files } := by
  have count := hold.count
  have exact := uint32_exact _ hold.bound room
  have bound := uint32_lt (produced.gresult.numGroups + 1)
  rw [exact] at bound ⊢
  refine ⟨?_, bound, ?_, ?_⟩
  · rw [List.length_append, List.length_singleton, count]
  · intro directory set
    rw [turnFiles_groups _ _ _ _ _ _ directory set, hold.groups directory set]
    simp only [Option.map_some, List.map_append, List.map_cons, List.map_nil]
  · intro directory set number found inside
    rcases Nat.lt_trichotomy number produced.gresult.groupset.length with before | last | behind
    · rw [List.getElem?_append_left before] at inside
      have earlier : memberFile branchId (number + 1) ≠
          memberFile branchId (produced.gresult.numGroups + 1) := by
        intro same
        have := memberFile_injective branchId _ _ (by omega) bound same
        omega
      rw [turnFiles_other _ _ _ _ _ _ _ (memberFile_ne_groups _ _) earlier]
      exact hold.members directory set number found inside
    · rw [last, List.getElem?_concat_length, Option.some.injEq] at inside
      rw [last, ← count, turnFiles_members _ _ _ _ _ _ directory set, ← inside, members]
      rfl
    · have outside : (produced.gresult.groupset ++ [group]).length ≤ number := by
        rw [List.length_append, List.length_singleton]
        omega
      rw [List.getElem?_eq_none outside] at inside
      cases inside

/-- Without a turn there is nothing but the file of the groups. -/
theorem FilesHold.init (files : Files)
    (created : options.file = true → options.verboseV = true →
      options.contents files (.groups branchId) = some []) :
    FilesHold options branchId List.tail ⟨⟨0, []⟩, [], files⟩ where
  count := rfl
  bound := Nat.two_pow_pos 32
  groups := created
  members _ _ _ _ inside := by cases inside

/-- The file of the only group is opened and closed. -/
theorem FilesHold.single (group : Group) (files : Files)
    (created : options.file = true → options.verboseV = true →
      options.contents files (.groups branchId) = some []) :
    FilesHold options branchId (fun _ => []) ⟨⟨1, [group]⟩, [],
      options.writeInit options.verboseVv (.groupRecords branchId 0)
        (options.writeRecord options.verboseV (.groups branchId) group.record files)⟩ where
  count := rfl
  bound := Nat.one_lt_two_pow (by decide)
  groups directory set := by
    rw [contents_writeInit_other _ _ _ _ _ StageFile.noConfusion,
      contents_writeRecord _ _ _ _ _ set directory, created directory set]
    rfl
  members directory set number found inside := by
    obtain ⟨bound, -⟩ := List.getElem?_eq_some_iff.mp inside
    obtain rfl : number = 0 := Nat.lt_one_iff.mp bound
    exact contents_writeInit _ _ _ _ set directory

end Files

section Run

variable (options : OutputOptions) (funcs : GrouperFuncs) (io : IoHandler) (branchId : Nat)
  (clause : List GrouperTerm) (recordset : List (Option RecordPtr)) (lastItem : Nat)

/-- The run with output has come as far as the run without. Once the records are
sorted, their file holds them. -/
structure Follows (numFilteredRecords : Nat) (sorted : Prop) (produced : Produced)
    (gresult : GrouperResult) : Prop where
  gresult : produced.gresult = gresult
  files : FilesHold options branchId List.tail produced
  count : sorted → options.verboseVv = true →
    produced.sortedRecordset.length = numFilteredRecords
  sorted : sorted → options.file = true → options.verboseVv = true →
    options.contents produced.files (.sortedRecords branchId) =
      some (produced.sortedRecordset.map RecordPtr.record)

variable (cook : List RecordPtr → Span → Except Fault Group)
  (keeps : ∀ members span group, cook members span = .ok group → group.members = members)

include keeps in
theorem scanGroups_alike (numFilteredRecords : Nat) (sorted : Prop) (currentItem : Nat)
    (produced : Produced) (gresult : GrouperResult)
    (follows : Follows options branchId numFilteredRecords sorted produced gresult) :
    Alike (Follows options branchId numFilteredRecords sorted)
      (scanGroups options funcs io branchId clause recordset lastItem cook currentItem produced)
      (Nfql.scanGroups funcs io clause recordset lastItem cook currentItem gresult) := by
  obtain ⟨rfl, hold, count, kept⟩ := follows
  fun_induction scanGroups options funcs io branchId clause recordset lastItem cook currentItem
      produced with
  | case1 currentItem produced outside =>
      rw [scanGroups_outside _ _ _ _ _ _ _ _ outside]
      rfl
  | case2 currentItem produced sentinel =>
      rw [scanGroups_end _ _ _ _ _ _ _ _ sentinel]
      exact ⟨rfl, hold, count, kept⟩
  | case3 currentItem produced item inside numGroups fault full =>
      rw [scanGroups_item _ _ _ _ _ _ _ _ _ inside, full]
      rfl
  | case4 currentItem produced item inside numGroups room file fault failed =>
      have alike := newGroup_alike options funcs io clause recordset lastItem file currentItem item
        (options.writeInit options.verboseVv file produced.files)
      rw [failed] at alike
      rw [scanGroups_item _ _ _ _ _ _ _ _ _ inside, room, ok_bind, alike.of_error]
      rfl
  | case5 currentItem produced item inside numGroups room file reached grown files wrote fault
        failed =>
      have alike := newGroup_alike options funcs io clause recordset lastItem file currentItem item
        (options.writeInit options.verboseVv file produced.files)
      rw [wrote] at alike
      obtain ⟨⟨reached', members, span⟩, plain, -, refines, -⟩ := alike.of_ok
      dsimp only at refines
      rw [refines.members, refines.record] at failed
      rw [scanGroups_item _ _ _ _ _ _ _ _ _ inside, room, ok_bind, plain]
      simp only [ok_bind, failed, error_bind]
      rfl
  | case6 currentItem produced item inside numGroups room file reached grown files wrote group
        cooked ih =>
      have alike := newGroup_alike options funcs io clause recordset lastItem file currentItem item
        (options.writeInit options.verboseVv file produced.files)
      rw [wrote] at alike
      obtain ⟨⟨reached', members, span⟩, plain, same, refines, added, begun, written⟩ := alike.of_ok
      dsimp only at same refines begun written
      rw [refines.members, refines.record] at cooked
      rw [scanGroups_item _ _ _ _ _ _ _ _ _ inside, room, ok_bind, plain]
      simp only [ok_bind, cooked, ← same]
      rw [written] at ih ⊢
      apply ih
      · exact hold.turn group item added ((keeps _ _ _ cooked).trans begun) (realloc_positive room)
      · exact count
      · intro given directory set
        rw [← kept given directory set]
        exact turnFiles_other options branchId numGroups group added produced.files _
          StageFile.noConfusion StageFile.noConfusion

end Run

section Stage

variable (options : OutputOptions) (libc : Libc) (funcs : GrouperFuncs) (io : IoHandler)
  (groupaggregationsEnabled : Bool) (branch : Branch) (branchId numFilteredRecords : Nat)

theorem readItems_length (count : Nat) (recordset : List (Option RecordPtr))
    (items : List RecordPtr) (read : readItems count recordset = .ok items) :
    items.length = count := by
  fun_induction readItems count recordset generalizing items with
  | case1 =>
      cases read
      rfl
  | case2 | case3 => cases read
  | case4 count item rest ih =>
      obtain ⟨items, tail, whole⟩ := bind_eq_ok read
      cases whole
      rw [List.length_cons, ih items tail]

theorem cookGroup_members (members : List RecordPtr) (span : Span) (group : Group)
    (cooked : cookGroup libc groupaggregationsEnabled branch members span = .ok group) :
    group.members = members := by
  obtain ⟨_, _, cooked⟩ := bind_eq_ok cooked
  obtain ⟨_, _, cooked⟩ := bind_eq_ok cooked
  cases groupaggregationsEnabled with
  | false =>
      cases cooked
      rfl
  | true =>
      obtain ⟨_, _, cooked⟩ := bind_eq_ok cooked
      cases cooked
      rfl

/-- Saving the sorted records leaves the files of the groups alone. -/
theorem saveSorted_follows (sorted : List RecordPtr) (before : Prop) (produced : Produced)
    (gresult : GrouperResult)
    (follows : Follows options branchId numFilteredRecords before produced gresult)
    (length : sorted.length = numFilteredRecords)
    (inside : options.verboseVv = true → numFilteredRecords ≤ intMax) :
    ∃ saved, saveSorted options branchId sorted produced = .ok saved ∧
      Follows options branchId numFilteredRecords True saved gresult := by
  obtain ⟨rfl, hold, -, -⟩ := follows
  by_cases asked : options.verboseVv = true
  · rw [saveSorted, if_pos asked, intLoop_ok _ (length ▸ inside asked), ok_bind]
    refine ⟨_, rfl, rfl, ⟨hold.count, hold.bound, ?_, ?_⟩, fun _ _ => length, ?_⟩
    · intro directory set
      rw [contents_written_other _ _ _ _ _ _ StageFile.noConfusion]
      exact hold.groups directory set
    · intro directory set number group member
      rw [contents_written_other _ _ _ _ _ _ StageFile.noConfusion]
      exact hold.members directory set number group member
    · intro _ directory _
      exact contents_written _ _ _ _ _ rfl directory
  · rw [saveSorted, if_neg asked]
    exact ⟨produced, rfl, rfl, hold, fun _ set => absurd set asked, fun _ _ set => absurd set asked⟩

theorem intermediates_alike (recordset : List (Option RecordPtr)) (clause : List GrouperTerm)
    (before : Prop) (produced : Produced) (gresult : GrouperResult)
    (follows : Follows options branchId numFilteredRecords before produced gresult)
    (inside : options.verboseVv = true → numFilteredRecords ≤ intMax) :
    Alike (fun written recordset => written.1 = recordset ∧
        Follows options branchId numFilteredRecords True written.2 gresult)
      (getGrouperIntermediates options libc funcs branchId numFilteredRecords recordset clause
        produced)
      (Nfql.getGrouperIntermediates libc funcs numFilteredRecords recordset clause) := by
  rw [getGrouperIntermediates, Nfql.getGrouperIntermediates]
  cases read : readItems numFilteredRecords recordset with
  | error fault => rfl
  | ok items =>
      have length := readItems_length _ _ _ read
      have sorted := (libc.qsortR.perm (qsortComp funcs clause) items).length_eq
      obtain ⟨saved, run, follows⟩ := saveSorted_follows options branchId numFilteredRecords
        (libc.qsortR.run (qsortComp funcs clause) items) before produced gresult follows
        (sorted.trans length) inside
      simp only [ok_bind, run]
      split
      · exact ⟨rfl, follows⟩
      · rfl

theorem groupClauses_alike (clauses : List (List GrouperTerm))
    (recordset : List (Option RecordPtr)) (before : Prop) (produced : Produced)
    (gresult : GrouperResult)
    (follows : Follows options branchId numFilteredRecords before produced gresult)
    (inside : options.verboseVv = true → numFilteredRecords ≤ intMax) :
    Alike (Follows options branchId numFilteredRecords (before ∨ clauses ≠ []))
      (groupClauses options libc funcs io groupaggregationsEnabled branch branchId
        numFilteredRecords clauses recordset produced)
      (Nfql.groupClauses libc funcs io groupaggregationsEnabled branch numFilteredRecords clauses
        recordset gresult) := by
  induction clauses generalizing recordset before produced gresult with
  | nil =>
      have given (later : before ∨ ([] : List (List GrouperTerm)) ≠ []) : before :=
        later.resolve_right fun none => none rfl
      exact ⟨follows.gresult, follows.files, fun later => follows.count (given later),
        fun later => follows.sorted (given later)⟩
  | cons clause rest ih =>
      refine (intermediates_alike options libc funcs branchId numFilteredRecords recordset clause
        before produced gresult follows inside).bind ?_
      rintro ⟨recordset, produced⟩ _ ⟨rfl, saved⟩
      refine (scanGroups_alike options funcs io branchId clause recordset _ _
        (cookGroup_members libc groupaggregationsEnabled branch) numFilteredRecords True 0
        produced gresult saved).bind ?_
      intro produced gresult scanned
      refine (ih recordset True produced gresult scanned).imp fun produced gresult after => ?_
      exact ⟨after.gresult, after.files, fun _ => after.count (.inl trivial),
        fun _ => after.sorted (.inl trivial)⟩

/-- The members that get into their group's file. -/
def writtenMembers (branch : Branch) : List RecordPtr → List RecordPtr :=
  match branch.grouperClauseset with
  | [] => fun _ => []
  | _ => List.tail

theorem writtenMembers_length (members : List RecordPtr) (nonempty : members ≠ []) :
    (writtenMembers branch members).length < members.length := by
  have positive := List.length_pos_iff.mpr nonempty
  rw [writtenMembers]
  cases branch.grouperClauseset with
  | nil => exact positive
  | cons clause rest =>
      rw [List.length_tail]
      omega

theorem clubRecords_alike (recordset : List (Option RecordPtr)) (files : Files)
    (created : options.file = true → options.verboseV = true →
      options.contents files (.groups branchId) = some []) :
    Alike (fun produced gresult => produced.gresult = gresult ∧
        FilesHold options branchId (fun _ => []) produced)
      (clubRecords options libc io groupaggregationsEnabled branch branchId numFilteredRecords
        recordset files)
      (Nfql.clubRecords libc io groupaggregationsEnabled branch numFilteredRecords recordset) := by
  rw [clubRecords, Nfql.clubRecords]
  cases readItems numFilteredRecords recordset with
  | error fault => rfl
  | ok members =>
      cases members with
      | nil => rfl
      | cons first rest =>
          have refines := (start_refines io [] first).foldl io (first :: rest)
          simp only [ok_bind, refines.members, refines.record, List.nil_append]
          cases intLoop (first :: rest).length with
          | error fault => rfl
          | ok =>
              simp only [ok_bind]
              cases cookGroup libc groupaggregationsEnabled branch (first :: rest)
                  (List.foldl (Span.widen io) (Span.of io first) (first :: rest)) with
              | error fault => rfl
              | ok group =>
                  exact ⟨rfl, FilesHold.single options branchId group files created⟩

/-- The run with output has produced what the run without does, and its files hold it. -/
structure Leaves (fresult : FilterResult) (produced : Produced) (gresult : GrouperResult) :
    Prop where
  gresult : produced.gresult = gresult
  files : 0 < fresult.numFilteredRecords →
    FilesHold options branchId (writtenMembers branch) produced
  count : 0 < fresult.numFilteredRecords → branch.grouperClauseset ≠ [] →
    options.verboseVv = true → produced.sortedRecordset.length = fresult.numFilteredRecords
  sorted : 0 < fresult.numFilteredRecords → branch.grouperClauseset ≠ [] →
    options.file = true → options.verboseVv = true →
      options.contents produced.files (.sortedRecords branchId) =
        some (produced.sortedRecordset.map RecordPtr.record)

theorem grouper_alike (fresult : FilterResult) (files : Files)
    (inside : branch.grouperClauseset ≠ [] → options.verboseVv = true →
      fresult.numFilteredRecords ≤ intMax) :
    Alike (Leaves options branch branchId fresult)
      (grouper options libc funcs io groupaggregationsEnabled branch branchId fresult files)
      (Nfql.grouper libc funcs io groupaggregationsEnabled branch fresult) := by
  rw [grouper, Nfql.grouper]
  by_cases positive : 0 < fresult.numFilteredRecords
  · have created (directory : options.file = true) (set : options.verboseV = true) :=
      contents_writeInit options options.verboseV (.groups branchId) files set directory
    rw [if_pos positive, if_pos positive]
    cases clauses : branch.grouperClauseset with
    | nil =>
        refine (clubRecords_alike options libc io groupaggregationsEnabled branch branchId _ _ _
          created).imp ?_
        rintro produced gresult ⟨same, hold⟩
        refine ⟨same, fun _ => ?_, fun _ given => absurd clauses given,
          fun _ given => absurd clauses given⟩
        rwa [writtenMembers, clauses]
    | cons clause rest =>
        have start : Follows options branchId fresult.numFilteredRecords False _ _ :=
          ⟨rfl, FilesHold.init options branchId _ created, False.elim, False.elim⟩
        refine (groupClauses_alike options libc funcs io groupaggregationsEnabled branch branchId
          _ (clause :: rest) _ False _ _ start (inside (by simp [clauses]))).imp ?_
        intro produced gresult follows
        refine ⟨follows.gresult, fun _ => ?_, fun _ _ => follows.count (.inr (by simp)),
          fun _ _ => follows.sorted (.inr (by simp))⟩
        rw [writtenMembers, clauses]
        exact follows.files
  · rw [if_neg positive, if_neg positive]
    exact ⟨rfl, fun given => absurd given positive, fun given => absurd given positive,
      fun given => absurd given positive⟩

/-- A loop over more records than an `int` counts does not end. -/
theorem grouper_inside (fresult : FilterResult) (files : Files) (produced : Produced)
    (success : grouper options libc funcs io groupaggregationsEnabled branch branchId fresult
      files = .ok produced) (given : branch.grouperClauseset ≠ [])
    (set : options.verboseVv = true) : fresult.numFilteredRecords ≤ intMax := by
  by_contra beyond
  have positive : 0 < fresult.numFilteredRecords := by omega
  obtain ⟨clause, rest, clauses⟩ := List.exists_cons_of_ne_nil given
  rw [grouper, if_pos positive, clauses] at success
  obtain ⟨_, sorted, -⟩ := bind_eq_ok success
  obtain ⟨items, read, saved⟩ := bind_eq_ok sorted
  have length := readItems_length _ _ _ read
  have sorted := (libc.qsortR.perm (qsortComp funcs clause) items).length_eq
  obtain ⟨_, saved, -⟩ := bind_eq_ok saved
  rw [saveSorted, if_pos set, intLoop_error _ (by omega)] at saved
  cases saved

theorem grouper_leaves (fresult : FilterResult) (files : Files) (produced : Produced)
    (success : grouper options libc funcs io groupaggregationsEnabled branch branchId fresult
      files = .ok produced) :
    ∃ gresult, Nfql.grouper libc funcs io groupaggregationsEnabled branch fresult = .ok gresult ∧
      Leaves options branch branchId fresult produced gresult := by
  have alike := grouper_alike options libc funcs io groupaggregationsEnabled branch branchId
    fresult files (grouper_inside options libc funcs io groupaggregationsEnabled branch branchId
      fresult files produced success)
  rw [success] at alike
  exact alike.of_ok

end Stage

end Nfql.Output
