import Nfql.GroupRecord
import Nfql.FilterStage

set_option autoImplicit false

/- What the whole grouper stage makes of the filtered records. -/
namespace Nfql

open GreedyRuns

section Runs

variable (libc : Libc) (funcs : GrouperFuncs)

/-- The records as sorted for each clause in turn, starting from the previous order. -/
def sortings : List (List GrouperTerm) → List RecordPtr → List (List RecordPtr)
  | [], _ => []
  | clause :: rest, records =>
      let sorted := libc.qsortR.run (qsortComp funcs clause) records
      sorted :: sortings rest sorted

/-- For each clause, the greedy runs of the records sorted for it. -/
def clauseRuns (clauses : List (List GrouperTerm)) (records : List RecordPtr) :
    List (List (List RecordPtr)) :=
  List.zipWith (fun clause sorted => runs (clauseAccepts funcs clause) sorted) clauses
    (sortings libc funcs clauses records)

/-- The member lists of a branch's groups. Without clauses nothing is sorted and
every record is accepted. -/
def Branch.groupRuns (branch : Branch) (records : List RecordPtr) : List (List RecordPtr) :=
  match branch.grouperClauseset with
  | [] => runs (fun _ _ => true) records
  | clauses => (clauseRuns libc funcs clauses records).flatten

/-- Nothing the grouper counts leaves the type it is counted in. -/
structure Branch.Feasible (groupaggregationsEnabled : Bool) (branch : Branch)
    (records : List RecordPtr) : Prop where
  numGroups : (branch.groupRuns libc funcs records).length < 2 ^ 32
  inRange : ∀ run ∈ branch.groupRuns libc funcs records,
    branch.InRange groupaggregationsEnabled run.length
  single : branch.grouperClauseset = [] → records.length ≤ intMax

theorem readItems_ok (records : List RecordPtr) (behind : List (Option RecordPtr)) :
    readItems records.length (records.map some ++ behind) = .ok records := by
  induction records with
  | nil => rfl
  | cons record rest ih =>
      simp only [List.length_cons, List.map_cons, List.cons_append, readItems, ih, ok_bind]

theorem getGrouperIntermediates_ok (records : List RecordPtr) (behind : List (Option RecordPtr))
    (clause : List GrouperTerm) :
    getGrouperIntermediates libc funcs records.length (records.map some ++ none :: behind) clause =
      .ok ((libc.qsortR.run (qsortComp funcs clause) records).map some ++ none :: behind) := by
  have inside : records.length < (records.map some ++ none :: behind).length := by
    rw [List.length_append, List.length_map, List.length_cons]
    omega
  have after : (records.map some ++ none :: behind).drop (records.length + 1) = behind := by
    rw [← List.length_map some, ← List.drop_drop, List.drop_left]
    rfl
  simp only [getGrouperIntermediates, readItems_ok, ok_bind, if_pos inside, after]

section Push

variable (io : IoHandler) (cook : List RecordPtr → Span → Except Fault Group)

/-- The groups of a list of runs, if they are few enough and each can be cooked. -/
theorem pushGroups_ok {P : List RecordPtr → Group → Prop} (members : List (List RecordPtr))
    (start : List Group) (room : start.length + members.length < 2 ^ 32)
    (cooked : ∀ run ∈ members, ∃ group, cook run (Span.ofMembers io run) = .ok group ∧
      P run group) :
    ∃ groups, members.foldlM (pushGroup io cook) ⟨start.length, start⟩ =
        .ok ⟨(start ++ groups).length, start ++ groups⟩ ∧ List.Forall₂ P members groups := by
  induction members generalizing start with
  | nil => exact ⟨[], by rw [List.append_nil]; rfl, List.Forall₂.nil⟩
  | cons run rest ih =>
      obtain ⟨group, success, holds⟩ := cooked run (by simp)
      rw [List.length_cons] at room
      have next := uint32_snoc start group (by omega)
      obtain ⟨groups, run_rest, others⟩ := ih (start ++ [group])
        (by rw [List.length_append, List.length_singleton]; omega)
        fun other member => cooked other (by simp [member])
      refine ⟨group :: groups, ?_, List.Forall₂.cons holds others⟩
      rw [List.foldlM_cons, pushGroup]
      simp only [next, realloc_snoc, ok_bind, success]
      rw [run_rest, List.append_assoc, List.singleton_append]

/-- A 32-bit count that never wrapped to zero is exact. -/
theorem pushGroups_room (members : List (List RecordPtr)) (gresult result : GrouperResult)
    (start : gresult.numGroups < 2 ^ 32)
    (success : members.foldlM (pushGroup io cook) gresult = .ok result) :
    gresult.numGroups + members.length < 2 ^ 32 ∧
      ∀ run ∈ members, ∃ group, cook run (Span.ofMembers io run) = .ok group := by
  induction members generalizing gresult with
  | nil => exact ⟨start, by simp⟩
  | cons run rest ih =>
      rw [List.foldlM_cons] at success
      obtain ⟨next, pushed, success⟩ := bind_eq_ok success
      obtain ⟨_, allocated, pushed⟩ := bind_eq_ok pushed
      obtain ⟨group, cooked, pushed⟩ := bind_eq_ok pushed
      have exact := uint32_exact gresult.numGroups start (realloc_positive allocated)
      cases pushed
      obtain ⟨room, others⟩ := ih _ (uint32_lt _) success
      simp only [exact] at room
      refine ⟨by rw [List.length_cons]; omega, ?_⟩
      intro other member
      rcases List.mem_cons.mp member with rfl | member
      · exact ⟨group, cooked⟩
      · exact others other member

/-- A run that fails either has too many groups or fails to cook one. -/
theorem pushGroups_fault (members : List (List RecordPtr)) (gresult : GrouperResult)
    (fault : Fault) (failure : members.foldlM (pushGroup io cook) gresult = .error fault) :
    fault = .errExit "realloc" ∨
      ∃ run ∈ members, cook run (Span.ofMembers io run) = .error fault := by
  induction members generalizing gresult with
  | nil => cases failure
  | cons run rest ih =>
      rw [List.foldlM_cons, pushGroup] at failure
      by_cases zero : uint32 (gresult.numGroups + 1) = 0
      · simp only [realloc, zero, ↓reduceIte, error_bind, Except.error.injEq] at failure
        exact .inl failure.symm
      · simp only [realloc, zero, ↓reduceIte, ok_bind] at failure
        cases cooked : cook run (Span.ofMembers io run) with
        | error other =>
            simp only [cooked, error_bind, Except.error.injEq] at failure
            exact .inr ⟨run, by simp, by rw [cooked, failure]⟩
        | ok group =>
            simp only [cooked, ok_bind] at failure
            rcases ih _ failure with early | ⟨other, member, failed⟩
            · exact .inl early
            · exact .inr ⟨other, by simp [member], failed⟩

end Push

section Clauses

variable (io : IoHandler) (groupaggregationsEnabled : Bool) (branch : Branch)

theorem sorted_length (clause : List GrouperTerm) (records : List RecordPtr) :
    (libc.qsortR.run (qsortComp funcs clause) records).length = records.length :=
  (libc.qsortR.perm _ records).length_eq

/-- The clause loop pushes the runs of all clauses. -/
theorem groupClauses_runs (clauses : List (List GrouperTerm)) (records : List RecordPtr)
    (behind : List (Option RecordPtr)) (gresult : GrouperResult) :
    groupClauses libc funcs io groupaggregationsEnabled branch records.length clauses
        (records.map some ++ none :: behind) gresult =
      (clauseRuns libc funcs clauses records).flatten.foldlM
        (pushGroup io (cookGroup libc groupaggregationsEnabled branch)) gresult := by
  induction clauses generalizing records gresult with
  | nil => rfl
  | cons clause rest ih =>
      have same := sorted_length libc funcs clause records
      have scan := scanGroups_runs funcs io clause
        (libc.qsortR.run (qsortComp funcs clause) records) behind
        (cookGroup libc groupaggregationsEnabled branch) 0 gresult (Nat.zero_le _)
      rw [same, List.drop_zero] at scan
      simp only [groupClauses, getGrouperIntermediates_ok, ok_bind, scan, clauseRuns, sortings,
        List.zipWith_cons_cons, List.flatten_cons, List.foldlM_append]
      congr 1
      funext next
      have later := ih (libc.qsortR.run (qsortComp funcs clause) records) next
      rw [same] at later
      exact later

theorem sortings_perm (clauses : List (List GrouperTerm)) (records : List RecordPtr) :
    ∀ sorted ∈ sortings libc funcs clauses records, sorted.Perm records := by
  induction clauses generalizing records with
  | nil => intro sorted member; cases member
  | cons clause rest ih =>
      have perm := libc.qsortR.perm (qsortComp funcs clause) records
      intro sorted member
      rcases List.mem_cons.mp member with rfl | later
      · exact perm
      · exact (ih _ sorted later).trans perm

theorem clauseRuns_flatten (clauses : List (List GrouperTerm)) (records : List RecordPtr) :
    (clauseRuns libc funcs clauses records).map List.flatten =
      sortings libc funcs clauses records := by
  induction clauses generalizing records with
  | nil => rfl
  | cons clause rest ih =>
      rw [clauseRuns, sortings, List.zipWith_cons_cons, List.map_cons, runs_flatten, ← clauseRuns,
        ih]

/-- What holds of the runs of any clause over any order of the records holds of
all runs a list of clauses makes. -/
theorem clauseRuns_forall {P : List RecordPtr → Prop} (clauses : List (List GrouperTerm))
    (records : List RecordPtr)
    (each : ∀ clause ∈ clauses, ∀ sorted, sorted.Perm records →
      ∀ run ∈ runs (clauseAccepts funcs clause) sorted, P run) :
    ∀ run ∈ (clauseRuns libc funcs clauses records).flatten, P run := by
  induction clauses generalizing records with
  | nil => intro run member; cases member
  | cons clause rest ih =>
      have perm := libc.qsortR.perm (qsortComp funcs clause) records
      intro run member
      rw [clauseRuns, sortings, List.zipWith_cons_cons, List.flatten_cons, List.mem_append,
        ← clauseRuns] at member
      rcases member with now | later
      · exact each clause (by simp) _ perm run now
      · refine ih _ ?_ run later
        intro other member sorted same
        exact each other (by simp [member]) sorted (same.trans perm)

theorem groupRuns_single (records : List RecordPtr) (none : branch.grouperClauseset = []) :
    branch.groupRuns libc funcs records = runs (fun _ _ => true) records := by
  rw [Branch.groupRuns, none]

theorem groupRuns_clauses (records : List RecordPtr) (given : branch.grouperClauseset ≠ []) :
    branch.groupRuns libc funcs records =
      (clauseRuns libc funcs branch.grouperClauseset records).flatten := by
  rw [Branch.groupRuns]
  split
  · contradiction
  · rfl

theorem groupRuns_nonempty (records : List RecordPtr) :
    ∀ run ∈ branch.groupRuns libc funcs records, run ≠ [] := by
  intro run member
  by_cases none : branch.grouperClauseset = []
  · rw [groupRuns_single libc funcs branch records none] at member
    exact runs_ne_nil _ _ run member
  · rw [groupRuns_clauses libc funcs branch records none] at member
    exact clauseRuns_forall libc funcs _ records
      (fun clause _ sorted _ run member => runs_ne_nil _ _ run member) run member

/-- A run is cut out of the records in some order. -/
theorem groupRuns_sublist (records run : List RecordPtr)
    (member : run ∈ branch.groupRuns libc funcs records) :
    ∃ sorted, sorted.Perm records ∧ run.Sublist sorted := by
  by_cases none : branch.grouperClauseset = []
  · rw [groupRuns_single libc funcs branch records none] at member
    have sublist := List.sublist_flatten_of_mem member
    rw [runs_flatten] at sublist
    exact ⟨records, List.Perm.refl records, sublist⟩
  · rw [groupRuns_clauses libc funcs branch records none] at member
    refine clauseRuns_forall (P := fun run => ∃ sorted, sorted.Perm records ∧ run.Sublist sorted)
      libc funcs _ records ?_ run member
    intro clause _ sorted perm run member
    have sublist := List.sublist_flatten_of_mem member
    rw [runs_flatten] at sublist
    exact ⟨sorted, perm, sublist⟩

theorem groupRuns_subset (records : List RecordPtr) :
    ∀ run ∈ branch.groupRuns libc funcs records, ∀ item ∈ run, item ∈ records := by
  intro run member item inside
  obtain ⟨sorted, perm, sublist⟩ := groupRuns_sublist libc funcs branch records run member
  exact perm.mem_iff.mp (sublist.subset inside)

theorem groupRuns_length_le (records run : List RecordPtr)
    (member : run ∈ branch.groupRuns libc funcs records) : run.length ≤ records.length := by
  obtain ⟨sorted, perm, sublist⟩ := groupRuns_sublist libc funcs branch records run member
  rw [← perm.length_eq]
  exact sublist.length_le

theorem groupRuns_nil : branch.groupRuns libc funcs [] = [] := by
  apply List.eq_nil_iff_forall_not_mem.mpr
  intro run member
  obtain ⟨item, rest, rfl⟩ :=
    List.exists_cons_of_ne_nil (groupRuns_nonempty libc funcs branch [] run member)
  exact List.not_mem_nil (groupRuns_subset libc funcs branch [] _ member item (by simp))

end Clauses

section Stage

variable (io : IoHandler) (groupaggregationsEnabled : Bool) (branch : Branch)
  (records : List RecordPtr)

private theorem widen_members (first : RecordPtr) (rest : List RecordPtr) :
    (first :: rest).foldl (Span.widen io) (Span.of io first) =
      Span.ofMembers io (first :: rest) := by
  rw [List.foldl_cons, Span.widen_self, Span.ofMembers]

/-- The grouper pushes the runs of the branch, whether it has clauses or not. -/
theorem grouper_runs (single : branch.grouperClauseset = [] → records.length ≤ intMax) :
    grouper libc funcs io groupaggregationsEnabled branch (FilterResult.of records) =
      (branch.groupRuns libc funcs records).foldlM
        (pushGroup io (cookGroup libc groupaggregationsEnabled branch)) ⟨0, []⟩ := by
  cases records with
  | nil => rw [groupRuns_nil]; rfl
  | cons first rest =>
      have some_records : 0 < (FilterResult.of (first :: rest)).numFilteredRecords :=
        Nat.succ_pos _
      rw [grouper, if_pos some_records]
      split
      · rename_i none
        rw [groupRuns_single libc funcs branch _ none, runs_all _ (List.cons_ne_nil _ _)]
        simp only [clubRecords, FilterResult.of, readItems_ok, intLoop_ok _ (single none), ok_bind,
          widen_members, List.foldlM_cons, List.foldlM_nil, pushGroup]
        have one : realloc (uint32 (0 + 1)) = .ok () := rfl
        rw [one, ok_bind]
        cases cookGroup libc groupaggregationsEnabled branch (first :: rest)
          (Span.ofMembers io (first :: rest)) with
        | error fault => rfl
        | ok group => rfl
      · rename_i given
        rw [groupRuns_clauses libc funcs branch _ given]
        exact groupClauses_runs libc funcs io groupaggregationsEnabled branch _ _ [] _

/-- Clubbing more than `INT_MAX` records overflows the loop counter. -/
theorem grouper_overflow (none : branch.grouperClauseset = []) (beyond : intMax < records.length) :
    grouper libc funcs io groupaggregationsEnabled branch (FilterResult.of records) =
      .error .intOverflow := by
  cases records with
  | nil => cases beyond
  | cons first rest =>
      have some_records : 0 < (FilterResult.of (first :: rest)).numFilteredRecords :=
        Nat.succ_pos _
      rw [grouper, if_pos some_records, none]
      simp only [clubRecords, FilterResult.of, readItems_ok, ok_bind]
      rw [intLoop_error _ beyond, error_bind]

/-- What the grouper stage returns when nothing it counts is too large. -/
theorem grouper_ok (feasible : branch.Feasible libc funcs groupaggregationsEnabled records) :
    ∃ groups, grouper libc funcs io groupaggregationsEnabled branch (FilterResult.of records) =
        .ok ⟨groups.length, groups⟩ ∧
      List.Forall₂ (Cooked libc io groupaggregationsEnabled branch)
        (branch.groupRuns libc funcs records) groups := by
  rw [grouper_runs libc funcs io groupaggregationsEnabled branch records feasible.single]
  have room := feasible.numGroups
  refine pushGroups_ok io _ _ [] (by rwa [List.length_nil, Nat.zero_add]) ?_
  intro run member
  exact cookGroup_ok libc io groupaggregationsEnabled branch run
    (groupRuns_nonempty libc funcs branch records run member) (feasible.inRange run member)

/-- The only ways to fail are running out of groups and out of `int`: no array is
read behind its end and no NULL is dereferenced. -/
theorem grouper_fault (fault : Fault)
    (failure : grouper libc funcs io groupaggregationsEnabled branch (FilterResult.of records) =
      .error fault) : fault = .errExit "realloc" ∨ fault = .intOverflow := by
  by_cases single : branch.grouperClauseset = [] → records.length ≤ intMax
  · rw [grouper_runs libc funcs io groupaggregationsEnabled branch records single] at failure
    rcases pushGroups_fault io _ _ _ fault failure with early | ⟨run, member, failed⟩
    · exact .inl early
    · have started := groupRuns_nonempty libc funcs branch records run member
      by_cases inside : branch.InRange groupaggregationsEnabled run.length
      · obtain ⟨group, success, -⟩ :=
          cookGroup_ok libc io groupaggregationsEnabled branch run started inside
        rw [success] at failed
        cases failed
      · rw [cookGroup_error libc groupaggregationsEnabled branch run started _ inside] at failed
        cases failed
        exact .inr rfl
  · simp only [Classical.not_imp, Nat.not_le] at single
    rw [grouper_overflow libc funcs io groupaggregationsEnabled branch records single.1 single.2]
      at failure
    cases failure
    exact .inr rfl

/-- The grouper stage returns a result in no other case. -/
theorem grouper_feasible (result : GrouperResult)
    (success : grouper libc funcs io groupaggregationsEnabled branch (FilterResult.of records) =
      .ok result) : branch.Feasible libc funcs groupaggregationsEnabled records := by
  have single : branch.grouperClauseset = [] → records.length ≤ intMax := by
    intro none
    by_contra beyond
    rw [grouper_overflow libc funcs io groupaggregationsEnabled branch records none
      (Nat.not_le.mp beyond)] at success
    cases success
  rw [grouper_runs libc funcs io groupaggregationsEnabled branch records single] at success
  obtain ⟨room, cooked⟩ := pushGroups_room io _ _ ⟨0, []⟩ result (by decide) success
  refine ⟨by rwa [Nat.zero_add] at room, ?_, single⟩
  intro run member
  obtain ⟨group, success⟩ := cooked run member
  by_contra outside
  rw [cookGroup_error libc groupaggregationsEnabled branch run
    (groupRuns_nonempty libc funcs branch records run member) _ outside] at success
  cases success

/-- The groups of a result are counted, and cooked from the runs. -/
theorem grouper_cooked (result : GrouperResult)
    (success : grouper libc funcs io groupaggregationsEnabled branch (FilterResult.of records) =
      .ok result) :
    result = ⟨result.groupset.length, result.groupset⟩ ∧
      List.Forall₂ (Cooked libc io groupaggregationsEnabled branch)
        (branch.groupRuns libc funcs records) result.groupset := by
  have feasible := grouper_feasible libc funcs io groupaggregationsEnabled branch records result
    success
  obtain ⟨groups, run, cooked⟩ :=
    grouper_ok libc funcs io groupaggregationsEnabled branch records feasible
  rw [run, Except.ok.injEq] at success
  subst success
  exact ⟨rfl, cooked⟩

end Stage

end Runs

end Nfql
