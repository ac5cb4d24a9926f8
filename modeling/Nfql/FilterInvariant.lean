import Nfql.Filter

set_option autoImplicit false

namespace Nfql

/-- What a branch's filter is for: some clause has all its terms true. -/
def Branch.accepts (branch : Branch) (record : Record) : Bool :=
  Clauses.dnf (fun term : FilterTerm => term.func record) branch.filterClauseset

/-- How many records of the trace the branch accepts. -/
def Branch.acceptCount (branch : Branch) (trace : List Record) : Nat :=
  (trace.filter branch.accepts).length

theorem Branch.acceptCount_le (branch : Branch) (trace : List Record) :
    branch.acceptCount trace ≤ trace.length :=
  List.length_filter_le _ _

/-- Some branch accepts the record, so it is worth a copy. -/
def keep (branchset : List Branch) (record : Record) : Bool :=
  branchset.any fun branch => branch.accepts record

/-- The records of the trace that some branch accepts, in trace order, each with
the pointer to its only copy. -/
def savedRecords (recordSize : Nat) (branchset : List Branch) (trace : List Record) :
    List (Record × RecordPtr) :=
  (trace.filter (keep branchset)).zipIdx.map fun kept =>
    (kept.1, ⟨kept.2, copyRecord recordSize kept.1⟩)

/-- The pointers a branch collects out of the saved records. -/
def Branch.pointers (branch : Branch) (saved : List (Record × RecordPtr)) : List RecordPtr :=
  (saved.filter fun entry => branch.accepts entry.1).map fun entry => entry.2

/-- The trace data after `trace` has been read. -/
def dataAfter (recordSize : Nat) (branchset : List Branch) (trace : List Record) : IoData where
  numRecords := (trace.filter (keep branchset)).length
  recordset := (trace.filter (keep branchset)).map (copyRecord recordSize)

/-- A branch's result after `trace` has been read, before its NULL is set. -/
def Branch.resultAfter (branch : Branch) (recordSize : Nat) (branchset : List Branch)
    (trace : List Record) : FilterResult where
  numFilteredRecords := branch.acceptCount trace
  filteredRecordset := (branch.pointers (savedRecords recordSize branchset trace)).map some

section Record

variable (recordSize : Nat) (record : Record)

/-- What an accepted record does to a branch's result. -/
def FilterResult.push (result : FilterResult) (target : Option RecordPtr) : FilterResult where
  numFilteredRecords := uint32 (result.numFilteredRecords + 1)
  filteredRecordset := result.filteredRecordset ++ [target]

theorem filterBranch_rejects (pass : Pass) (branch : Branch) (result : Option FilterResult)
    (rejects : branch.accepts record = false) :
    filterBranch recordSize record pass branch result = .ok (pass, result) := by
  simp only [filterBranch, Clauses.satisfied_eq_dnf]
  rw [Branch.accepts] at rejects
  simp only [rejects, Bool.false_eq_true, ↓reduceIte]

theorem filterBranch_accepts (pass : Pass) (branch : Branch) (result : FilterResult)
    (accepts : branch.accepts record = true) :
    filterBranch recordSize record pass branch (some result) =
      (realloc (uint32 (result.numFilteredRecords + 1)) >>= fun _ =>
        .ok (pass.save recordSize record,
          some (result.push (pass.save recordSize record).target))) := by
  rw [Branch.accepts] at accepts
  simp only [filterBranch, Clauses.satisfied_eq_dnf, accepts, ↓reduceIte]
  rfl

/-- The first branch that accepts saves the record; all later ones share it. -/
theorem filterRecord_ok (saved : Pass) (again : saved.save recordSize record = saved)
    (branches : List (Branch × FilterResult)) (pass : Pass)
    (first : pass.save recordSize record = saved)
    (room : ∀ entry ∈ branches, entry.1.accepts record = true →
      uint32 (entry.2.numFilteredRecords + 1) ≠ 0) :
    filterRecord recordSize record pass (branches.map fun entry => (entry.1, some entry.2)) =
      .ok (if branches.any fun entry => entry.1.accepts record then saved.data else pass.data,
        branches.map fun entry => (entry.1,
          some (if entry.1.accepts record then entry.2.push saved.target else entry.2))) := by
  induction branches generalizing pass with
  | nil => rfl
  | cons entry rest ih =>
      obtain ⟨branch, result⟩ := entry
      have room_rest := fun other member => room other (List.mem_cons_of_mem _ member)
      simp only [List.map_cons, filterRecord, List.any_cons]
      by_cases decided : branch.accepts record = true
      · have fits := room (branch, result) (by simp) decided
        rw [filterBranch_accepts recordSize record pass branch result decided, first]
        simp only [realloc, fits, decided, ↓reduceIte, ok_bind, ih saved again room_rest,
          ite_self, Bool.true_or]
      · rw [Bool.not_eq_true] at decided
        rw [filterBranch_rejects recordSize record pass branch _ decided]
        simp only [ok_bind, ih pass first room_rest, decided, Bool.false_or, Bool.false_eq_true,
          ↓reduceIte]

/-- A branch whose 32-bit count wraps to zero ends the run. -/
theorem filterRecord_error (branches : List (Branch × FilterResult)) (pass : Pass)
    (full : ∃ entry ∈ branches, entry.1.accepts record = true ∧
      uint32 (entry.2.numFilteredRecords + 1) = 0) :
    filterRecord recordSize record pass (branches.map fun entry => (entry.1, some entry.2)) =
      .error (.errExit "realloc") := by
  induction branches generalizing pass with
  | nil => obtain ⟨entry, member, _⟩ := full; cases member
  | cons entry rest ih =>
      obtain ⟨branch, result⟩ := entry
      simp only [List.map_cons, filterRecord]
      have later : (¬ (branch.accepts record = true ∧
          uint32 (result.numFilteredRecords + 1) = 0)) → ∀ pass,
          filterRecord recordSize record pass (rest.map fun entry => (entry.1, some entry.2)) =
            .error (.errExit "realloc") := by
        intro fits pass
        obtain ⟨other, member, wraps⟩ := full
        rcases List.mem_cons.mp member with rfl | member
        · exact absurd wraps fits
        · exact ih pass ⟨other, member, wraps⟩
      cases decided : branch.accepts record with
      | false =>
          rw [filterBranch_rejects recordSize record pass branch _ decided, ok_bind]
          simp only [later (by simp [decided]) pass, error_bind]
      | true =>
          rw [filterBranch_accepts recordSize record pass branch result decided]
          by_cases wraps : uint32 (result.numFilteredRecords + 1) = 0
          · simp only [realloc, wraps, ↓reduceIte, error_bind]
          · simp only [realloc, wraps, ↓reduceIte, ok_bind, later (by simp [wraps]) _, error_bind]

end Record

section Trace

variable (recordSize : Nat) (branchset : List Branch)

theorem acceptCount_snoc (branch : Branch) (done : List Record) (record : Record) :
    branch.acceptCount (done ++ [record]) =
      branch.acceptCount done + if branch.accepts record then 1 else 0 := by
  rw [Branch.acceptCount, List.filter_append, List.length_append]
  cases decided : branch.accepts record <;> simp [Branch.acceptCount, decided]

theorem acceptCount_append (branch : Branch) (done rest : List Record) :
    branch.acceptCount (done ++ rest) = branch.acceptCount done + branch.acceptCount rest := by
  simp only [Branch.acceptCount, List.filter_append, List.length_append]

theorem savedRecords_snoc (done : List Record) (record : Record) :
    savedRecords recordSize branchset (done ++ [record]) =
      savedRecords recordSize branchset done ++
        if keep branchset record then
          [(record, ⟨(done.filter (keep branchset)).length, copyRecord recordSize record⟩)]
        else [] := by
  cases decided : keep branchset record <;>
    simp [savedRecords, List.filter_append, List.zipIdx_append, decided]

theorem dataAfter_snoc (done : List Record) (record : Record) :
    dataAfter recordSize branchset (done ++ [record]) =
      if keep branchset record then
        { numRecords := (dataAfter recordSize branchset done).numRecords + 1
          recordset :=
            (dataAfter recordSize branchset done).recordset ++ [copyRecord recordSize record] }
      else dataAfter recordSize branchset done := by
  cases decided : keep branchset record <;> simp [dataAfter, List.filter_append, decided]

theorem resultAfter_snoc (branch : Branch) (member : branch ∈ branchset) (done : List Record)
    (record : Record) (room : branch.acceptCount (done ++ [record]) < 2 ^ 32) :
    branch.resultAfter recordSize branchset (done ++ [record]) =
      if branch.accepts record then
        (branch.resultAfter recordSize branchset done).push
          (some ⟨(dataAfter recordSize branchset done).recordset.length,
            copyRecord recordSize record⟩)
      else branch.resultAfter recordSize branchset done := by
  rw [Branch.resultAfter, savedRecords_snoc]
  rw [acceptCount_snoc] at room ⊢
  cases decided : branch.accepts record with
  | false =>
      cases kept : keep branchset record <;>
        simp [Branch.resultAfter, Branch.pointers, decided]
  | true =>
      have kept : keep branchset record = true :=
        List.any_eq_true.mpr ⟨branch, member, decided⟩
      simp only [decided, ↓reduceIte] at room
      have count : uint32 (branch.acceptCount done + 1) = branch.acceptCount done + 1 :=
        uint32_succ _ room
      simp [Branch.resultAfter, FilterResult.push, Branch.pointers, kept, decided, count,
        dataAfter]

/-- The state the loops reach after a prefix of the trace. -/
def branchesAfter (done : List Record) : List (Branch × Option FilterResult) :=
  branchset.map fun branch => (branch, some (branch.resultAfter recordSize branchset done))

/-- One record takes the state of a prefix to that of the next longer prefix. -/
theorem filterRecord_step (done : List Record) (record : Record)
    (room : ∀ branch ∈ branchset, branch.acceptCount (done ++ [record]) < 2 ^ 32) :
    filterRecord recordSize record ⟨dataAfter recordSize branchset done, none, true⟩
        (branchesAfter recordSize branchset done) =
      .ok (dataAfter recordSize branchset (done ++ [record]),
        branchesAfter recordSize branchset (done ++ [record])) := by
  let pass : Pass := ⟨dataAfter recordSize branchset done, none, true⟩
  let entries := branchset.map fun branch =>
    (branch, branch.resultAfter recordSize branchset done)
  have spread : branchesAfter recordSize branchset done =
      entries.map fun entry => (entry.1, some entry.2) := by
    simp only [branchesAfter, entries, List.map_map, Function.comp_def]
  rw [spread]
  refine (filterRecord_ok recordSize record (pass.save recordSize record) rfl entries pass rfl
    ?_).trans ?_
  · intro entry member accepts
    obtain ⟨branch, inside, rfl⟩ := List.mem_map.mp member
    have fits := room branch inside
    rw [acceptCount_snoc] at fits
    simp only [accepts, ↓reduceIte] at fits
    rw [Branch.resultAfter, uint32_succ _ fits]
    exact Nat.succ_ne_zero _
  · have any : (entries.any fun entry => entry.1.accepts record) = keep branchset record := by
      simp only [entries, List.any_map, keep, Function.comp_def]
    congr 2
    · rw [any, dataAfter_snoc]
      rfl
    · simp only [branchesAfter, entries, List.map_map, Function.comp_def]
      apply List.map_congr_left
      intro branch inside
      rw [resultAfter_snoc recordSize branchset branch inside done record (room branch inside)]
      rfl

theorem filterTrace_ok (rest done : List Record)
    (room : ∀ branch ∈ branchset, branch.acceptCount (done ++ rest) < 2 ^ 32) :
    filterTrace recordSize rest (dataAfter recordSize branchset done)
        (branchesAfter recordSize branchset done) =
      .ok (dataAfter recordSize branchset (done ++ rest),
        branchesAfter recordSize branchset (done ++ rest)) := by
  induction rest generalizing done with
  | nil => rw [List.append_nil]; rfl
  | cons record rest ih =>
      have split : done ++ record :: rest = (done ++ [record]) ++ rest := by simp
      rw [split] at room ⊢
      have fits : ∀ branch ∈ branchset, branch.acceptCount (done ++ [record]) < 2 ^ 32 := by
        intro branch member
        have total := room branch member
        rw [acceptCount_append] at total
        omega
      rw [filterTrace, filterRecord_step recordSize branchset done record fits, ok_bind]
      exact ih (done ++ [record]) room

theorem filterTrace_error (rest done : List Record)
    (start : ∀ branch ∈ branchset, branch.acceptCount done < 2 ^ 32)
    (full : ∃ branch ∈ branchset, 2 ^ 32 ≤ branch.acceptCount (done ++ rest)) :
    filterTrace recordSize rest (dataAfter recordSize branchset done)
        (branchesAfter recordSize branchset done) = .error (.errExit "realloc") := by
  induction rest generalizing done with
  | nil =>
      obtain ⟨branch, member, beyond⟩ := full
      have := start branch member
      rw [List.append_nil] at beyond
      omega
  | cons record rest ih =>
      have split : done ++ record :: rest = (done ++ [record]) ++ rest := by simp
      rw [split] at full
      rw [filterTrace]
      by_cases fits : ∀ branch ∈ branchset, branch.acceptCount (done ++ [record]) < 2 ^ 32
      · rw [filterRecord_step recordSize branchset done record fits, ok_bind]
        exact ih (done ++ [record]) fits full
      · simp only [not_forall, Nat.not_lt] at fits
        obtain ⟨branch, member, beyond⟩ := fits
        have before := start branch member
        rw [acceptCount_snoc] at beyond
        have accepts : branch.accepts record = true := by
          by_contra rejects
          rw [Bool.not_eq_true] at rejects
          simp only [rejects, Bool.false_eq_true, ↓reduceIte] at beyond
          omega
        simp only [accepts, ↓reduceIte] at beyond
        have spread : branchesAfter recordSize branchset done =
            (branchset.map fun branch => (branch, branch.resultAfter recordSize branchset done)).map
              fun entry => (entry.1, some entry.2) := by
          simp only [branchesAfter, List.map_map, Function.comp_def]
        rw [spread, filterRecord_error, error_bind]
        refine ⟨_, List.mem_map.mpr ⟨branch, member, rfl⟩, accepts, ?_⟩
        have last : branch.acceptCount done + 1 = 2 ^ 32 := by omega
        rw [Branch.resultAfter, last]
        rfl

end Trace

end Nfql
