import Nfql.FilterInvariant

set_option autoImplicit false

namespace Nfql

/-- A branch's finished result: its pointers, and a NULL behind the last one. -/
def Branch.filterResult (branch : Branch) (recordSize : Nat) (branchset : List Branch)
    (trace : List Record) : FilterResult where
  numFilteredRecords := branch.acceptCount trace
  filteredRecordset :=
    (branch.pointers (savedRecords recordSize branchset trace)).map some ++ [none]

/-- The result of a filter that kept the given records. -/
def FilterResult.of (records : List RecordPtr) : FilterResult where
  numFilteredRecords := records.length
  filteredRecordset := records.map some ++ [none]

theorem terminateRecordset_ok (result : FilterResult)
    (room : result.numFilteredRecords + 1 < 2 ^ 32) :
    terminateRecordset (some result) =
      .ok (some { result with filteredRecordset := result.filteredRecordset ++ [none] }) := by
  have allocated : realloc (uint32 (result.numFilteredRecords + 1)) = .ok () := by
    rw [uint32_succ _ room]
    rfl
  simp only [terminateRecordset, allocated, ok_bind]

theorem terminateRecordset_error (result : FilterResult)
    (full : result.numFilteredRecords + 1 = 2 ^ 32) :
    terminateRecordset (some result) = .error (.errExit "realloc") := by
  have wraps : uint32 (result.numFilteredRecords + 1) = 0 := by
    rw [full]
    rfl
  simp only [terminateRecordset, realloc, wraps, ↓reduceIte, error_bind]

theorem terminateRecordsets_ok (results : List FilterResult)
    (room : ∀ result ∈ results, result.numFilteredRecords + 1 < 2 ^ 32) :
    terminateRecordsets (results.map some) =
      .ok (results.map fun result =>
        some { result with filteredRecordset := result.filteredRecordset ++ [none] }) := by
  induction results with
  | nil => rfl
  | cons result rest ih =>
      simp only [List.map_cons, terminateRecordsets,
        terminateRecordset_ok result (room result (by simp)),
        ih fun other member => room other (by simp [member]), ok_bind]

theorem terminateRecordsets_error (results : List FilterResult)
    (below : ∀ result ∈ results, result.numFilteredRecords < 2 ^ 32)
    (full : ∃ result ∈ results, result.numFilteredRecords + 1 = 2 ^ 32) :
    terminateRecordsets (results.map some) = .error (.errExit "realloc") := by
  induction results with
  | nil => obtain ⟨result, member, _⟩ := full; cases member
  | cons result rest ih =>
      by_cases last : result.numFilteredRecords + 1 = 2 ^ 32
      · simp only [List.map_cons, terminateRecordsets, terminateRecordset_error result last,
          error_bind]
      · have room : result.numFilteredRecords + 1 < 2 ^ 32 := by
          have := below result (by simp)
          omega
        obtain ⟨other, member, wraps⟩ := full
        have later : other ∈ rest := by
          rcases List.mem_cons.mp member with rfl | later
          · exact absurd wraps last
          · exact later
        simp only [List.map_cons, terminateRecordsets, terminateRecordset_ok result room, ok_bind,
          ih (fun other member => below other (by simp [member])) ⟨other, later, wraps⟩,
          error_bind]

section Stage

variable (io : IoHandler) (branchset : List Branch) (trace : List Record)

private theorem initial_state :
    (branchset.map fun branch => (branch, some (FilterResult.mk 0 []))) =
      branchesAfter io.readGetRecordSize branchset [] := by
  simp [branchesAfter, Branch.resultAfter, Branch.acceptCount, Branch.pointers, savedRecords]

/-- While all records fit, the stage comes to setting the NULLs. -/
theorem readTrace_terminate (below : ∀ branch ∈ branchset, branch.acceptCount trace < 2 ^ 32) :
    readTrace true io branchset trace =
      terminateRecordsets ((branchset.map fun branch =>
        branch.resultAfter io.readGetRecordSize branchset trace).map some) >>= fun results =>
          .ok (dataAfter io.readGetRecordSize branchset trace, results) := by
  have run := filterTrace_ok io.readGetRecordSize branchset trace []
    (by simpa only [List.nil_append] using below)
  rw [List.nil_append, ← initial_state] at run
  change filterTrace _ trace ⟨0, []⟩ _ = _ at run
  have results : (branchesAfter io.readGetRecordSize branchset trace).map (fun branch => branch.2) =
      (branchset.map fun branch =>
        branch.resultAfter io.readGetRecordSize branchset trace).map some := by
    simp only [branchesAfter, List.map_map, Function.comp_def]
  simp only [readTrace, ↓reduceIte, run, ok_bind, results]

/-- What the filter stage computes while no branch's count, the NULL behind its
records included, reaches 2^32. -/
theorem readTrace_ok (room : ∀ branch ∈ branchset, branch.acceptCount trace + 1 < 2 ^ 32) :
    readTrace true io branchset trace =
      .ok (dataAfter io.readGetRecordSize branchset trace,
        branchset.map fun branch =>
          some (branch.filterResult io.readGetRecordSize branchset trace)) := by
  have below : ∀ branch ∈ branchset, branch.acceptCount trace < 2 ^ 32 :=
    fun branch member => Nat.lt_of_succ_lt (room branch member)
  rw [readTrace_terminate io branchset trace below, terminateRecordsets_ok]
  · simp only [ok_bind, List.map_map, Function.comp_def]
    rfl
  · intro result member
    obtain ⟨branch, inside, rfl⟩ := List.mem_map.mp member
    exact room branch inside

theorem readTrace_error (full : ∃ branch ∈ branchset, 2 ^ 32 ≤ branch.acceptCount trace + 1) :
    readTrace true io branchset trace = .error (.errExit "realloc") := by
  by_cases beyond : ∃ branch ∈ branchset, 2 ^ 32 ≤ branch.acceptCount trace
  · simp only [readTrace, ↓reduceIte]
    rw [initial_state io branchset]
    have run := filterTrace_error io.readGetRecordSize branchset trace []
      (by simp [Branch.acceptCount]) (by rwa [List.nil_append])
    change filterTrace _ trace ⟨0, []⟩ _ = _ at run
    rw [run, error_bind]
  · have below : ∀ branch ∈ branchset, branch.acceptCount trace < 2 ^ 32 := by
      intro branch member
      by_contra reached
      exact beyond ⟨branch, member, by omega⟩
    rw [readTrace_terminate io branchset trace below, terminateRecordsets_error, error_bind]
    · intro result member
      obtain ⟨branch, inside, rfl⟩ := List.mem_map.mp member
      exact below branch inside
    · obtain ⟨branch, member, reached⟩ := full
      refine ⟨_, List.mem_map.mpr ⟨branch, member, rfl⟩, ?_⟩
      have := below branch member
      change branch.acceptCount trace + 1 = 2 ^ 32
      omega

/-- A saved pointer leads to the copy of its record in the trace data. -/
theorem savedRecords_valid (recordSize : Nat) (entry : Record × RecordPtr)
    (member : entry ∈ savedRecords recordSize branchset trace) :
    (dataAfter recordSize branchset trace).recordset[entry.2.index]? = some entry.2.record ∧
      entry.2.record = copyRecord recordSize entry.1 := by
  obtain ⟨kept, inside, rfl⟩ := List.mem_map.mp member
  refine ⟨?_, rfl⟩
  rw [dataAfter, List.getElem?_map, List.mk_mem_zipIdx_iff_getElem?.mp inside]
  rfl

/-- No two saved records share a pointer. -/
theorem savedRecords_nodup (recordSize : Nat) :
    ((savedRecords recordSize branchset trace).map fun entry => entry.2.index).Nodup := by
  have indices : (savedRecords recordSize branchset trace).map (fun entry => entry.2.index) =
      List.range (trace.filter (keep branchset)).length := by
    simp only [savedRecords, List.map_map, Function.comp_def]
    rw [List.range_eq_range', ← List.zipIdx_map_snd 0]
  rw [indices]
  exact List.nodup_range

/-- The saved records are the accepted ones, in trace order. -/
theorem savedRecords_records (recordSize : Nat) :
    (savedRecords recordSize branchset trace).map (fun entry => entry.1) =
      trace.filter (keep branchset) := by
  simp only [savedRecords, List.map_map, Function.comp_def]
  exact List.zipIdx_map_fst 0 _

/-- A branch finds the saved copies of exactly the records it accepts, in trace order. -/
theorem pointers_records (recordSize : Nat) (branch : Branch) (member : branch ∈ branchset) :
    (branch.pointers (savedRecords recordSize branchset trace)).map RecordPtr.record =
      (trace.filter branch.accepts).map (copyRecord recordSize) := by
  have copies : ((savedRecords recordSize branchset trace).filter
      fun entry => branch.accepts entry.1).map (fun entry => entry.2.record) =
      ((savedRecords recordSize branchset trace).filter
        fun entry => branch.accepts entry.1).map (fun entry => copyRecord recordSize entry.1) := by
    apply List.map_congr_left
    intro entry inside
    exact (savedRecords_valid branchset trace recordSize entry (List.mem_filter.mp inside).1).2
  have records : ((savedRecords recordSize branchset trace).filter
      fun entry => branch.accepts entry.1).map (fun entry => entry.1) =
      (trace.filter (keep branchset)).filter branch.accepts := by
    rw [← savedRecords_records branchset trace recordSize, List.filter_map]
    rfl
  have narrower : (trace.filter (keep branchset)).filter branch.accepts =
      trace.filter branch.accepts := by
    rw [List.filter_filter]
    apply List.filter_congr
    intro record _
    cases decided : branch.accepts record with
    | false => rfl
    | true => exact List.any_eq_true.mpr ⟨branch, member, decided⟩
  rw [Branch.pointers, List.map_map, Function.comp_def, copies, ← narrower, ← records,
    List.map_map]
  rfl

theorem pointers_length (recordSize : Nat) (branch : Branch) (member : branch ∈ branchset) :
    (branch.pointers (savedRecords recordSize branchset trace)).length =
      branch.acceptCount trace := by
  have records := congrArg List.length (pointers_records branchset trace recordSize branch member)
  rwa [List.length_map, List.length_map] at records

theorem mem_pointers (recordSize : Nat) (branch : Branch) (member : branch ∈ branchset)
    (item : Record) : (∃ pointer ∈ branch.pointers (savedRecords recordSize branchset trace),
        pointer.record = item) ↔
      ∃ record ∈ trace, branch.accepts record = true ∧ copyRecord recordSize record = item := by
  rw [← List.mem_map, pointers_records branchset trace recordSize branch member]
  simp only [List.mem_map, List.mem_filter, and_assoc]

theorem filterResult_eq_of (recordSize : Nat) (branch : Branch) (member : branch ∈ branchset) :
    branch.filterResult recordSize branchset trace =
      FilterResult.of (branch.pointers (savedRecords recordSize branchset trace)) := by
  rw [Branch.filterResult, FilterResult.of, pointers_length branchset trace recordSize branch member]

theorem readTrace_run (room : ∀ branch ∈ branchset, branch.acceptCount trace + 1 < 2 ^ 32) :
    readTrace true io branchset trace =
      .ok (dataAfter io.readGetRecordSize branchset trace,
        branchset.map fun branch => some (FilterResult.of
          (branch.pointers (savedRecords io.readGetRecordSize branchset trace)))) := by
  have results : (branchset.map fun branch =>
      some (branch.filterResult io.readGetRecordSize branchset trace)) =
      branchset.map fun branch => some (FilterResult.of
        (branch.pointers (savedRecords io.readGetRecordSize branchset trace))) := by
    apply List.map_congr_left
    intro branch member
    rw [filterResult_eq_of branchset trace io.readGetRecordSize branch member]
  rw [readTrace_ok io branchset trace room, results]

/-- A trace that leaves room for the NULL is filtered to the end. -/
theorem readTrace_short (short : trace.length + 1 < 2 ^ 32) :
    readTrace true io branchset trace =
      .ok (dataAfter io.readGetRecordSize branchset trace,
        branchset.map fun branch => some (FilterResult.of
          (branch.pointers (savedRecords io.readGetRecordSize branchset trace)))) := by
  apply readTrace_run
  intro branch _
  have accepted := branch.acceptCount_le trace
  omega

/-- A finished filter stage left the described state, and no count was too large. -/
theorem readTrace_result (data : IoData) (results : List (Option FilterResult))
    (run : readTrace true io branchset trace = .ok (data, results)) :
    (∀ branch ∈ branchset, branch.acceptCount trace + 1 < 2 ^ 32) ∧
      data = dataAfter io.readGetRecordSize branchset trace ∧
      results = branchset.map fun branch => some (FilterResult.of
        (branch.pointers (savedRecords io.readGetRecordSize branchset trace))) := by
  by_cases room : ∀ branch ∈ branchset, branch.acceptCount trace + 1 < 2 ^ 32
  · rw [readTrace_run io branchset trace room, Except.ok.injEq, Prod.mk.injEq] at run
    exact ⟨room, run.1.symm, run.2.symm⟩
  · simp only [not_forall, Nat.not_lt] at room
    obtain ⟨branch, member, full⟩ := room
    rw [readTrace_error io branchset trace ⟨branch, member, full⟩] at run
    cases run

/-- What one pass over the trace should leave behind: a single copy of every
record that some branch accepts, and for each branch the pointers to the copies
of the records it accepts, counted and terminated by a NULL. -/
structure FilteredExactly (recordSize : Nat) (data : IoData)
    (results : List (Option FilterResult)) : Prop where
  recordset : data.recordset = (trace.filter (keep branchset)).map (copyRecord recordSize)
  numRecords : data.numRecords = data.recordset.length
  copies : ∀ entry ∈ savedRecords recordSize branchset trace,
    data.recordset[entry.2.index]? = some entry.2.record
  counts : results.map (Option.map FilterResult.numFilteredRecords) =
    branchset.map fun branch => some (branch.acceptCount trace)
  pointers : results.map (Option.map FilterResult.filteredRecordset) =
    branchset.map fun branch =>
      some ((branch.pointers (savedRecords recordSize branchset trace)).map some ++ [none])
  terminated : ∀ result, some result ∈ results →
    result.filteredRecordset.length = result.numFilteredRecords + 1 ∧
      result.filteredRecordset[result.numFilteredRecords]? = some none

theorem filterResult_terminated (recordSize : Nat) (branch : Branch)
    (member : branch ∈ branchset) :
    let result := branch.filterResult recordSize branchset trace
    result.filteredRecordset.length = result.numFilteredRecords + 1 ∧
      result.filteredRecordset[result.numFilteredRecords]? = some none := by
  have count := pointers_length branchset trace recordSize branch member
  simp only [Branch.filterResult]
  constructor
  · rw [List.length_append, List.length_map, count, List.length_singleton]
  · rw [← count, ← List.length_map some, List.getElem?_concat_length]

/-- Below 2^32 records the filter stage is exact if and only if no branch accepts
exactly 2^32 - 1 of them: the size of the array that takes the NULL is then zero. -/
theorem readTrace_exact_iff (short : trace.length < 2 ^ 32) :
    (∃ data results, readTrace true io branchset trace = .ok (data, results) ∧
        FilteredExactly branchset trace io.readGetRecordSize data results) ↔
      ∀ branch ∈ branchset, branch.acceptCount trace ≠ 2 ^ 32 - 1 := by
  constructor
  · rintro ⟨data, results, run, -⟩ branch member last
    rw [readTrace_error io branchset trace ⟨branch, member, by omega⟩] at run
    cases run
  · intro free
    have room : ∀ branch ∈ branchset, branch.acceptCount trace + 1 < 2 ^ 32 := by
      intro branch member
      have := free branch member
      have := branch.acceptCount_le trace
      omega
    refine ⟨_, _, readTrace_ok io branchset trace room, rfl, ?_, ?_, ?_, ?_, ?_⟩
    · rw [dataAfter, List.length_map]
    · intro entry member
      exact (savedRecords_valid branchset trace io.readGetRecordSize entry member).1
    · rw [List.map_map]
      rfl
    · rw [List.map_map]
      rfl
    · intro result member
      obtain ⟨branch, inside, same⟩ := List.mem_map.mp member
      cases same
      exact filterResult_terminated branchset trace io.readGetRecordSize branch inside

end Stage

/-- A branch whose only filter clause has no terms, so that it takes every record. -/
def Branch.unfiltered : Branch := ⟨[[]], [], [], []⟩

theorem unfiltered_acceptCount (trace : List Record) :
    Branch.unfiltered.acceptCount trace = trace.length := by
  rw [Branch.acceptCount, List.filter_eq_self.mpr]
  intro record _
  rfl

/-- An io handler for records of no bytes and no timestamps. -/
def IoHandler.empty : IoHandler := ⟨0, fun _ => 0#64, fun _ => 0#64⟩

/-- Records without timestamps. -/
def IoHandler.untimed (size : Nat) : IoHandler := ⟨size, fun _ => 0#64, fun _ => 0#64⟩

def Record.ofBytes (bytes : List (BitVec 8)) : Record := fun index => bytes.getD index 0#8

/-- Filters for the flows of protocol 6, and for those from 1 or of more than 100 octets. -/
def Branch.ofProtocol : Branch := ⟨[[⟨4, 6#64, 0#64, .eq, .w8⟩]], [], [], []⟩

def Branch.fromOne : Branch :=
  ⟨[[⟨0, 1#64, 0#64, .eq, .w8⟩], [⟨2, 100#64, 0#64, .gt, .w8⟩]], [], [], []⟩

/-- One flow for both branches, one for each of them alone, and one for none. -/
def fourFlows : List Record :=
  [Record.ofBytes [1#8, 2#8, 60#8, 0#8, 6#8], Record.ofBytes [3#8, 2#8, 200#8, 0#8, 17#8],
    Record.ofBytes [3#8, 2#8, 9#8, 0#8, 17#8], Record.ofBytes [2#8, 1#8, 50#8, 0#8, 6#8]]

theorem readTrace_exact_shared : ∃ data results,
    readTrace true (IoHandler.untimed 5) [Branch.ofProtocol, Branch.fromOne] fourFlows =
        .ok (data, results) ∧
      FilteredExactly [Branch.ofProtocol, Branch.fromOne] fourFlows 5 data results ∧
      data.numRecords = 3 ∧
      results.map (Option.map FilterResult.numFilteredRecords) = [some 2, some 2] := by
  have free : ∀ branch ∈ [Branch.ofProtocol, Branch.fromOne],
      branch.acceptCount fourFlows ≠ 2 ^ 32 - 1 := by
    decide
  obtain ⟨data, results, run, exact⟩ := (readTrace_exact_iff (IoHandler.untimed 5)
    [Branch.ofProtocol, Branch.fromOne] fourFlows (by decide)).mpr free
  refine ⟨data, results, run, exact, ?_, exact.counts⟩
  rw [exact.numRecords, exact.recordset, List.length_map]
  rfl

/-- A branch that takes all of 2^32 - 1 records cannot be given its NULL. -/
theorem readTrace_not_exact :
    ¬ ∀ (io : IoHandler) (branchset : List Branch) (trace : List Record),
      trace.length < 2 ^ 32 → ∃ data results, readTrace true io branchset trace =
          .ok (data, results) ∧
        FilteredExactly branchset trace io.readGetRecordSize data results := by
  intro exact
  let trace : List Record := List.replicate (2 ^ 32 - 1) fun _ => 0#8
  have length : trace.length = 2 ^ 32 - 1 := List.length_replicate
  have short : trace.length < 2 ^ 32 := by omega
  obtain ⟨data, results, run, -⟩ := exact IoHandler.empty [Branch.unfiltered] trace short
  rw [readTrace_error IoHandler.empty [Branch.unfiltered] trace
    ⟨_, List.mem_singleton_self _, by rw [unfiltered_acceptCount]; omega⟩] at run
  cases run

end Nfql
