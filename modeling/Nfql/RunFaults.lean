import Nfql.EngineStages
import Nfql.Refusals

set_option autoImplicit false

/- Where a run dereferences NULL. -/
namespace Nfql.Emit

open Emissions Interleavings OutputStreams Outcomes

section Thread

variable (options : OutputOptions) (branch : Branch) (branchId : Nat) (libc : Libc)
  (io : IoHandler) (stages : Stages)

/-- The loop that writes the sorted records counts with an `int`. -/
theorem grouper_overflow (funcs : GrouperFuncs) (groupaggregationsEnabled : Bool)
    (records : List RecordPtr) (clauses : branch.grouperClauseset ≠ [])
    (set : options.verboseVv = true) (long : intMax < records.length) :
    (grouper options libc funcs io groupaggregationsEnabled branch branchId
      (FilterResult.of records)).result = .error .intOverflow := by
  obtain ⟨clause, rest, given⟩ := List.exists_cons_of_ne_nil clauses
  have positive : 0 < (FilterResult.of records).numFilteredRecords := Nat.zero_lt_of_lt long
  have sorted (items : List RecordPtr) (many : intMax < items.length) (left : Left) :
      (saveSorted options branchId items left).result = .error .intOverflow := by
    rw [saveSorted, if_pos set, Emitted.bind_result, create_result, ok_bind, Emitted.bind_result,
      Emitted.of_result, intLoop, if_pos many]
    rfl
  have items : readItems (FilterResult.of records).numFilteredRecords
      (FilterResult.of records).filteredRecordset = .ok records := readItems_ok records [none]
  have many : intMax < (libc.qsortR.run (qsortComp funcs clause) records).length := by
    rwa [(libc.qsortR.perm _ records).length_eq]
  rw [grouper, if_pos positive, Emitted.bind_result, create_result, ok_bind, Emitted.bind_result,
    groupRecords, given, if_neg (by simp), groupClauses, Emitted.bind_result,
    getGrouperIntermediates, Emitted.bind_result, Emitted.of_result, items, ok_bind,
    Emitted.bind_result, sorted _ many]
  rfl

/-- Writing files adds no NULL pointer to a branch's thread. -/
theorem thread_nullFree (chained : stages.Chained) (filterResult : Option FilterResult)
    (supplied : stages.Supplies filterResult) :
    NullFree (branchStart options branch branchId libc io stages filterResult).result := by
  by_cases inside : ∀ fresult, filterResult = some fresult → stages.grouperEnabled = true →
      branch.grouperClauseset ≠ [] → options.verboseVv = true →
        fresult.numFilteredRecords ≤ intMax
  · have plain := branchStart_result options branch branchId libc io stages filterResult inside
    have free := branchStart_nullFree libc io stages chained branch filterResult supplied
    rintro fault rfl failed
    rw [failed] at plain
    exact free _ rfl plain.symm
  · simp only [not_forall, Nat.not_le] at inside
    obtain ⟨fresult, rfl, grouping, clauses, set, long⟩ := inside
    obtain ⟨records, same⟩ := supplied grouping
    cases same
    rw [branchStart, Emitted.bind_result, branchGrouper, if_pos grouping]
    rw [Emitted.bind_result, grouper_overflow options branch branchId libc io _ _ records clauses set
      long]
    exact error_nullFree (by decide)

end Thread

section Run

variable {options : OutputOptions} {libc : Libc} {io : IoHandler} {stages : Stages}
  {fquery : Flowquery} {trace : List Record} {ops : List (StreamOp ResultFile Record)}
  {ended : Except Fault EngineLeft}

/-- To open the file of the filtered records, the filter's result is read. -/
theorem run_crashes (some_branch : fquery.branchset ≠ []) (disabled : stages.filterEnabled = false)
    (verbose : options.verboseV = true) (directory : options.file = true)
    (run : Run options libc io stages fquery trace ops ended) : ended = .error .nullPointer := by
  have crashed := readTrace_crash options io fquery.branchset trace some_branch
    (by rw [verbose, directory]; rfl)
  rw [← disabled] at crashed
  cases run with
  | unread fault read =>
      rw [crashed] at read
      cases read
      rfl
  | failed data filterResults schedule rest branchId fault read =>
      rw [crashed] at read
      cases read
  | finished data filterResults schedule branchLefts read =>
      rw [crashed] at read
      cases read

/-- Any other run reads the trace as the plain engine does. -/
theorem readTrace_plain (safe : ¬(fquery.branchset ≠ [] ∧ stages.filterEnabled = false ∧
      options.verboseV = true ∧ options.file = true)) :
    (readTrace options stages.filterEnabled io fquery.branchset trace).result =
      Nfql.readTrace stages.filterEnabled io fquery.branchset trace := by
  refine readTrace_result options stages.filterEnabled io fquery.branchset trace ?_
  by_contra created
  rw [not_or, Bool.not_eq_false, Bool.and_eq_true, Bool.not_eq_true', Bool.and_eq_true] at created
  exact safe ⟨created.1, created.2.2, created.2.1⟩

theorem threads_nullFree (chained : stages.Chained) (data : IoData)
    (filterResults : List (Option FilterResult))
    (read : Nfql.readTrace stages.filterEnabled io fquery.branchset trace =
      .ok (data, filterResults)) (branchId : Nat) :
    NullFree (thread options libc io stages fquery.branchset filterResults branchId).result := by
  have supplied := readTrace_supplies io stages fquery trace chained data filterResults read
  rw [thread]
  cases found : (fquery.branchset.zip filterResults)[branchId]? with
  | none => exact passes_ok none
  | some entry =>
      have free := thread_nullFree options entry.1 branchId libc io stages chained entry.2
        (supplied _ (List.of_mem_zip (List.mem_of_getElem? found)).2)
      rw [branchThread_some, ← bind_pure_comp]
      exact free.bind fun _ _ => passes_ok _

variable (chained : stages.Chained)
  (off : stages.filterEnabled = false → ∀ branch ∈ fquery.branchset, branch.filterClauseset = [])
  (sets : stages.mergerEnabled = true → stages.groupaggregationsEnabled = true ∨
    ∀ clause ∈ fquery.mergerClauseset, ∀ term ∈ clause, term.op ≠ MergerOp.isIn)

include chained off sets

/-- Where enabled stages depend on enabled stages only, a run dereferences NULL exactly if
the filtered records of some branch are to be written though there is no filter. -/
theorem run_null_iff (run : Run options libc io stages fquery trace ops ended) :
    ended = .error .nullPointer ↔ fquery.branchset ≠ [] ∧ stages.filterEnabled = false ∧
      options.verboseV = true ∧ options.file = true := by
  by_cases crash : fquery.branchset ≠ [] ∧ stages.filterEnabled = false ∧
      options.verboseV = true ∧ options.file = true
  · obtain ⟨some_branch, disabled, verbose, directory⟩ := crash
    exact iff_of_true (run_crashes some_branch disabled verbose directory run)
      ⟨some_branch, disabled, verbose, directory⟩
  · refine iff_of_false ?_ crash
    have reading : (readTrace options stages.filterEnabled io fquery.branchset trace).result =
        Nfql.readTrace stages.filterEnabled io fquery.branchset trace := readTrace_plain crash
    intro failed
    cases run with
    | unread fault read =>
        cases failed
        rw [reading] at read
        exact readTrace_nullFree io fquery.branchset trace off _ rfl read
    | failed data filterResults schedule rest branchId fault read _ _ failure =>
        cases failed
        rw [reading] at read
        exact threads_nullFree chained data filterResults read branchId _ rfl failure
    | finished data filterResults schedule branchLefts read _ lefts =>
        -- the other stages are those of the plain engine
        rw [reading] at read
        have free : NullFree (engine libc io stages fquery trace) :=
          engine_nullFree chained off sets
        refine free _ rfl ?_
        rw [engine_joined options data filterResults branchLefts read
          (threads_plain filterResults branchLefts lefts)]
        cases ended : (joined options stages fquery branchLefts).result with
        | ok results =>
            rw [ended] at failed
            cases failed
        | error fault =>
            rw [ended] at failed
            cases failed
            rfl

end Run

end Nfql.Emit
