import Nfql.EmitStages
import Nfql.MemberFiles

set_option autoImplicit false

/- Writing files does not change what the stages compute. -/
namespace Nfql.Emit

open Emissions Outcomes
open Output (Growing memberFile)

theorem map_ok {ε α β : Type} (f : α → β) (value : α) :
    (Except.ok value : Except ε α).map f = .ok (f value) := rfl

section Filter

variable (options : OutputOptions) (recordSize : Nat)

theorem filterBranch_result (record : Record) (branchId : Nat) (pass : Pass) (branch : Branch)
    (filterResult : Option FilterResult) :
    (filterBranch options recordSize record branchId pass branch filterResult).result =
      Nfql.filterBranch recordSize record pass branch filterResult := by
  unfold filterBranch
  cases run : Nfql.filterBranch recordSize record pass branch filterResult with
  | error fault => simp only [Emitted.bind_result, Emitted.of_result, error_bind]
  | ok filtered =>
      simp only [Emitted.bind_result, Emitted.of_result, ok_bind]
      split <;> simp

theorem filterRecord_result (record : Record) (branchId : Nat) (pass : Pass)
    (branches : List (Branch × Option FilterResult)) :
    (filterRecord options recordSize record branchId pass branches).result =
      Nfql.filterRecord recordSize record pass branches := by
  induction branches generalizing branchId pass with
  | nil => rfl
  | cons entry rest ih =>
      simp only [filterRecord, Nfql.filterRecord, Emitted.bind_result, filterBranch_result, ih,
        Emitted.pure_result]

/-- A record passes the branches in their order. -/
theorem filterRecord_branches (record : Record) (pass : Pass)
    (branches later : List (Branch × Option FilterResult)) (data : IoData)
    (success : Nfql.filterRecord recordSize record pass branches = .ok (data, later)) :
    later.map Prod.fst = branches.map Prod.fst := by
  induction branches generalizing pass later data with
  | nil => cases success; rfl
  | cons entry rest ih =>
      obtain ⟨filtered, -, success⟩ := bind_eq_ok success
      obtain ⟨⟨data, passed⟩, run, success⟩ := bind_eq_ok success
      cases success
      rw [List.map_cons, List.map_cons, ih filtered.1 passed data run]

theorem filterTrace_result (trace : List Record) (data : IoData)
    (branches : List (Branch × Option FilterResult)) :
    (filterTrace options recordSize trace data branches).result =
      Nfql.filterTrace recordSize trace data branches := by
  induction trace generalizing data branches with
  | nil => rfl
  | cons record rest ih =>
      simp only [filterTrace, Nfql.filterTrace, Emitted.bind_result, filterRecord_result, ih]

/-- `filter_result` is dereferenced to create the file of the filtered records. -/
theorem createFiltered_result (filterEnabled : Bool) (branchId : Nat) :
    (createFiltered options filterEnabled branchId).result =
      if options.verboseV && options.file && !filterEnabled then .error .nullPointer
      else .ok () := by
  rw [createFiltered, Emitted.bind_result, create_result, ok_bind]
  split <;> rfl

/-- Where the filter stage is on, or no file of filtered records is asked for, writing
files does not change what `read_trace` computes. -/
theorem readTrace_result (filterEnabled : Bool) (io : IoHandler) (branchset : List Branch)
    (trace : List Record)
    (created : branchset = [] ∨ (options.verboseV && options.file && !filterEnabled) = false) :
    (readTrace options filterEnabled io branchset trace).result =
      Nfql.readTrace filterEnabled io branchset trace := by
  have streams : ((List.range branchset.length).forM
      (createFiltered options filterEnabled)).result = .ok () := by
    refine Emitted.forM_result _ fun branchId member => ?_
    rcases created with none | created
    · rw [none] at member
      cases member
    · rw [createFiltered_result, created, if_neg Bool.false_ne_true]
  have closed : ((List.range branchset.length).forM fun branchId =>
      options.close options.verboseV (.filteredRecords branchId)).result = .ok () :=
    Emitted.forM_result _ fun branchId _ => close_result options _ _
  rw [readTrace, Nfql.readTrace]
  dsimp only
  rw [Emitted.bind_result, streams, ok_bind, Emitted.bind_result, filterTrace_result]
  refine bind_congr fun filtered => ?_
  rw [Emitted.bind_result, closed, ok_bind]
  cases filterEnabled with
  | false => rfl
  | true => simp only [↓reduceIte, Emitted.bind_result, Emitted.of_result, Emitted.pure_result]

/-- Otherwise it crashes on the first branch. -/
theorem readTrace_crash (io : IoHandler) (branchset : List Branch) (trace : List Record)
    (some_branch : branchset ≠ []) (asked : (options.verboseV && options.file) = true) :
    readTrace options false io branchset trace =
      ⟨[.create (.filteredRecords 0)], .error .nullPointer⟩ := by
  obtain ⟨count, length⟩ :=
    Nat.exists_eq_succ_of_ne_zero fun none => some_branch (List.eq_nil_of_length_eq_zero none)
  have first : createFiltered options false 0 =
      ⟨[.create (.filteredRecords 0)], .error .nullPointer⟩ := by
    simp only [createFiltered, OutputOptions.create, OutputOptions.emit, asked, ↓reduceIte,
      Bool.not_false, Bool.and_self]
    rfl
  rw [readTrace, length, Nat.succ_eq_add_one, List.range_succ_eq_map]
  show (createFiltered options false 0 >>= _) >>= _ = _
  rw [first]
  rfl

end Filter

section Grouper

variable (options : OutputOptions) (libc : Libc) (funcs : GrouperFuncs) (io : IoHandler)
  (groupaggregationsEnabled : Bool) (branch : Branch) (branchId : Nat)

/-- The run that logs its operations leaves the files of the run that alters them. -/
theorem growGroup_writes (clause : List GrouperTerm) (recordset : List (Option RecordPtr))
    (lastItem : Nat) (file : StageFile) (currentItem : Nat) (group : Growing) (files : Files) :
    Output.growGroup options funcs io clause recordset lastItem file currentItem group files =
      (options.outcome (growGroup options funcs io clause recordset lastItem (.grouper file)
        currentItem group) files).map fun done => (done.1.1.val, done.1.2, done.2) := by
  fun_induction Output.growGroup options funcs io clause recordset lastItem file currentItem group
      files with
  | case1 group files =>
      rw [growGroup, if_pos rfl, outcome_pure]
      rfl
  | case2 currentItem group files more outside =>
      rw [growGroup, if_neg more]
      split <;> rename_i found <;> rw [outside] at found <;> cases found
      rfl
  | case3 currentItem group files more sentinel =>
      rw [growGroup, if_neg more]
      split <;> rename_i found <;> rw [sentinel] at found <;> cases found
      rfl
  | case4 currentItem group files more item inside stopped =>
      rw [growGroup, if_neg more]
      split <;> rename_i found <;> rw [inside] at found <;> cases found
      rw [if_pos stopped, outcome_pure]
      rfl
  | case5 currentItem group files more item inside complete ih =>
      rw [growGroup, if_neg more]
      split <;> rename_i found <;> rw [inside] at found <;> cases found
      rw [if_neg complete, ih, outcome_bind, outcome_write, ok_bind, outcome_bind]
      cases options.outcome (growGroup options funcs io clause recordset lastItem (.grouper file)
        (currentItem + 1) (group.add io item)) (options.writeRecord options.verboseVv file
          item.record files) with
      | error fault => rfl
      | ok done =>
          rw [ok_bind, outcome_pure]
          rfl

theorem grown_outcome (clause : List GrouperTerm) (recordset : List (Option RecordPtr))
    (lastItem : Nat) {file : StageFile} {currentItem : Nat} {group : Growing} {files : Files}
    {reached : Nat} {grown : Growing} {files' : Files}
    (wrote : Output.growGroup options funcs io clause recordset lastItem file currentItem group
      files = .ok (reached, grown, files')) :
    ∃ forward, options.outcome (growGroup options funcs io clause recordset lastItem
      (.grouper file) currentItem group) files = .ok ((⟨reached, forward⟩, grown), files') := by
  rw [growGroup_writes] at wrote
  cases ran : options.outcome (growGroup options funcs io clause recordset lastItem
    (.grouper file) currentItem group) files with
  | error fault => rw [ran] at wrote; cases wrote
  | ok done =>
      rw [ran] at wrote
      cases wrote
      exact ⟨done.1.1.property, rfl⟩

/-- What is left in memory, with what is left in the files. -/
def produced (done : Left × Files) : Output.Produced :=
  ⟨done.1.gresult, done.1.sortedRecordset, done.2⟩

section Scan

variable (clause : List GrouperTerm) (recordset : List (Option RecordPtr)) (lastItem : Nat)
  (cook : List RecordPtr → Span → Except Fault Group)

theorem scanGroups_writes (currentItem : Nat) (before : Output.Produced) :
    Output.scanGroups options funcs io branchId clause recordset lastItem cook currentItem before =
      (options.outcome (scanGroups options funcs io branchId clause recordset lastItem cook
        currentItem ⟨before.gresult, before.sortedRecordset⟩) before.files).map produced := by
  fun_induction Output.scanGroups options funcs io branchId clause recordset lastItem cook
      currentItem before with
  | case1 currentItem before outside =>
      rw [scanGroups]
      split <;> rename_i found <;> rw [outside] at found <;> cases found
      rfl
  | case2 currentItem before sentinel =>
      rw [scanGroups]
      split <;> rename_i found <;> rw [sentinel] at found <;> cases found
      rw [outcome_pure]
      rfl
  | case3 currentItem before item inside numGroups fault full =>
      rw [scanGroups]
      split <;> rename_i found <;> rw [inside] at found <;> cases found
      rw [outcome_bind, outcome_of, full]
      rfl
  | case4 currentItem before item inside numGroups room file fault failed =>
      rw [scanGroups]
      split <;> rename_i found <;> rw [inside] at found <;> cases found
      rw [growGroup_writes] at failed
      rw [outcome_bind, outcome_of, room, ok_bind, ok_bind, outcome_bind, outcome_create, ok_bind,
        outcome_bind]
      cases ran : options.outcome (growGroup options funcs io clause recordset lastItem
        (.grouper file) currentItem (Growing.start io [item] item))
        (options.writeInit options.verboseVv file before.files) with
      | ok done => rw [ran] at failed; cases failed
      | error fault => rw [ran] at failed; cases failed; rfl
  | case5 currentItem before item inside numGroups room file reached grown files wrote fault
        failed =>
      rw [scanGroups]
      split <;> rename_i found <;> rw [inside] at found <;> cases found
      obtain ⟨forward, ran⟩ := grown_outcome options funcs io clause recordset lastItem wrote
      rw [outcome_bind, outcome_of, room, ok_bind, ok_bind, outcome_bind, outcome_create, ok_bind,
        outcome_bind, ran, ok_bind, outcome_bind, outcome_close, ok_bind, outcome_bind, outcome_of,
        failed]
      rfl
  | case6 currentItem before item inside numGroups room file reached grown files wrote group
        cooked ih =>
      rw [scanGroups]
      split <;> rename_i found <;> rw [inside] at found <;> cases found
      obtain ⟨forward, ran⟩ := grown_outcome options funcs io clause recordset lastItem wrote
      rw [outcome_bind, outcome_of, room, ok_bind, ok_bind, outcome_bind, outcome_create, ok_bind,
        outcome_bind, ran, ok_bind, outcome_bind, outcome_close, ok_bind, outcome_bind, outcome_of,
        cooked, ok_bind, ok_bind, outcome_bind, outcome_write, ok_bind, ih]

end Scan

theorem outcome_writeRecords (file : StageFile) (records : List RecordPtr) (files : Files) :
    options.outcome (records.forM fun item => options.write true (.grouper file) item.record)
        files = .ok ((), options.writeRecords true file records files) := by
  induction records generalizing files with
  | nil => exact outcome_pure options files ()
  | cons item rest ih =>
      rw [List.forM_eq_forM, List.forM_cons, outcome_bind, outcome_write, ok_bind,
        ← List.forM_eq_forM, ih]
      rfl

theorem saveSorted_writes (sorted : List RecordPtr) (before : Output.Produced) :
    Output.saveSorted options branchId sorted before =
      (options.outcome (saveSorted options branchId sorted
        ⟨before.gresult, before.sortedRecordset⟩) before.files).map produced := by
  rw [Output.saveSorted, saveSorted]
  split
  · rw [outcome_bind, outcome_create, ok_bind, outcome_bind, outcome_of]
    cases intLoop sorted.length with
    | error fault => rfl
    | ok done =>
        simp only [ok_bind, outcome_bind, outcome_writeRecords, outcome_close, outcome_pure]
        rfl
  · rw [outcome_pure]
    rfl

variable (numFilteredRecords : Nat)

theorem getGrouperIntermediates_writes (recordset : List (Option RecordPtr))
    (clause : List GrouperTerm) (before : Output.Produced) :
    Output.getGrouperIntermediates options libc funcs branchId numFilteredRecords recordset clause
        before =
      (options.outcome (getGrouperIntermediates options libc funcs branchId numFilteredRecords
        recordset clause ⟨before.gresult, before.sortedRecordset⟩) before.files).map
        fun done => (done.1.1, produced (done.1.2, done.2)) := by
  rw [Output.getGrouperIntermediates, getGrouperIntermediates, outcome_bind, outcome_of]
  cases readItems numFilteredRecords recordset with
  | error fault => rfl
  | ok items =>
      simp only [ok_bind, saveSorted_writes, outcome_bind]
      cases options.outcome (saveSorted options branchId (libc.qsortR.run (qsortComp funcs clause)
        items) ⟨before.gresult, before.sortedRecordset⟩) before.files with
      | error fault => rfl
      | ok done =>
          rw [map_ok, ok_bind, ok_bind]
          split
          · rw [outcome_pure]
            rfl
          · rfl

theorem groupClauses_writes (clauses : List (List GrouperTerm))
    (recordset : List (Option RecordPtr)) (before : Output.Produced) :
    Output.groupClauses options libc funcs io groupaggregationsEnabled branch branchId
        numFilteredRecords clauses recordset before =
      (options.outcome (groupClauses options libc funcs io groupaggregationsEnabled branch branchId
        numFilteredRecords clauses recordset ⟨before.gresult, before.sortedRecordset⟩)
        before.files).map produced := by
  induction clauses generalizing recordset before with
  | nil =>
      rw [groupClauses, outcome_pure]
      rfl
  | cons clause rest ih =>
      rw [Output.groupClauses, groupClauses, getGrouperIntermediates_writes, outcome_bind]
      cases options.outcome (getGrouperIntermediates options libc funcs branchId numFilteredRecords
        recordset clause ⟨before.gresult, before.sortedRecordset⟩) before.files with
      | error fault => rfl
      | ok done =>
          obtain ⟨⟨sorted, left⟩, files⟩ := done
          simp only [map_ok, ok_bind, outcome_bind, scanGroups_writes, produced]
          cases options.outcome (scanGroups options funcs io branchId clause sorted
            (numFilteredRecords - 1) (cookGroup libc groupaggregationsEnabled branch) 0 left)
            files with
          | error fault => rfl
          | ok later =>
              rw [map_ok, ok_bind, ok_bind]
              exact ih sorted (produced later)

theorem clubRecords_writes (recordset : List (Option RecordPtr)) (files : Files) :
    Output.clubRecords options libc io groupaggregationsEnabled branch branchId numFilteredRecords
        recordset files =
      (options.outcome (clubRecords options libc io groupaggregationsEnabled branch branchId
        numFilteredRecords recordset) files).map produced := by
  rw [Output.clubRecords, clubRecords, outcome_bind, outcome_of]
  cases readItems numFilteredRecords recordset with
  | error fault => rfl
  | ok members =>
      simp only [ok_bind]
      cases members with
      | nil => rfl
      | cons first rest =>
          simp only [outcome_bind, outcome_of]
          cases intLoop (first :: rest).length with
          | error fault => rfl
          | ok done =>
              simp only [ok_bind]
              cases cookGroup libc groupaggregationsEnabled branch
                  ((first :: rest).foldl (Growing.add io) (Growing.start io [] first)).members
                  ((first :: rest).foldl (Growing.add io)
                    (Growing.start io [] first)).groupAggrRecord with
              | error fault => rfl
              | ok group =>
                  simp only [ok_bind, outcome_write, outcome_create, outcome_close, outcome_pure]
                  rfl

theorem grouper_writes (fresult : FilterResult) (files : Files) :
    Output.grouper options libc funcs io groupaggregationsEnabled branch branchId fresult files =
      (options.outcome (grouper options libc funcs io groupaggregationsEnabled branch branchId
        fresult) files).map produced := by
  rw [Output.grouper, grouper]
  split
  · rw [outcome_bind, outcome_create, ok_bind, outcome_bind, groupRecords]
    cases clauses : branch.grouperClauseset with
    | nil =>
        simp only [List.isEmpty_nil, ↓reduceIte, clubRecords_writes]
        cases options.outcome (clubRecords options libc io groupaggregationsEnabled branch branchId
          fresult.numFilteredRecords fresult.filteredRecordset)
          (options.writeInit options.verboseV (.groups branchId) files) with
        | error fault => rfl
        | ok left => simp only [ok_bind, outcome_bind, outcome_close, outcome_pure]
    | cons clause rest =>
        simp only [List.isEmpty_cons, Bool.false_eq_true, ↓reduceIte, groupClauses_writes]
        cases options.outcome (groupClauses options libc funcs io groupaggregationsEnabled branch
          branchId fresult.numFilteredRecords (clause :: rest) fresult.filteredRecordset
          ⟨⟨0, []⟩, []⟩) (options.writeInit options.verboseV (.groups branchId) files) with
        | error fault => rfl
        | ok left => simp only [ok_bind, outcome_bind, outcome_close, outcome_pure]
  · rw [outcome_pure]
    rfl

/-- Without its files the grouper is the plain one. -/
theorem grouper_result (fresult : FilterResult)
    (inside : branch.grouperClauseset ≠ [] → options.verboseVv = true →
      fresult.numFilteredRecords ≤ intMax) :
    Left.gresult <$> (grouper options libc funcs io groupaggregationsEnabled branch branchId
        fresult).result =
      Nfql.grouper libc funcs io groupaggregationsEnabled branch fresult := by
  have alike := Output.grouper_alike options libc funcs io groupaggregationsEnabled branch branchId
    fresult (fun _ => none) inside
  rw [grouper_writes, OutputOptions.outcome] at alike
  cases run : (grouper options libc funcs io groupaggregationsEnabled branch branchId
    fresult).result with
  | error fault =>
      rw [run] at alike
      exact alike.of_error.symm
  | ok left =>
      rw [run] at alike
      obtain ⟨gresult, plain, leaves⟩ := alike.of_ok
      rw [plain, ← leaves.gresult]
      rfl

end Grouper

section Branches

variable (options : OutputOptions) (branch : Branch) (branchId : Nat)

theorem filterGroups_result (groups : List Group) (gfilterResult : GroupfilterResult) :
    (filterGroups options branch branchId groups gfilterResult).result =
      Nfql.filterGroups branch groups gfilterResult := by
  induction groups generalizing gfilterResult with
  | nil => rfl
  | cons group rest ih =>
      rw [filterGroups, Nfql.filterGroups]
      split
      · simp only [Emitted.bind_result, Emitted.of_result, write_result, ok_bind, ih]
      · exact ih gfilterResult

theorem groupfilter_result (gresult : GrouperResult) :
    (groupfilter options branch branchId gresult).result = Nfql.groupfilter branch gresult := by
  simp only [groupfilter, Nfql.groupfilter, Emitted.bind_result, create_result, ok_bind,
    filterGroups_result]
  refine bind_congr fun gfilterResult => ?_
  split
  · rfl
  · simp only [Emitted.bind_result, Emitted.of_result, close_result, ok_bind, Emitted.pure_result]

/-- What the thread leaves, without the sorted records. -/
def BranchLeft.plain (left : BranchLeft) : BranchResult :=
  ⟨left.grouperLeft.map Left.gresult, left.gfilterResult⟩

variable (libc : Libc) (io : IoHandler) (stages : Stages)

/-- Writing files does not change what a branch's thread computes. -/
theorem branchStart_result (filterResult : Option FilterResult)
    (inside : ∀ fresult, filterResult = some fresult → stages.grouperEnabled = true →
      branch.grouperClauseset ≠ [] → options.verboseVv = true →
        fresult.numFilteredRecords ≤ intMax) :
    BranchLeft.plain <$>
        (branchStart options branch branchId libc io stages filterResult).result =
      Nfql.branchStart libc io stages branch filterResult := by
  have grouped : Option.map Left.gresult <$>
      (branchGrouper options branch branchId libc io stages filterResult).result =
        Nfql.branchGrouper libc io stages branch filterResult := by
    unfold branchGrouper Nfql.branchGrouper
    split
    · rename_i grouping
      cases filterResult with
      | none => rfl
      | some fresult =>
          have run := grouper_result options libc GrouperFuncs.generated io
            stages.groupaggregationsEnabled branch branchId fresult (inside fresult rfl grouping)
          simp only [Emitted.bind_result, Emitted.pure_result, ← run]
          cases (grouper options libc GrouperFuncs.generated io stages.groupaggregationsEnabled
            branch branchId fresult).result <;> rfl
    · rfl
  rw [Nfql.branchStart, ← grouped, branchStart, Emitted.bind_result]
  cases (branchGrouper options branch branchId libc io stages filterResult).result with
  | error fault => rfl
  | ok grouperLeft =>
      have filtered : (branchGroupfilter options branch branchId stages grouperLeft).result =
          Nfql.branchGroupfilter stages branch (grouperLeft.map Left.gresult) := by
        unfold branchGroupfilter Nfql.branchGroupfilter
        split
        · cases grouperLeft with
          | none => rfl
          | some left =>
              simp only [Emitted.bind_result, groupfilter_result, Emitted.pure_result,
                Option.map_some]
        · rfl
      rw [ok_bind, Emitted.bind_result, filtered]
      show _ <$> (_ >>= _) = (Nfql.branchGroupfilter stages branch _ >>= _)
      cases Nfql.branchGroupfilter stages branch (grouperLeft.map Left.gresult) <;> rfl

/-- A thread that succeeds has not met more records than an `int` counts. -/
theorem branchStart_success (filterResult : Option FilterResult) (left : BranchLeft)
    (success : (branchStart options branch branchId libc io stages filterResult).result = .ok left) :
    Nfql.branchStart libc io stages branch filterResult = .ok left.plain := by
  rw [← branchStart_result options branch branchId libc io stages filterResult, success]
  · rfl
  · rintro fresult rfl grouping given set
    rw [branchStart, Emitted.bind_result] at success
    obtain ⟨grouperLeft, grouped, -⟩ := bind_eq_ok success
    rw [branchGrouper, if_pos grouping, Emitted.bind_result] at grouped
    obtain ⟨left, run, -⟩ := bind_eq_ok grouped
    have written := grouper_writes options libc GrouperFuncs.generated io
      stages.groupaggregationsEnabled branch branchId fresult fun _ => none
    rw [OutputOptions.outcome, run] at written
    exact Output.grouper_inside options libc GrouperFuncs.generated io
      stages.groupaggregationsEnabled branch branchId fresult _ _ written given set

end Branches

end Nfql.Emit
