import Nfql.EmitMerges
import Nfql.StreamProtocol

set_option autoImplicit false

/- What each stage puts into its files. -/
namespace Nfql.Emit

open Emissions OutputStreams Odometer

section Operations

variable (options : OutputOptions) {asked : Bool} {file : ResultFile}
  {before : Option (List Record)}

theorem fills_create (set : (asked && options.file) = true) :
    Fills file before (options.create asked file) fun _ held => held = some [] := by
  intro _ _
  rw [OutputOptions.create, OutputOptions.emit, if_pos set]
  exact Function.update_self file (some []) fun _ => before

theorem fills_write (set : (asked && options.file) = true) (record : Record) :
    Fills file before (options.write asked file record) fun _ held =>
      held = before.map (· ++ [record]) := by
  intro _ _
  rw [OutputOptions.write, OutputOptions.emit, if_pos set]
  exact Function.update_self file (before.map (· ++ [record])) fun _ => before

theorem fills_close (other : ResultFile) :
    Fills file before (options.close asked other) fun _ held => held = before := by
  intro _ _
  rw [OutputOptions.close, OutputOptions.emit]
  split <;> rfl

theorem fills_emit_other (op : StreamOp ResultFile Record) (apart : op.file ≠ file) :
    Fills file before (options.emit asked op) fun _ held => held = before := by
  refine Fills.untouched fun other member => ?_
  rw [OutputOptions.emit] at member
  split at member
  · rw [List.mem_singleton.mp member]
    exact apart
  · cases member

end Operations

section Filter

variable (options : OutputOptions) (recordSize : Nat)
  (set : (options.verboseV && options.file) = true)

theorem filterBranch_fills_other (record : Record) (branchId target : Nat) (pass : Pass)
    (branch : Branch) (filterResult : Option FilterResult) (before : Option (List Record))
    (apart : branchId ≠ target) :
    Fills (.filteredRecords target) before
      (filterBranch options recordSize record branchId pass branch filterResult)
      fun _ held => held = before := by
  refine (Fills.of fun _ _ => rfl).bind fun filtered held _ same => ?_
  subst same
  split
  · refine (fills_emit_other options _ fun same => ?_).bind fun _ held _ same => Fills.pure same
    exact apart (ResultFile.filteredRecords.inj same)
  · exact Fills.pure rfl

include set in
theorem filterBranch_fills (record : Record) (branchId : Nat) (pass : Pass) (branch : Branch)
    (filterResult : Option FilterResult) (records : List Record) :
    Fills (.filteredRecords branchId) (some records)
      (filterBranch options recordSize record branchId pass branch filterResult)
      fun _ held => held = some (records ++ [record].filter branch.accepts) := by
  refine (Fills.of fun _ _ => rfl).bind fun filtered held _ same => ?_
  subst same
  rw [Clauses.satisfied_eq_dnf]
  split
  · rename_i accepted
    refine (fills_write options set record).bind fun _ held _ same => Fills.pure ?_
    rw [same, List.filter_cons_of_pos (by exact accepted)]
    rfl
  · rename_i rejected
    refine Fills.pure ?_
    rw [List.filter_cons_of_neg (by exact rejected), List.filter_nil, List.append_nil]

theorem filterRecord_fills_other (record : Record) (branchId target : Nat) (pass : Pass)
    (branches : List (Branch × Option FilterResult)) (before : Option (List Record))
    (passed : target < branchId) :
    Fills (.filteredRecords target) before
      (filterRecord options recordSize record branchId pass branches)
      fun _ held => held = before := by
  induction branches generalizing branchId pass before with
  | nil => exact Fills.pure rfl
  | cons entry rest ih =>
      refine (filterBranch_fills_other options recordSize record branchId target pass entry.1 entry.2
        before passed.ne').bind fun ⟨pass, result⟩ held _ same => ?_
      subst same
      exact (ih (branchId + 1) pass held (by omega)).bind fun _ _ _ same => Fills.pure same

include set in
/-- Every branch appends the record to its file, if it accepts it. -/
theorem filterRecord_fills (record : Record) (branchId index : Nat) (pass : Pass)
    (branches : List (Branch × Option FilterResult)) (branch : Branch)
    (found : (branches.map Prod.fst)[index]? = some branch) (records : List Record) :
    Fills (.filteredRecords (branchId + index)) (some records)
      (filterRecord options recordSize record branchId pass branches)
      fun _ held => held = some (records ++ [record].filter branch.accepts) := by
  induction branches generalizing branchId index pass with
  | nil => cases found
  | cons entry rest ih =>
      obtain ⟨head, result⟩ := entry
      cases index with
      | zero =>
          cases found
          refine (filterBranch_fills options recordSize set record branchId pass head result
            records).bind fun ⟨pass, result⟩ held _ same => ?_
          subst same
          exact (filterRecord_fills_other options recordSize record (branchId + 1) branchId pass rest
            _ (by omega)).bind fun _ _ _ same => Fills.pure same
      | succ index =>
          refine (filterBranch_fills_other options recordSize record branchId _ pass head result
            (some records) (by omega)).bind fun ⟨pass, result⟩ held _ same => ?_
          subst same
          rw [List.map_cons, List.getElem?_cons_succ] at found
          have later := ih (branchId + 1) index pass found
          rw [Nat.add_right_comm] at later
          exact later.bind fun _ _ _ same => Fills.pure same

include set in
theorem filterTrace_fills (trace : List Record) (data : IoData)
    (branches : List (Branch × Option FilterResult)) (branchId : Nat) (branch : Branch)
    (found : (branches.map Prod.fst)[branchId]? = some branch) (records : List Record) :
    Fills (.filteredRecords branchId) (some records)
      (filterTrace options recordSize trace data branches)
      fun _ held => held = some (records ++ trace.filter branch.accepts) := by
  induction trace generalizing data branches records with
  | nil =>
      refine Fills.pure ?_
      rw [List.filter_nil, List.append_nil]
  | cons record rest ih =>
      have here := filterRecord_fills options recordSize set record 0 branchId
        ⟨data, none, true⟩ branches branch found records
      rw [Nat.zero_add] at here
      refine here.bind fun ⟨data, later⟩ held run same => ?_
      subst same
      rw [filterRecord_result] at run
      rw [← filterRecord_branches recordSize record _ branches later data run] at found
      refine (ih data later found _).imp fun _ held same => ?_
      rw [same, List.append_assoc, ← List.filter_append, List.singleton_append]

include set in
/-- The file of the filtered records holds what the branch accepts, in the trace's order. -/
theorem readTrace_fills (filterEnabled : Bool) (io : IoHandler) (branchset : List Branch)
    (trace : List Record) (branchId : Nat) (branch : Branch)
    (found : branchset[branchId]? = some branch) (before : Option (List Record)) :
    Fills (.filteredRecords branchId) before
      (readTrace options filterEnabled io branchset trace)
      fun _ held => held = some (trace.filter branch.accepts) := by
  have created : Fills (.filteredRecords branchId) before
      ((List.range branchset.length).forM (createFiltered options filterEnabled))
      fun _ held => held = some [] := by
    refine (Fills.forM (fun rest held => branchId ∉ rest → held = some []) ?_ ?_).imp
      fun _ held holds => holds List.not_mem_nil
    · intro outside
      exact absurd (List.mem_range.mpr (List.getElem?_eq_some_iff.mp found).1) outside
    · intro other rest held suffix holds
      have decided : Fills (.filteredRecords branchId) held
          (options.create options.verboseV (.filteredRecords other)) fun _ held =>
            branchId ∉ rest → held = some [] := by
        by_cases same : other = branchId
        · rw [same]
          exact (fills_create options set).imp fun _ _ holds _ => holds
        · refine (fills_emit_other options _ fun equal => ?_).imp fun _ held' equal outside => ?_
          · exact same (ResultFile.filteredRecords.inj equal)
          · rw [equal]
            exact holds (by simp [outside, Ne.symm same])
      refine decided.bind fun _ held _ holds => ?_
      split
      · exact Fills.error _
      · exact Fills.pure holds
  have entries : ((branchset.map fun branch =>
      (branch, (if filterEnabled then some ⟨0, []⟩ else none : Option FilterResult))).map
        Prod.fst)[branchId]? = some branch := by
    rw [List.map_map]
    simpa using found
  refine created.bind fun _ held _ same => ?_
  subst same
  refine (filterTrace_fills options io.readGetRecordSize set trace ⟨0, []⟩ _ branchId branch entries
    []).bind fun filtered held _ same => ?_
  rw [List.nil_append] at same
  have closed : Fills (.filteredRecords branchId) held
      ((List.range branchset.length).forM fun branchId =>
        options.close options.verboseV (.filteredRecords branchId))
      fun _ held => held = some (trace.filter branch.accepts) :=
    Fills.forM (fun _ held => held = some (trace.filter branch.accepts)) same
      fun other rest held _ same => (fills_close options _).imp fun _ _ equal => equal.trans same
  refine closed.bind fun _ held _ same => ?_
  split
  · have terminated : Fills (.filteredRecords branchId) held
        (.of (terminateRecordsets (filtered.2.map fun branch => branch.2)) : Emission _)
        fun _ held => held = some (trace.filter branch.accepts) := Fills.of fun _ _ => same
    exact terminated.bind fun _ _ _ same => Fills.pure same
  · exact Fills.pure same

end Filter

section Groupfilter

variable (options : OutputOptions) (branch : Branch) (branchId : Nat)
  (set : (options.verboseV && options.file) = true)

include set in
/-- The file of the filtered groups holds their records. -/
theorem groupfilter_fills (gresult : GrouperResult) (before : Option (List Record)) :
    Fills (.filteredGroups branchId) before (groupfilter options branch branchId gresult)
      fun gfilterResult held =>
        held = some (gfilterResult.filteredGroupset.map Group.record) := by
  have loop (groups : List Group) (gfilterResult : GroupfilterResult) :
      Fills (.filteredGroups branchId) (some (gfilterResult.filteredGroupset.map Group.record))
        (filterGroups options branch branchId groups gfilterResult) fun gfilterResult held =>
          held = some (gfilterResult.filteredGroupset.map Group.record) := by
    induction groups generalizing gfilterResult with
    | nil => exact Fills.pure rfl
    | cons group rest ih =>
        rw [filterGroups]
        split
        · refine (Fills.of fun _ _ => rfl).bind fun _ held _ same => ?_
          subst same
          refine (fills_write options set group.record).bind fun _ held _ same => ?_
          have next := ih ⟨uint32 (gfilterResult.numFilteredGroups + 1),
            gfilterResult.filteredGroupset ++ [group]⟩
          rw [List.map_append] at next
          rw [same]
          exact next
        · exact ih gfilterResult
  refine (fills_create options set).bind fun _ held _ same => ?_
  subst same
  refine (loop _ ⟨0, []⟩).bind fun gfilterResult held _ same => ?_
  subst same
  split
  · exact Fills.error _
  · refine (Fills.of fun _ _ => rfl).bind fun _ held _ same => ?_
    subst same
    exact (fills_close options _).bind fun _ held _ same => Fills.pure same

end Groupfilter

section Merger

variable (options : OutputOptions) {numBranches : Nat} (func : MergerFunc numBranches)
  (clauses : List (List (MergerTerm numBranches))) (gfilterResults : List GroupfilterResult)

theorem writeTuple_fills {asked : Bool} (file : ResultFile) (set : (asked && options.file) = true)
    (tuple : List Nat) (records : List Record) :
    Fills file (some records) (writeTuple options asked file gfilterResults tuple)
      fun groups held => held = some (records ++ groups.map Group.record) := by
  induction gfilterResults generalizing tuple records with
  | nil => exact Fills.pure (by rw [List.map_nil, List.append_nil])
  | cons gfilterResult rest ih =>
      rcases tuple with - | ⟨- | groupId, tuple⟩
      · exact Fills.error _
      · exact Fills.error _
      · rw [writeTuple]
        cases gfilterResult.filteredGroupset[groupId]? with
        | none => exact Fills.error _
        | some group =>
            refine (fills_write options set group.record).bind fun _ held _ same => ?_
            subst same
            refine (ih tuple (records ++ [group.record])).bind fun groups held _ same =>
              Fills.pure ?_
            rw [same, List.map_cons, List.append_assoc, List.singleton_append]

theorem writeTuple_fills_other (asked : Bool) (file other : ResultFile) (apart : other ≠ file)
    (tuple : List Nat) (before : Option (List Record)) :
    Fills file before (writeTuple options asked other gfilterResults tuple)
      fun _ held => held = before := by
  induction gfilterResults generalizing tuple before with
  | nil => exact Fills.pure rfl
  | cons gfilterResult rest ih =>
      rcases tuple with - | ⟨- | groupId, tuple⟩
      · exact Fills.error _
      · exact Fills.error _
      · rw [writeTuple]
        cases gfilterResult.filteredGroupset[groupId]? with
        | none => exact Fills.error _
        | some group =>
            refine (fills_emit_other options (.write other group.record) apart).bind
              fun _ held _ same => ?_
            subst same
            exact (ih tuple held).bind fun groups held _ same => Fills.pure same

/-- A tuple that is kept is also written. -/
theorem keepTuple_fills (set : (options.verboseV && options.file) = true) (mresult : MergerResult)
    (tuple : List Nat) :
    Fills .mergedGroups (some (mresult.groupTuples.flatten.map Group.record))
      (keepTuple options func clauses gfilterResults mresult tuple)
      fun mresult held => held = some (mresult.groupTuples.flatten.map Group.record) := by
  refine (Fills.of fun _ _ => rfl).bind fun clause held _ same => ?_
  subst same
  split
  · refine (writeTuple_fills options gfilterResults .mergedGroups set tuple _).bind
      fun groups held _ same => ?_
    subst same
    refine (Fills.of fun _ _ => rfl).bind fun _ held _ same => Fills.pure ?_
    rw [← same, List.flatten_append, List.map_append, List.flatten_singleton]
  · exact Fills.pure rfl

theorem keepTuple_fills_other (file : ResultFile) (apart : .mergedGroups ≠ file)
    (mresult : MergerResult) (tuple : List Nat) (before : Option (List Record)) :
    Fills file before (keepTuple options func clauses gfilterResults mresult tuple)
      fun _ held => held = before := by
  refine (Fills.of fun _ _ => rfl).bind fun clause held _ same => ?_
  subst same
  split
  · refine (writeTuple_fills_other options gfilterResults _ file _ apart tuple before).bind
      fun groups held _ same => ?_
    have allocated : Fills file held (.of (realloc (uint32 (mresult.numGroupTuples + 1))) :
        Emission Unit) fun _ after => after = before := Fills.of fun _ _ => same
    exact allocated.bind fun _ _ _ same => Fills.pure same
  · exact Fills.pure rfl

theorem mergeTuple_fills_merged (set : (options.verboseV && options.file) = true)
    (mresult : MergerResult) (tuple : List Nat) :
    Fills .mergedGroups (some (mresult.groupTuples.flatten.map Group.record))
      (mergeTuple options func clauses gfilterResults mresult tuple)
      fun mresult held => held = some (mresult.groupTuples.flatten.map Group.record) := by
  rw [mergeTuple]
  dsimp only
  split
  · refine (writeTuple_fills_other options gfilterResults true _ _ (by simp) tuple _).bind
      fun groups held _ same => ?_
    subst same
    exact keepTuple_fills options func clauses gfilterResults set _ tuple
  · exact keepTuple_fills options func clauses gfilterResults set _ tuple

theorem mergeTuple_fills_toBeMerged (set : (options.verboseVv && options.file) = true)
    (mresult : MergerResult) (tuple : List Nat) (groups : List Group)
    (matched : matchedTuple gfilterResults tuple = .ok groups) (records : List Record) :
    Fills .toBeMergedGroups (some records)
      (mergeTuple options func clauses gfilterResults mresult tuple)
      fun _ held => held = some (records ++ groups.map Group.record) := by
  have written : (true && options.file) = true := by
    rw [Bool.and_eq_true] at set
    rw [set.2]
    rfl
  rw [mergeTuple]
  dsimp only
  rw [if_pos set]
  refine (writeTuple_fills options gfilterResults .toBeMergedGroups written tuple records).bind
    fun groups' held run same => ?_
  rw [writeTuple_result, matched, Except.ok.injEq] at run
  subst run same
  exact keepTuple_fills_other options func clauses gfilterResults _ (by simp) _ tuple _

variable (groupsets : List (List Group))

theorem mergeLoop_fills (set : (options.verboseVv && options.file) = true)
    (selected : List (List (Nat × Group)))
    (chosen : ∀ selection ∈ selected, List.Forall₂ Chosen groupsets selection)
    (mresult : MergerResult) (records : List Record) :
    Fills .toBeMergedGroups (some records)
      ((selected.map fun selection => selection.map fun choice => choice.1 + 1).foldlM
        (mergeTuple options func clauses (groupsets.map GroupfilterResult.of)) mresult)
      fun _ held =>
        held = some (records ++ (selected.map (List.map Prod.snd)).flatten.map Group.record) := by
  induction selected generalizing mresult records with
  | nil => exact Fills.pure (by simp)
  | cons selection rest ih =>
      obtain ⟨here, later⟩ := List.forall_mem_cons.mp chosen
      rw [List.map_cons, List.foldlM_cons]
      refine (mergeTuple_fills_toBeMerged options func clauses _ set mresult _ _
        (matchedTuple_ok groupsets selection here) records).bind fun mresult held _ same => ?_
      subst same
      refine (ih later mresult _).imp fun _ held same => ?_
      rw [same, List.map_cons, List.flatten_cons, List.map_append, List.append_assoc]

variable (nonempty : ∀ groupset ∈ groupsets, groupset ≠ []) (some_branch : groupsets ≠ [])
  (before : Option (List Record))

include nonempty some_branch

/-- The file of the merged groups holds the tuples that are kept, one after the other. -/
theorem merger_fills_merged (set : (options.verboseV && options.file) = true) :
    Fills .mergedGroups before (merger options func clauses (groupsets.map GroupfilterResult.of))
      fun mresult held => held = some (mresult.groupTuples.flatten.map Group.record) := by
  rw [merger_logs options func clauses groupsets nonempty some_branch]
  refine (fills_create options set).bind fun _ held _ same => ?_
  subst same
  refine (fills_emit_other options (.create .toBeMergedGroups) (by simp [StreamOp.file])).bind
    fun _ held _ same => ?_
  subst same
  have loop : Fills .mergedGroups (some []) ((tuplePositions groupsets).foldlM
      (mergeTuple options func clauses (groupsets.map GroupfilterResult.of)) ⟨0, 0, []⟩)
      fun mresult held => held = some (mresult.groupTuples.flatten.map Group.record) := by
    refine Fills.foldlM (fun _ (mresult : MergerResult) held =>
      held = some (mresult.groupTuples.flatten.map Group.record)) (by rfl) ?_
    rintro tuple rest mresult held - rfl
    exact mergeTuple_fills_merged options func clauses _ set mresult tuple
  refine loop.bind fun mresult held _ same => ?_
  refine (fills_close options _).bind fun _ held' _ same' => ?_
  refine (fills_close options _).bind fun _ held'' _ same'' => Fills.pure ?_
  rw [same'', same', same]

/-- The file of the groups to be merged holds all tuples, kept or not. -/
theorem merger_fills_toBeMerged (set : (options.verboseVv && options.file) = true) :
    Fills .toBeMergedGroups before
      (merger options func clauses (groupsets.map GroupfilterResult.of))
      fun _ held => held = some ((product groupsets).flatten.map Group.record) := by
  rw [merger_logs options func clauses groupsets nonempty some_branch]
  refine (fills_emit_other options (.create .mergedGroups) (by simp [StreamOp.file])).bind
    fun _ held _ same => ?_
  subst same
  refine (fills_create options set).bind fun _ held _ same => ?_
  subst same
  refine (mergeLoop_fills options func clauses groupsets set _ (selections_chosen groupsets) _
    []).bind fun mresult held _ same => ?_
  rw [List.nil_append, selections_product] at same
  refine (fills_close options _).bind fun _ held' _ same' => ?_
  refine (fills_close options _).bind fun _ held'' _ same'' => Fills.pure ?_
  rw [same'', same', same]

end Merger

section Ungrouper

variable (options : OutputOptions) (directory : options.file = true)

include directory in
theorem appendGroup_fills (file : ResultFile) (stream : Stream) (group : Group)
    (exact : stream.numRecords = stream.recordset.length)
    (room : stream.recordset.length + group.members.length < 2 ^ 32) :
    Fills file (some (stream.recordset.map RecordPtr.record))
      (appendGroup options file stream group) fun stream' held =>
        stream'.numRecords = stream'.recordset.length ∧
          stream'.recordset = stream.recordset ++ group.members ∧
          held = some (stream'.recordset.map RecordPtr.record) := by
  have set : (true && options.file) = true := by rw [directory]; rfl
  have sum : uint32 (stream.recordset.length + group.numMembers) =
      stream.recordset.length + group.members.length := Nat.mod_eq_of_lt room
  have fresh : group.members.take (stream.recordset.length + group.members.length -
      stream.recordset.length) = group.members := List.take_of_length_le (by omega)
  have old : stream.recordset.take (stream.recordset.length + group.members.length) =
      stream.recordset := List.take_of_length_le (by omega)
  have loop (items : List RecordPtr) (records : List Record) : Fills file (some records)
      (items.forM fun item => options.write true file item.record)
      fun _ held => held = some (records ++ items.map RecordPtr.record) := by
    induction items generalizing records with
    | nil => exact Fills.pure (by rw [List.map_nil, List.append_nil])
    | cons item rest ih =>
        refine (fills_write options set item.record).bind fun _ held _ same => ?_
        subst same
        refine (ih (records ++ [item.record])).imp fun _ held same => ?_
        rw [same, List.map_cons, List.append_assoc, List.singleton_append]
  simp only [appendGroup, exact, sum, fresh, old]
  refine (Fills.of fun _ _ => rfl).bind fun _ held _ same => ?_
  subst same
  refine (loop group.members _).bind fun _ held _ same => Fills.pure ⟨?_, rfl, ?_⟩
  · rw [List.length_append]
  · rw [same, List.map_append]

include directory in
/-- The file of a stream of fewer than 2^32 records holds the members of its groups. -/
theorem ungroupTuple_fills (numBranches index : Nat) (groupTuple : List Group)
    (room : (concatenated (groupTuple.take numBranches)).length < 2 ^ 32)
    (before : Option (List Record)) :
    Fills (.stream index) before (ungroupTuple options numBranches index groupTuple)
      fun stream held => stream.numRecords = stream.recordset.length ∧
        stream.recordset = concatenated (groupTuple.take numBranches) ∧
        held = some (stream.recordset.map RecordPtr.record) := by
  have set : (true && options.file) = true := by rw [directory]; rfl
  have loop (groups : List Group) (stream : Stream)
      (exact : stream.numRecords = stream.recordset.length)
      (room : stream.recordset.length + (concatenated groups).length < 2 ^ 32) :
      Fills (.stream index) (some (stream.recordset.map RecordPtr.record))
        (groups.foldlM (appendGroup options (.stream index)) stream) fun stream' held =>
          stream'.numRecords = stream'.recordset.length ∧
            stream'.recordset = stream.recordset ++ concatenated groups ∧
            held = some (stream'.recordset.map RecordPtr.record) := by
    induction groups generalizing stream with
    | nil => exact Fills.pure ⟨exact, (List.append_nil _).symm, rfl⟩
    | cons group rest ih =>
        have split : concatenated (group :: rest) = group.members ++ concatenated rest :=
          List.flatMap_cons
        rw [split, List.length_append] at room
        rw [List.foldlM_cons]
        refine (appendGroup_fills options directory _ stream group exact (by omega)).bind
          fun stream' held _ ⟨exact', appended, same⟩ => ?_
        subst same
        refine (ih stream' exact' ?_).imp fun _ held ⟨counted, rest, same⟩ => ⟨counted, ?_, same⟩
        · rw [appended, List.length_append]
          omega
        · rw [rest, appended, split, List.append_assoc]
  refine (fills_create options set).bind fun _ held _ same => ?_
  subst same
  split
  · exact Fills.error _
  · refine (loop (groupTuple.take numBranches) ⟨0, []⟩ rfl (by simpa using room)).bind
      fun stream held _ ⟨counted, appended, same⟩ => ?_
    refine (fills_close options _).bind fun _ held' _ same' => Fills.pure ⟨counted, appended, ?_⟩
    rw [same', same]

theorem ungroupTuple_fills_other (numBranches index target : Nat) (groupTuple : List Group)
    (apart : index ≠ target) (before : Option (List Record)) :
    Fills (.stream target) before (ungroupTuple options numBranches index groupTuple)
      fun _ held => held = before := by
  have kept : Streams (fun file => file = .stream index) 1 ∅
      (ungroupTuple options numBranches index groupTuple) ∅ :=
    ungroupTuple_streams options numBranches index (by rfl) groupTuple
  refine Fills.untouched fun op member same => ?_
  obtain ⟨_, _, taken⟩ := kept.safe.allows member
  exact apart (ResultFile.stream.inj ((StreamOp.stepOn_mine taken).symm.trans same))

/-- The files of the tuples that are not among these are left alone. -/
theorem ungroupTuples_fills_other (numBranches first target : Nat) (groupTuples : List (List Group))
    (outside : target < first ∨ first + groupTuples.length ≤ target)
    (before : Option (List Record)) :
    Fills (.stream target) before (ungroupTuples options numBranches first groupTuples)
      fun _ held => held = before := by
  induction groupTuples generalizing first before with
  | nil => exact Fills.pure rfl
  | cons groupTuple rest ih =>
      rw [List.length_cons] at outside
      refine (ungroupTuple_fills_other options numBranches first target groupTuple (by omega)
        before).bind fun stream held _ same => ?_
      subst same
      exact (ih (first + 1) (by omega) _).bind fun _ _ _ same => Fills.pure same

include directory in
theorem ungroupTuples_fills (numBranches first index : Nat) (groupTuples : List (List Group))
    (groupTuple : List Group) (found : groupTuples[index]? = some groupTuple)
    (room : (concatenated (groupTuple.take numBranches)).length < 2 ^ 32)
    (before : Option (List Record)) :
    Fills (.stream (first + index)) before (ungroupTuples options numBranches first groupTuples)
      fun streams held => ∃ stream, streams[index]? = some stream ∧
        stream.numRecords = stream.recordset.length ∧
        stream.recordset = concatenated (groupTuple.take numBranches) ∧
        held = some (stream.recordset.map RecordPtr.record) := by
  induction groupTuples generalizing first index before with
  | nil => cases found
  | cons head rest ih =>
      cases index with
      | zero =>
          cases found
          refine (ungroupTuple_fills options directory numBranches first groupTuple room before).bind
            fun stream held _ ⟨counted, appended, same⟩ => ?_
          refine (ungroupTuples_fills_other options numBranches (first + 1) first rest (by omega)
            held).bind fun streams held' _ same' => Fills.pure ?_
          exact ⟨stream, rfl, counted, appended, same'.trans same⟩
      | succ index =>
          rw [List.getElem?_cons_succ] at found
          refine (ungroupTuple_fills_other options numBranches first (first + (index + 1)) head
            (by omega) before).bind fun stream held _ _ => ?_
          have later := ih (first + 1) index found held
          rw [Nat.add_right_comm] at later
          exact later.bind fun streams held' _ holds => Fills.pure holds

/-- An ungrouper that succeeds has handled the tuples and nothing else. -/
theorem ungrouper_parts (numBranches : Nat) (mresult : MergerResult)
    (exact : mresult.numGroupTuples = mresult.groupTuples.length) (uresult : UngrouperResult)
    (run : (ungrouper options numBranches (some mresult)).result = .ok uresult) :
    (ungroupTuples options numBranches 0 mresult.groupTuples).result = .ok uresult.streamset ∧
      (ungrouper options numBranches (some mresult)).actions =
        (ungroupTuples options numBranches 0 mresult.groupTuples).actions := by
  rw [ungrouper, if_neg (by omega), exact, List.take_length] at run ⊢
  rw [Emitted.bind_result] at run
  obtain ⟨streamset, tuples, run⟩ := bind_eq_ok run
  rw [Emitted.bind_result, Emitted.of_result] at run
  obtain ⟨_, counted, run⟩ := bind_eq_ok run
  cases run
  refine ⟨tuples, ?_⟩
  rw [Emitted.bind_actions_of_ok _ tuples, Emitted.bind_actions_of_ok _ counted]
  exact List.append_nil _

end Ungrouper

end Nfql.Emit
