import Nfql.GrouperScan

set_option autoImplicit false

/- What the synthetic record of a group holds. -/
namespace Nfql

/-- The fields a branch's filter terms name. -/
def Branch.filterFields (branch : Branch) : List Field :=
  branch.filterClauseset.flatMap fun clause =>
    clause.map fun term => ⟨term.fieldOffset, term.fieldType⟩

/-- The fields a grouper term names, in the order in which they are saved. -/
def GrouperTerm.fields (term : GrouperTerm) : List Field :=
  if term.fieldOffset1 ≠ term.fieldOffset2 then
    [⟨term.fieldOffset1, term.field1Type⟩, ⟨term.fieldOffset2, term.field1Type⟩]
  else [⟨term.fieldOffset2, term.field1Type⟩]

def Branch.grouperFields (branch : Branch) : List Field :=
  branch.grouperClauseset.flatMap fun clause => clause.flatMap GrouperTerm.fields

/-- The fields a branch's filter and grouper terms name. -/
def Branch.namedFields (branch : Branch) : List Field :=
  branch.filterFields ++ branch.grouperFields

/-- Copy fields of one record to another. -/
def copyFields (source : Record) (record : Record) (fields : List Field) : Record :=
  fields.foldl (fun record field => writeField field.width record field.offset (field.read source))
    record

/-- The group record before aggregations: the named fields of the first member. -/
def Branch.commonRecord (branch : Branch) (members : List RecordPtr) : Record :=
  match members with
  | [] => fun _ => 0#8
  | first :: _ => copyFields first.record (fun _ => 0#8) branch.namedFields

def AggrTerm.field (term : AggrTerm) : Field := ⟨term.fieldOffset, term.fieldType⟩

/-- What one aggregation term does to the group record. -/
def AggrTerm.apply (libc : Libc) (branch : Branch) (members : List RecordPtr) (record : Record)
    (term : AggrTerm) : Record :=
  recordWith term.field record (aggrValue libc term.op
    (fieldValues term.fieldType members term.fieldOffset)
    (ifIgnoreAggrTerm branch term.fieldOffset))

/-- The values that one aggregation term returns. -/
def AggrTerm.results (libc : Libc) (branch : Branch) (members : List RecordPtr)
    (term : AggrTerm) : List (BitVec 64) :=
  aggrResults libc term.op (term.field.values members) (ifIgnoreAggrTerm branch term.fieldOffset)

/-- The finished group record. -/
def Branch.groupRecord (libc : Libc) (groupaggregationsEnabled : Bool) (branch : Branch)
    (members : List RecordPtr) : Record :=
  if groupaggregationsEnabled then
    branch.aggrClauseTermset.foldl (AggrTerm.apply libc branch members)
      (branch.commonRecord members)
  else branch.commonRecord members

/-- The group's size is no obstacle for the `int` loops of its aggregations. -/
def Branch.InRange (groupaggregationsEnabled : Bool) (branch : Branch) (size : Nat) : Prop :=
  groupaggregationsEnabled = true →
    (∃ term ∈ branch.aggrClauseTermset,
      term.op.loops (ifIgnoreAggrTerm branch term.fieldOffset) = true) → size ≤ intMax

/-- The group that the grouper makes out of a run of records. -/
structure Cooked (libc : Libc) (io : IoHandler) (groupaggregationsEnabled : Bool)
    (branch : Branch) (run : List RecordPtr) (group : Group) : Prop where
  members : group.members = run
  record : group.record = branch.groupRecord libc groupaggregationsEnabled run
  startTs : group.aggrResult.aggrRecord.startTsMsec = (Span.ofMembers io run).startTs
  endTs : group.aggrResult.aggrRecord.endTsMsec = (Span.ofMembers io run).endTs
  aggregated : group.aggrResult.aggrset.isSome = groupaggregationsEnabled

theorem writeField_read_byte (field : Field) (record source : Record) (index : Nat) :
    writeField field.width record field.offset (field.read source) index =
      if field.covers index then source index else record index :=
  writeField_readField field.width record source field.offset index

theorem copyFields_append (source record : Record) (fields others : List Field) :
    copyFields source record (fields ++ others) =
      copyFields source (copyFields source record fields) others :=
  List.foldl_append

/-- Copied fields carry the source's bytes, whatever else was copied; all other
bytes stay. -/
theorem copyFields_byte (source record : Record) (fields : List Field) (index : Nat) :
    copyFields source record fields index =
      if ∃ field ∈ fields, field.covers index then source index else record index := by
  induction fields generalizing record with
  | nil => simp [copyFields]
  | cons field rest ih =>
      change copyFields source (writeField _ record _ (field.read source)) rest index = _
      rw [ih, writeField_read_byte]
      by_cases later : ∃ other ∈ rest, other.covers index
      · rw [if_pos later, if_pos]
        obtain ⟨other, member, covers⟩ := later
        exact ⟨other, List.mem_cons_of_mem _ member, covers⟩
      · rw [if_neg later]
        by_cases now : field.covers index
        · rw [if_pos now, if_pos ⟨field, by simp, now⟩]
        · rw [if_neg now, if_neg]
          rintro ⟨other, member, covers⟩
          rcases List.mem_cons.mp member with rfl | member
          · exact now covers
          · exact later ⟨other, member, covers⟩

/-- A copied field reads as in the source. -/
theorem copyFields_read (source record : Record) (fields : List Field) (field : Field)
    (member : field ∈ fields) : field.read (copyFields source record fields) = field.read source := by
  rw [Field.read, Field.read, readField_eq_iff]
  intro index lower upper
  rw [copyFields_byte, if_pos ⟨field, member, lower, upper⟩]

section Cook

variable (libc : Libc)

theorem saveFilterFields_ok (filterClauseset : List (List FilterTerm)) (first : RecordPtr)
    (rest : List RecordPtr) (record : Record) :
    saveFilterFields libc filterClauseset (first :: rest) record =
      .ok (copyFields first.record record (filterClauseset.flatMap fun clause =>
        clause.map fun term => ⟨term.fieldOffset, term.fieldType⟩)) := by
  have terms : ∀ (clause : List FilterTerm) (record : Record),
      clause.foldlM (fun aggrRecord term => saveStatic libc (first :: rest) aggrRecord
        ⟨term.fieldOffset, term.fieldType⟩) record =
      .ok (copyFields first.record record
        (clause.map fun term => ⟨term.fieldOffset, term.fieldType⟩)) := by
    intro clause
    induction clause with
    | nil => intro record; rfl
    | cons term later ih =>
        intro record
        rw [List.foldlM_cons]
        exact ih _
  induction filterClauseset generalizing record with
  | nil => rfl
  | cons clause later ih =>
      rw [saveFilterFields, List.foldlM_cons, terms, ok_bind, List.flatMap_cons, copyFields_append]
      exact ih _

theorem saveGrouperFields_ok (grouperClauseset : List (List GrouperTerm)) (first : RecordPtr)
    (rest : List RecordPtr) (record : Record) :
    saveGrouperFields libc grouperClauseset (first :: rest) record =
      .ok (copyFields first.record record (grouperClauseset.flatMap fun clause =>
        clause.flatMap GrouperTerm.fields)) := by
  have step : ∀ (term : GrouperTerm) (record : Record),
      saveGrouperTerm libc (first :: rest) record term =
        .ok (copyFields first.record record term.fields) := by
    intro term record
    by_cases differ : term.fieldOffset1 ≠ term.fieldOffset2
    · rw [saveGrouperTerm, GrouperTerm.fields, if_pos differ, if_pos differ]
      rfl
    · rw [saveGrouperTerm, GrouperTerm.fields, if_neg differ, if_neg differ]
      rfl
  have terms : ∀ (clause : List GrouperTerm) (record : Record),
      clause.foldlM (saveGrouperTerm libc (first :: rest)) record =
        .ok (copyFields first.record record (clause.flatMap GrouperTerm.fields)) := by
    intro clause
    induction clause with
    | nil => intro record; rfl
    | cons term later ih =>
        intro record
        rw [List.foldlM_cons, step, ok_bind, ih, List.flatMap_cons, copyFields_append]
  induction grouperClauseset generalizing record with
  | nil => rfl
  | cons clause later ih =>
      rw [saveGrouperFields, List.foldlM_cons, terms, ok_bind, List.flatMap_cons,
        copyFields_append]
      exact ih _

variable (branch : Branch) (members : List RecordPtr)

/-- Entry `j` of `aggrset` is the result of term `j`. -/
theorem aggregations_ok (terms : List AggrTerm) (aggrset : List Aggr) (record : Record)
    (inside : (∃ term ∈ terms, term.op.loops (ifIgnoreAggrTerm branch term.fieldOffset) = true) →
      members.length ≤ intMax) (nonempty : members ≠ []) :
    terms.foldlM (aggregateTerm libc branch members) (aggrset, record) =
      .ok (aggrset ++ terms.map fun term => ⟨term.results libc branch members⟩,
        terms.foldl (AggrTerm.apply libc branch members) record) := by
  induction terms generalizing aggrset record with
  | nil => rw [List.map_nil, List.append_nil]; rfl
  | cons term rest ih =>
      have run := aggrFunc_ok libc term.op term.field members record
        (ifIgnoreAggrTerm branch term.fieldOffset) nonempty
        fun loops => inside ⟨term, by simp, loops⟩
      simp only [AggrTerm.field] at run
      simp only [List.foldlM_cons, aggregateTerm, run, ok_bind, List.foldl_cons]
      refine (ih _ _ ?_).trans ?_
      · rintro ⟨other, member, loops⟩
        exact inside ⟨other, by simp [member], loops⟩
      · rw [List.append_assoc]
        rfl

theorem aggregations_error (terms : List AggrTerm) (aggrset : List Aggr) (record : Record)
    (nonempty : members ≠ []) (beyond : intMax < members.length)
    (looping : ∃ term ∈ terms, term.op.loops (ifIgnoreAggrTerm branch term.fieldOffset) = true) :
    terms.foldlM (aggregateTerm libc branch members) (aggrset, record) =
      .error .intOverflow := by
  induction terms generalizing aggrset record with
  | nil => obtain ⟨term, member, _⟩ := looping; cases member
  | cons term rest ih =>
      rw [List.foldlM_cons]
      by_cases loops : term.op.loops (ifIgnoreAggrTerm branch term.fieldOffset) = true
      · have run := aggrFunc_error libc term.op term.field members record _ loops beyond
        simp only [AggrTerm.field] at run
        simp only [aggregateTerm, run, error_bind]
      · have run := aggrFunc_ok libc term.op term.field members record
          (ifIgnoreAggrTerm branch term.fieldOffset) nonempty fun looping => absurd looping loops
        simp only [AggrTerm.field] at run
        simp only [aggregateTerm, run, ok_bind]
        apply ih
        obtain ⟨other, member, looping⟩ := looping
        rcases List.mem_cons.mp member with rfl | member
        · exact absurd looping loops
        · exact ⟨other, member, looping⟩

variable {libc branch members}

/-- Aggregations that return have a group in the range of their counters. -/
theorem aggregations_inside {terms : List AggrTerm} {aggrset : List Aggr} {record : Record}
    {result : List Aggr × Record} (nonempty : members ≠ [])
    (run : terms.foldlM (aggregateTerm libc branch members) (aggrset, record) = .ok result)
    (looping : ∃ term ∈ terms, term.op.loops (ifIgnoreAggrTerm branch term.fieldOffset) = true) :
    members.length ≤ intMax := by
  by_contra beyond
  rw [aggregations_error libc branch members terms aggrset record nonempty (by omega) looping]
    at run
  cases run

end Cook

section Group

variable (libc : Libc) (io : IoHandler) (groupaggregationsEnabled : Bool) (branch : Branch)
  (members : List RecordPtr)

theorem cookGroup_common (nonempty : members ≠ []) (span : Span) :
    cookGroup libc groupaggregationsEnabled branch members span = (do
      let (aggrset, aggrRecord) ←
        if groupaggregationsEnabled then do
          let (aggrset, aggrRecord) ←
            grouperAggregations libc branch members (branch.commonRecord members)
          .ok (some aggrset, aggrRecord)
        else .ok (none, branch.commonRecord members)
      .ok ⟨members, ⟨⟨aggrRecord, span.startTs, span.endTs⟩, aggrset⟩⟩) := by
  obtain ⟨first, rest, rfl⟩ := List.exists_cons_of_ne_nil nonempty
  rw [cookGroup, saveFilterFields_ok, ok_bind, saveGrouperFields_ok, ok_bind, ← copyFields_append]
  rfl

/-- A group in range is cooked, and its record is the one described above. -/
theorem cookGroup_ok (nonempty : members ≠ [])
    (inside : branch.InRange groupaggregationsEnabled members.length) :
    ∃ group, cookGroup libc groupaggregationsEnabled branch members (Span.ofMembers io members) =
        .ok group ∧ Cooked libc io groupaggregationsEnabled branch members group := by
  rw [cookGroup_common libc groupaggregationsEnabled branch members nonempty]
  cases groupaggregationsEnabled with
  | false => exact ⟨_, rfl, rfl, rfl, rfl, rfl, rfl⟩
  | true =>
      have run := aggregations_ok libc branch members branch.aggrClauseTermset []
        (branch.commonRecord members) (inside rfl) nonempty
      simp only [↓reduceIte, grouperAggregations, run, ok_bind]
      exact ⟨_, rfl, rfl, rfl, rfl, rfl, rfl⟩

theorem cookGroup_error (nonempty : members ≠ []) (span : Span)
    (outside : ¬ branch.InRange groupaggregationsEnabled members.length) :
    cookGroup libc groupaggregationsEnabled branch members span = .error .intOverflow := by
  rw [cookGroup_common libc groupaggregationsEnabled branch members nonempty]
  simp only [Branch.InRange, not_forall, Nat.not_le] at outside
  obtain ⟨rfl, looping, beyond⟩ := outside
  simp only [↓reduceIte, grouperAggregations]
  rw [aggregations_error libc branch members _ _ _ nonempty beyond looping, error_bind]

end Group

end Nfql
