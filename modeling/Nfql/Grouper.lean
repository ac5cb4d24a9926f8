import Nfql.Aggregations
import Nfql.Filter

set_option autoImplicit false

/- The grouper stage: grouper.c. -/
namespace Nfql

open ThreeWay

/-- The function pointers of a grouper term: `assign_grouper_func` stores the
comparison and `get_gtype` the sorting order of its second field. -/
structure GrouperFuncs where
  func : GrouperTerm → List RecordPtr → Record → Bool
  qsortComp : GrouperTerm → Record → Record → Int

/-- `comp_uintN_t`, with the second offset as its thunk. -/
def GrouperTerm.qsortComp (term : GrouperTerm) (record1 record2 : Record) : Int :=
  compareNat (readField term.field2Type record1 term.fieldOffset2).toNat
    (readField term.field2Type record2 term.fieldOffset2).toNat

def GrouperFuncs.generated : GrouperFuncs := ⟨GrouperTerm.func, GrouperTerm.qsortComp⟩

structure GrouperResult where
  numGroups : Nat
  groupset : List Group

/-- `qsort_comp`: the first term that tells the records apart decides. -/
def qsortComp (funcs : GrouperFuncs) : List GrouperTerm → RecordPtr → RecordPtr → Int
  | [], _, _ => 0
  | term :: rest, e1, e2 =>
      if funcs.qsortComp term e1.record e2.record ≠ 0 then
        funcs.qsortComp term e1.record e2.record
      else qsortComp funcs rest e1 e2

/-- `StartTS` and `EndTS` of the records seen so far. -/
structure Span where
  startTs : BitVec 64
  endTs : BitVec 64
  deriving DecidableEq, Repr

def Span.of (io : IoHandler) (item : RecordPtr) : Span where
  startTs := io.recordGetStartTS item.record
  endTs := io.recordGetEndTS item.record

/-- Update the timestamps if there is a new minimum or maximum. -/
def Span.widen (io : IoHandler) (span : Span) (item : RecordPtr) : Span where
  startTs :=
    if io.recordGetStartTS item.record < span.startTs then io.recordGetStartTS item.record
    else span.startTs
  endTs :=
    if span.endTs < io.recordGetEndTS item.record then io.recordGetEndTS item.record
    else span.endTs

/-- The first `count` references of an array. A NULL among them is dereferenced
by the comparator or by the timestamp functions. -/
def readItems : Nat → List (Option RecordPtr) → Except Fault (List RecordPtr)
  | 0, _ => .ok []
  | _ + 1, [] => .error .outOfBounds
  | _ + 1, none :: _ => .error .nullPointer
  | count + 1, some item :: rest => do
      let items ← readItems count rest
      .ok (item :: items)

/-- `get_grouper_intermediates`: sort the references in place and mark their end. -/
def getGrouperIntermediates (libc : Libc) (funcs : GrouperFuncs) (numFilteredRecords : Nat)
    (filteredRecordset : List (Option RecordPtr)) (clause : List GrouperTerm) :
    Except Fault (List (Option RecordPtr)) := do
  let items ← readItems numFilteredRecords filteredRecordset
  if numFilteredRecords < filteredRecordset.length then
    .ok ((libc.qsortR.run (qsortComp funcs clause) items).map some ++
      none :: filteredRecordset.drop (numFilteredRecords + 1))
  else .error .outOfBounds

/-- `term->aggr_function(members, aggr_record, num_members, offset, TRUE)`. -/
def saveStatic (libc : Libc) (members : List RecordPtr) (aggrRecord : Record) (field : Field) :
    Except Fault Record := do
  let (_, aggrRecord) ← aggrStatic libc field.width members aggrRecord field.offset true
  .ok aggrRecord

/-- Save the common fields that come from the filter rules. -/
def saveFilterFields (libc : Libc) (filterClauseset : List (List FilterTerm))
    (members : List RecordPtr) (aggrRecord : Record) : Except Fault Record :=
  filterClauseset.foldlM (fun aggrRecord clause =>
    clause.foldlM (fun aggrRecord (term : FilterTerm) =>
      saveStatic libc members aggrRecord ⟨term.fieldOffset, term.fieldType⟩) aggrRecord) aggrRecord

/-- One grouper term's fields, both at the width of its first. -/
def saveGrouperTerm (libc : Libc) (members : List RecordPtr) (aggrRecord : Record)
    (term : GrouperTerm) : Except Fault Record := do
  let aggrRecord ←
    if term.fieldOffset1 ≠ term.fieldOffset2 then
      saveStatic libc members aggrRecord ⟨term.fieldOffset1, term.field1Type⟩
    else .ok aggrRecord
  saveStatic libc members aggrRecord ⟨term.fieldOffset2, term.field1Type⟩

/-- Save the common fields that come from the grouper rules of all clauses. -/
def saveGrouperFields (libc : Libc) (grouperClauseset : List (List GrouperTerm))
    (members : List RecordPtr) (aggrRecord : Record) : Except Fault Record :=
  grouperClauseset.foldlM (fun aggrRecord clause =>
    clause.foldlM (saveGrouperTerm libc members) aggrRecord) aggrRecord

/-- Whether an aggregated offset is also one of a filter or grouper term. -/
def ifIgnoreAggrTerm (branch : Branch) (aggrOffset : Nat) : Bool :=
  (branch.filterClauseset.any fun clause =>
    clause.any fun term => decide (aggrOffset = term.fieldOffset)) ||
  (branch.grouperClauseset.any fun clause =>
    clause.any fun term =>
      decide (aggrOffset = term.fieldOffset1) || decide (aggrOffset = term.fieldOffset2))

/-- One turn of `grouper_aggregations`. Despite its name the flag does not skip the
term: it is handed to the function, where only `aggr_static_*` looks at it. -/
def aggregateTerm (libc : Libc) (branch : Branch) (members : List RecordPtr)
    (aresult : List Aggr × Record) (term : AggrTerm) : Except Fault (List Aggr × Record) := do
  let (aggr, aggrRecord) ← aggrFunc libc term.op term.fieldType members aresult.2
    term.fieldOffset (ifIgnoreAggrTerm branch term.fieldOffset)
  .ok (aresult.1 ++ [aggr], aggrRecord)

def grouperAggregations (libc : Libc) (branch : Branch) (members : List RecordPtr)
    (aggrRecord : Record) : Except Fault (List Aggr × Record) :=
  branch.aggrClauseTermset.foldlM (aggregateTerm libc branch members) ([], aggrRecord)

/-- The cooked record of a group whose members and timestamps are known. Without
grouper clauses the second step has nothing to save. -/
def cookGroup (libc : Libc) (groupaggregationsEnabled : Bool) (branch : Branch)
    (members : List RecordPtr) (span : Span) : Except Fault Group := do
  let aggrRecord ← saveFilterFields libc branch.filterClauseset members fun _ => 0#8
  let aggrRecord ← saveGrouperFields libc branch.grouperClauseset members aggrRecord
  let (aggrset, aggrRecord) ←
    if groupaggregationsEnabled then do
      let (aggrset, aggrRecord) ← grouperAggregations libc branch members aggrRecord
      .ok (some aggrset, aggrRecord)
    else .ok (none, aggrRecord)
  .ok ⟨members, ⟨⟨aggrRecord, span.startTs, span.endTs⟩, aggrset⟩⟩

section Scan

variable (funcs : GrouperFuncs) (io : IoHandler) (clause : List GrouperTerm)
  (recordset : List (Option RecordPtr)) (lastItem : Nat)

/-- `while (current_item != last_item)`: extend the group as long as all terms
match. After a mismatch `current_item` goes back to the last item that matched. -/
def growGroup (currentItem : Nat) (members : List RecordPtr) (span : Span) :
    Except Fault (Nat × List RecordPtr × Span) :=
  if currentItem = lastItem then .ok (currentItem, members, span)
  else
    match _inside : recordset[currentItem + 1]? with
    | none => .error .outOfBounds
    | some none => .error .nullPointer
    | some (some item) =>
        if Clauses.stopIndex (fun term => funcs.func term members item.record) clause <
            clause.length then .ok (currentItem, members, span)
        else growGroup (currentItem + 1) (members ++ [item]) (span.widen io item)
termination_by recordset.length - currentItem
decreasing_by
  have := (List.getElem?_eq_some_iff.mp _inside).1
  omega

/-- The item it stops at is not before the one it started from. -/
theorem growGroup_le (currentItem : Nat) (members : List RecordPtr) (span : Span)
    (reached : Nat) (grown : List RecordPtr × Span)
    (run : growGroup funcs io clause recordset lastItem currentItem members span =
      .ok (reached, grown)) : currentItem ≤ reached := by
  fun_induction growGroup funcs io clause recordset lastItem currentItem members span with
  | case1 members span =>
      cases run
      exact Nat.le_refl _
  | case2 | case3 => cases run
  | case4 currentItem members span _ item _ _ =>
      cases run
      exact Nat.le_refl _
  | case5 currentItem members span _ item _ _ ih =>
      have := ih run
      omega

variable (cook : List RecordPtr → Span → Except Fault Group)

/-- `for (; *current_item != NULL; current_item++)`: one group per turn. -/
def scanGroups (currentItem : Nat) (gresult : GrouperResult) : Except Fault GrouperResult :=
  match _inside : recordset[currentItem]? with
  | none => .error .outOfBounds
  | some none => .ok gresult
  | some (some item) =>
      let numGroups := uint32 (gresult.numGroups + 1)
      match realloc numGroups with
      | .error fault => .error fault
      | .ok () =>
          match _grown : growGroup funcs io clause recordset lastItem currentItem [item]
              (Span.of io item) with
          | .error fault => .error fault
          | .ok (reached, members, span) =>
              match cook members span with
              | .error fault => .error fault
              | .ok group => scanGroups (reached + 1) ⟨numGroups, gresult.groupset ++ [group]⟩
termination_by recordset.length - currentItem
decreasing_by
  have := growGroup_le funcs io clause recordset lastItem _ _ _ _ _ _grown
  have := (List.getElem?_eq_some_iff.mp _inside).1
  omega

end Scan

section Stage

variable (libc : Libc) (funcs : GrouperFuncs) (io : IoHandler)
  (groupaggregationsEnabled : Bool) (branch : Branch) (numFilteredRecords : Nat)

/-- The loop over the grouper clauses, each of which sorts the array again. -/
def groupClauses : List (List GrouperTerm) → List (Option RecordPtr) → GrouperResult →
    Except Fault GrouperResult
  | [], _, gresult => .ok gresult
  | clause :: rest, recordset, gresult => do
      let recordset ← getGrouperIntermediates libc funcs numFilteredRecords recordset clause
      let gresult ← scanGroups funcs io clause recordset (numFilteredRecords - 1)
        (cookGroup libc groupaggregationsEnabled branch) 0 gresult
      groupClauses rest recordset gresult

/-- Club all filtered records into one group. -/
def clubRecords (recordset : List (Option RecordPtr)) : Except Fault GrouperResult := do
  let members ← readItems numFilteredRecords recordset
  match members with
  | [] => .error .outOfBounds
  | first :: _ => do
      intLoop members.length
      let group ← cookGroup libc groupaggregationsEnabled branch members
        (members.foldl (Span.widen io) (Span.of io first))
      .ok ⟨1, [group]⟩

end Stage

/-- `grouper`, without the output it writes to files. -/
def grouper (libc : Libc) (funcs : GrouperFuncs) (io : IoHandler)
    (groupaggregationsEnabled : Bool) (branch : Branch) (fresult : FilterResult) :
    Except Fault GrouperResult :=
  if 0 < fresult.numFilteredRecords then
    match branch.grouperClauseset with
    | [] => clubRecords libc io groupaggregationsEnabled branch fresult.numFilteredRecords
        fresult.filteredRecordset
    | clauses => groupClauses libc funcs io groupaggregationsEnabled branch
        fresult.numFilteredRecords clauses fresult.filteredRecordset ⟨0, []⟩
  else .ok ⟨0, []⟩

end Nfql
