import Nfql.GroupFilter

set_option autoImplicit false

/- The merger stage: merger.c, and its iterator in utils.c. -/
namespace Nfql

structure MergerResult where
  numGroupTuples : Nat
  totalNumGroupTuples : Nat
  groupTuples : List (List Group)

/-- One branch's slot of the iterator: `filtered_group_tuple[i]` and
`num_filtered_groups[i]`. Positions count from 1. -/
structure Slot where
  position : Nat
  count : Nat
  deriving DecidableEq, Repr

/-- `iter_init`, without the check for branches that have no filtered groups: the
first call of `iter_next` switches the last position to 1. -/
def iterStart : List Nat → List Slot
  | [] => []
  | [count] => [⟨0, count⟩]
  | count :: rest => ⟨1, count⟩ :: iterStart rest

/-- `iter_next`, which starts at the right end of the tuple. -/
def iterNext : List Slot → Bool × List Slot
  | [] => (false, [])
  | slot :: rest =>
      match iterNext rest with
      | (true, rest) => (true, slot :: rest)
      | (false, rest) =>
          if slot.position < slot.count then
            (true, ⟨slot.position + 1, slot.count⟩ :: rest)
          else (false, ⟨1, slot.count⟩ :: rest)

/-- How many tuples the slots can still take. -/
def tupleCount : List Slot → Nat
  | [] => 1
  | slot :: rest => max slot.count 1 * tupleCount rest

def tuplesLeft : List Slot → Nat
  | [] => 0
  | slot :: rest => (slot.count - slot.position) * tupleCount rest + tuplesLeft rest

/-- The iterator comes closer to its end with every tuple. -/
theorem iterNext_left (slots : List Slot) :
    tupleCount (iterNext slots).2 = tupleCount slots ∧
      (if (iterNext slots).1 then tuplesLeft (iterNext slots).2 < tuplesLeft slots
      else tuplesLeft (iterNext slots).2 + 1 = tupleCount slots) := by
  induction slots with
  | nil => exact ⟨rfl, rfl⟩
  | cons slot rest ih =>
      rw [iterNext]
      rcases later : iterNext rest with ⟨moved, slots⟩
      rw [later] at ih
      obtain ⟨same, ih⟩ := ih
      cases moved with
      | true =>
          simp only [↓reduceIte] at ih
          simp only [tupleCount, tuplesLeft, same, ↓reduceIte, true_and]
          omega
      | false =>
          simp only [Bool.false_eq_true, ↓reduceIte] at ih same
          by_cases more : slot.position < slot.count
          · have one : slot.count - slot.position = slot.count - (slot.position + 1) + 1 := by omega
            simp only [more, ↓reduceIte, tupleCount, tuplesLeft, same, true_and]
            rw [one, Nat.succ_mul]
            omega
          · have one : max slot.count 1 = slot.count - 1 + 1 := by omega
            simp only [more, ↓reduceIte, Bool.false_eq_true, tupleCount, tuplesLeft, same, true_and]
            rw [one, Nat.succ_mul]
            omega

theorem iterNext_closer (slots reached : List Slot) (next : iterNext slots = (true, reached)) :
    tuplesLeft reached < tuplesLeft slots := by
  have closer := (iterNext_left slots).2
  rwa [next, if_pos rfl] at closer

section Loops

variable {numBranches : Nat}

/-- The comparator of a merger term, with the delta that `merger` passes. -/
abbrev MergerFunc (numBranches : Nat) :=
  MergerTerm numBranches → Group → Group → BitVec 64 → Except Fault Bool

/-- `branch->gfilter_result->filtered_groupset[group_id-1]`. -/
def filteredGroup (gfilterResults : List GroupfilterResult) (tuple : List Nat) (branchId : Nat) :
    Except Fault Group :=
  match gfilterResults[branchId]?, tuple[branchId]? with
  | some gfilterResult, some (groupId + 1) =>
      match gfilterResult.filteredGroupset[groupId]? with
      | some group => .ok group
      | none => .error .outOfBounds
  | _, _ => .error .outOfBounds

/-- One term on one tuple. The delta is 0, not the one of the query. -/
def mergerTerm (func : MergerFunc numBranches) (gfilterResults : List GroupfilterResult)
    (tuple : List Nat) (term : MergerTerm numBranches) : Except Fault Bool := do
  let group1 ← filteredGroup gfilterResults tuple term.branch1
  let group2 ← filteredGroup gfilterResults tuple term.branch2
  func term group1 group2 0#64

variable (call : MergerTerm numBranches → Except Fault Bool)

/-- The loop over a clause's terms: a false term clears the flag `clause`. -/
def checkTerms : List (MergerTerm numBranches) → Bool → Except Fault Bool
  | [], clause => .ok clause
  | term :: rest, clause => do
      if ← call term then checkTerms rest clause else .ok false

/-- The loop over the clauses. The flag is set once, before the first of them. -/
def checkClauses : List (List (MergerTerm numBranches)) → Bool → Except Fault Bool
  | [], clause => .ok clause
  | termset :: rest, clause => do
      let clause ← checkTerms call termset clause
      if clause then .ok clause else checkClauses rest clause

end Loops

/-- The groups of the tuple, one of each branch. -/
def matchedTuple : List GroupfilterResult → List Nat → Except Fault (List Group)
  | [], _ => .ok []
  | gfilterResult :: rest, (groupId + 1) :: tuple =>
      match gfilterResult.filteredGroupset[groupId]? with
      | some group => do
          let groups ← matchedTuple rest tuple
          .ok (group :: groups)
      | none => .error .outOfBounds
  | _ :: _, _ => .error .outOfBounds

section Stage

variable {numBranches : Nat} (func : MergerFunc numBranches)
  (clauses : List (List (MergerTerm numBranches))) (gfilterResults : List GroupfilterResult)

/-- The body of `while(iter_next(iter))`, for the tuple the iterator stands on. -/
def mergeTuple (mresult : MergerResult) (tuple : List Nat) : Except Fault MergerResult := do
  let mresult :=
    { mresult with totalNumGroupTuples := uint32 (mresult.totalNumGroupTuples + 1) }
  if ← checkClauses (mergerTerm func gfilterResults tuple) clauses true then do
    let groups ← matchedTuple gfilterResults tuple
    let numGroupTuples := uint32 (mresult.numGroupTuples + 1)
    realloc numGroupTuples
    .ok { mresult with numGroupTuples, groupTuples := mresult.groupTuples ++ [groups] }
  else .ok mresult

def mergeTuples (slots : List Slot) (mresult : MergerResult) : Except Fault MergerResult :=
  match _next : iterNext slots with
  | (false, _) => .ok mresult
  | (true, slots) =>
      match mergeTuple func clauses gfilterResults mresult (slots.map Slot.position) with
      | .error fault => .error fault
      | .ok mresult => mergeTuples slots mresult
termination_by tuplesLeft slots
decreasing_by exact iterNext_closer _ _ _next

/-- `merger`, without the output it writes to files. A branch without filtered
groups makes `iter_init` return NULL, and the result stays empty. -/
def merger : Except Fault MergerResult :=
  if gfilterResults.any fun gfilterResult => gfilterResult.numFilteredGroups == 0 then
    .ok ⟨0, 0, []⟩
  else if gfilterResults.isEmpty then .error .outOfBounds
  else mergeTuples func clauses gfilterResults
    (iterStart (gfilterResults.map GroupfilterResult.numFilteredGroups)) ⟨0, 0, []⟩

end Stage

end Nfql
