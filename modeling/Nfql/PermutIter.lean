import Nfql.MergerJoin

set_option autoImplicit false

/- The iterator over the tuples of filtered groups: utils.c, merger.c and echo.c. -/
namespace Nfql

open Odometer

section Iterator

/-- `iter_init`; `none` for NULL. -/
def iterInit (numFilteredGroups : List Nat) : Option (List Slot) :=
  if numFilteredGroups.any (· == 0) then none else some (iterStart numFilteredGroups)

/-- Calls of `iter_next` that return true, the tuples they lead to, and the last state. -/
inductive IterSteps : List Slot → List (List Nat) → List Slot → Prop where
  | done (slots : List Slot) : IterSteps slots [] slots
  | next {slots moved reached : List Slot} {tuples : List (List Nat)}
      (step : iterNext slots = (true, moved)) (later : IterSteps moved tuples reached) :
      IterSteps slots (moved.map Slot.position :: tuples) reached

/-- The tuples are those of the product of `1..count`, each once and in lexicographic order. -/
structure Enumerates (counts : List Nat) (tuples : List (List Nat)) : Prop where
  mem : ∀ tuple, tuple ∈ tuples ↔
    List.Forall₂ (fun count position => 1 ≤ position ∧ position ≤ count) counts tuple
  ordered : tuples.Pairwise (List.Lex (· < ·))
  once : tuples.Nodup
  first : tuples.head? = some (counts.map fun _ => 1)
  steps : tuples.length = counts.prod

/-- The iterator goes through the tuples still to come, and then returns false. -/
theorem iterSteps_after (slots : List Slot) (positive : ∀ slot ∈ slots, 0 < slot.count) :
    ∃ reached, IterSteps slots (tuplesAfter slots) reached ∧ (iterNext reached).1 = false := by
  induction left : tuplesLeft slots using Nat.strong_induction_on generalizing slots with
  | h left ih =>
      have after := iterNext_after slots positive
      rcases next : iterNext slots with ⟨moved, slots'⟩
      rw [next] at after
      cases moved with
      | false =>
          rw [if_neg Bool.false_ne_true] at after
          rw [after.2.1]
          exact ⟨slots, IterSteps.done slots, congrArg Prod.fst next⟩
      | true =>
          rw [if_pos rfl] at after
          have closer := iterNext_closer slots slots' next
          have positive' : ∀ slot ∈ slots', 0 < slot.count := by
            intro slot member
            have count := List.mem_map_of_mem (f := Slot.count) member
            rw [after.1] at count
            obtain ⟨other, inside, same⟩ := List.mem_map.mp count
            rw [← same]
            exact positive other inside
          obtain ⟨reached, later, ended⟩ := ih _ (by omega) slots' positive' rfl
          rw [after.2]
          exact ⟨reached, IterSteps.next next later, ended⟩

theorem enumerates_product (counts : List Nat) (positive : ∀ count ∈ counts, 0 < count) :
    Enumerates counts (product (counts.map (List.range' 1))) := by
  have ordered : (product (counts.map (List.range' 1))).Pairwise (List.Lex (· < ·)) := by
    have increasing := product_increasing id (counts.map (List.range' 1)) (by
      intro items member
      obtain ⟨count, -, rfl⟩ := List.mem_map.mp member
      exact List.pairwise_lt_range')
    simpa only [List.map_id] using increasing
  constructor
  · intro tuple
    rw [mem_product, List.forall₂_map_left_iff]
    simp only [List.mem_range'_1]
    constructor
    · exact List.Forall₂.imp fun count position bounds => ⟨bounds.1, by omega⟩
    · exact List.Forall₂.imp fun count position bounds => ⟨bounds.1, by omega⟩
  · exact ordered
  · refine ordered.imp ?_
    rintro tuple other less rfl
    exact ThreeWay.lex_irrefl tuple less
  · let slots : List Slot := counts.map fun count => ⟨1, count⟩
    have begins := product_rewind slots (by
      intro slot member
      obtain ⟨count, inside, rfl⟩ := List.mem_map.mp member
      exact positive count inside)
    have lists : slotPositions slots = counts.map (List.range' 1) := List.map_map
    rw [lists] at begins
    rw [begins, List.head?_cons]
    simp only [rewind, slots, List.map_map, Function.comp_def]
  · simp only [product_length, List.map_map, Function.comp_def, List.length_range', List.map_id']

end Iterator

section Loops

/-- The loop of `echo_merger` over the tuples: the group records that each line shows. -/
def echoTuples (gfilterResults : List GroupfilterResult) (slots : List Slot) :
    Except Fault (List (List AggrRecord)) :=
  match _next : iterNext slots with
  | (false, _) => .ok []
  | (true, slots) => do
      let groups ← matchedTuple gfilterResults (slots.map Slot.position)
      let lines ← echoTuples gfilterResults slots
      .ok (groups.map (fun group => group.aggrResult.aggrRecord) :: lines)
termination_by tuplesLeft slots
decreasing_by exact iterNext_closer _ _ _next

/-- The line shows the records of the tuple's groups. -/
def Shows (gfilterResults : List GroupfilterResult) (tuple : List Nat) (line : List AggrRecord) :
    Prop :=
  ∃ groups, matchedTuple gfilterResults tuple = .ok groups ∧
    line = groups.map fun group => group.aggrResult.aggrRecord

variable (groupsets : List (List Group))

/-- Every loop over the tuples finds a group at each of their positions. -/
structure VisitsAll (tuples : List (List Nat)) (start : List Slot) : Prop where
  inside : ∀ tuple ∈ tuples,
    List.Forall₂ (fun groupset position => position - 1 < groupset.length) groupsets tuple
  filtered : ∀ tuple ∈ tuples, ∀ branchId < groupsets.length,
    ∃ group, filteredGroup (groupsets.map GroupfilterResult.of) tuple branchId = .ok group
  matched : ∀ tuple ∈ tuples,
    ∃ groups, matchedTuple (groupsets.map GroupfilterResult.of) tuple = .ok groups
  merged : ∀ {numBranches : Nat} (func : MergerFunc numBranches)
    (clauses : List (List (MergerTerm numBranches))),
    merger func clauses (groupsets.map GroupfilterResult.of) =
      tuples.foldlM (mergeTuple func clauses (groupsets.map GroupfilterResult.of)) ⟨0, 0, []⟩
  echoed : ∃ lines, echoTuples (groupsets.map GroupfilterResult.of) start = .ok lines ∧
    List.Forall₂ (Shows (groupsets.map GroupfilterResult.of)) tuples lines

/-- A run of the iterator drives the loop of `echo_merger`, tuple by tuple. -/
theorem echoTuples_ok (gfilterResults : List GroupfilterResult) {slots reached : List Slot}
    {tuples : List (List Nat)} (run : IterSteps slots tuples reached)
    (ended : (iterNext reached).1 = false)
    (matched : ∀ tuple ∈ tuples, ∃ groups, matchedTuple gfilterResults tuple = .ok groups) :
    ∃ lines, echoTuples gfilterResults slots = .ok lines ∧
      List.Forall₂ (Shows gfilterResults) tuples lines := by
  induction run with
  | done slots =>
      refine ⟨[], ?_, List.Forall₂.nil⟩
      rw [echoTuples]
      split
      · rfl
      · rename_i step
        rw [step] at ended
        cases ended
  | next step later ih =>
      obtain ⟨here, others⟩ := List.forall_mem_cons.mp matched
      obtain ⟨groups, found⟩ := here
      obtain ⟨lines, rest, shows⟩ := ih ended others
      refine ⟨groups.map (fun group => group.aggrResult.aggrRecord) :: lines, ?_,
        List.Forall₂.cons ⟨groups, found, rfl⟩ shows⟩
      · rw [echoTuples]
        split
        · rename_i stopped
          rw [step] at stopped
          cases stopped
        · rename_i moved
          rw [step] at moved
          cases moved
          rw [found, ok_bind, rest, ok_bind]

/-- The tuple is the positions of some selection. -/
theorem tuple_selection (tuple : List Nat)
    (member : tuple ∈ product ((groupsets.map List.length).map (List.range' 1))) :
    ∃ selection, List.Forall₂ Chosen groupsets selection ∧
      tuple = selection.map fun choice => choice.1 + 1 := by
  rw [product_selections] at member
  obtain ⟨selection, isSelection, rfl⟩ := List.mem_map.mp member
  exact ⟨selection, (mem_selections groupsets selection).mp isSelection, rfl⟩

theorem visitsAll_product (some_branch : groupsets ≠ [])
    (positive : ∀ count ∈ groupsets.map List.length, 0 < count) {start reached : List Slot}
    (run : IterSteps start (product ((groupsets.map List.length).map (List.range' 1))) reached)
    (ended : (iterNext reached).1 = false) :
    VisitsAll groupsets (product ((groupsets.map List.length).map (List.range' 1))) start := by
  have matched : ∀ tuple ∈ product ((groupsets.map List.length).map (List.range' 1)),
      ∃ groups, matchedTuple (groupsets.map GroupfilterResult.of) tuple = .ok groups := by
    intro tuple member
    obtain ⟨selection, chosen, rfl⟩ := tuple_selection groupsets tuple member
    exact ⟨_, matchedTuple_ok groupsets selection chosen⟩
  constructor
  · intro tuple member
    obtain ⟨selection, chosen, rfl⟩ := tuple_selection groupsets tuple member
    rw [List.forall₂_map_right_iff]
    refine chosen.imp fun groupset choice found => ?_
    exact (List.getElem?_eq_some_iff.mp found).1
  · intro tuple member branchId isBranch
    obtain ⟨selection, chosen, rfl⟩ := tuple_selection groupsets tuple member
    obtain ⟨group, -, found⟩ := filteredGroup_ok groupsets selection chosen branchId isBranch
    exact ⟨group, found⟩
  · exact matched
  · intro numBranches func clauses
    rw [product_selections]
    refine merger_loop func clauses groupsets (fun groupset member => ?_) some_branch
    exact List.ne_nil_of_length_pos (positive _ (List.mem_map_of_mem member))
  · exact echoTuples_ok _ run ended matched

/-- `merger` starts the iterator and stops when there is none. -/
theorem merger_iterInit {numBranches : Nat} (func : MergerFunc numBranches)
    (clauses : List (List (MergerTerm numBranches))) (gfilterResults : List GroupfilterResult)
    (some_branch : gfilterResults ≠ []) :
    merger func clauses gfilterResults =
      match iterInit (gfilterResults.map GroupfilterResult.numFilteredGroups) with
      | none => .ok ⟨0, 0, []⟩
      | some slots => mergeTuples func clauses gfilterResults slots ⟨0, 0, []⟩ := by
  have given : gfilterResults.isEmpty = false := List.isEmpty_eq_false_iff.mpr some_branch
  have counts : (gfilterResults.map GroupfilterResult.numFilteredGroups).any (· == 0) =
      gfilterResults.any fun gfilterResult => gfilterResult.numFilteredGroups == 0 := List.any_map
  rw [merger, iterInit, counts, given, if_neg Bool.false_ne_true]
  split
  · rfl
  · rfl

end Loops

/-- A branch without groups stops the iterator before it starts. Otherwise it goes through
the whole product once, in order, and both loops that it drives stay inside the groups. -/
theorem permutIter_enumerates (first : Nat) (rest : List Nat) :
    (0 ∈ first :: rest → iterInit (first :: rest) = none) ∧
    (0 ∉ first :: rest → ∃ start tuples reached, iterInit (first :: rest) = some start ∧
      IterSteps start tuples reached ∧ (iterNext reached).1 = false ∧
      Enumerates (first :: rest) tuples ∧
      ∀ groupsets : List (List Group), groupsets.map List.length = first :: rest →
        VisitsAll groupsets tuples start) := by
  have zeros : (first :: rest).any (· == 0) = true ↔ 0 ∈ first :: rest := by
    rw [List.any_eq_true]
    constructor
    · rintro ⟨count, member, zero⟩
      exact beq_iff_eq.mp zero ▸ member
    · intro member
      exact ⟨0, member, rfl⟩
  constructor
  · intro member
    rw [iterInit, if_pos (zeros.mpr member)]
  · intro absent
    have positive : ∀ count ∈ first :: rest, 0 < count := by
      intro count member
      by_contra zero
      have isZero : count = 0 := by omega
      exact absent (isZero ▸ member)
    have slots : ∀ slot ∈ iterStart (first :: rest), 0 < slot.count := by
      intro slot member
      apply positive
      rw [← iterStart_counts (first :: rest)]
      exact List.mem_map_of_mem member
    obtain ⟨reached, run, ended⟩ := iterSteps_after _ slots
    rw [tuplesAfter_start _ (by simp) positive] at run
    refine ⟨_, _, reached, ?_, run, ended, enumerates_product _ positive, ?_⟩
    · rw [iterInit, if_neg (mt zeros.mp absent)]
    · intro groupsets counts
      have some_branch : groupsets ≠ [] := by
        rintro rfl
        cases counts
      rw [← counts] at run positive ⊢
      exact visitsAll_product groupsets some_branch positive run ended

end Nfql
