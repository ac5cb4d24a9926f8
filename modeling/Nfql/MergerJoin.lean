import Nfql.Merger
import Nfql.Odometer

set_option autoImplicit false

/- Which tuples the merger visits, and which of them it keeps. -/
namespace Nfql

open Odometer

section Iterator

/-- The positions that each slot goes through. -/
def slotPositions (slots : List Slot) : List (List Nat) :=
  slots.map fun slot => List.range' 1 slot.count

/-- The tuples still to come, in the order of the iterator. -/
def tuplesAfter : List Slot → List (List Nat)
  | [] => []
  | slot :: rest =>
      (tuplesAfter rest).map (slot.position :: ·) ++
        (List.range' (slot.position + 1) (slot.count - slot.position)).flatMap fun position =>
          (product (slotPositions rest)).map (position :: ·)

/-- Every slot back on its first position. -/
def rewind (slots : List Slot) : List Slot := slots.map fun slot => ⟨1, slot.count⟩

theorem slotPositions_congr (slots slots' : List Slot)
    (same : slots.map Slot.count = slots'.map Slot.count) :
    slotPositions slots = slotPositions slots' := by
  have split : ∀ slots, slotPositions slots = (slots.map Slot.count).map (List.range' 1) := by
    intro slots
    rw [List.map_map]
    rfl
  rw [split, split, same]

theorem rewind_counts (slots : List Slot) :
    (rewind slots).map Slot.count = slots.map Slot.count := by
  simp only [rewind, List.map_map, Function.comp_def]

private theorem range'_first (first count : Nat) (positive : 0 < count) :
    List.range' first count = first :: List.range' (first + 1) (count - 1) := by
  obtain ⟨rest, rfl⟩ : ∃ rest, count = rest + 1 := ⟨count - 1, by omega⟩
  rw [List.range'_succ, Nat.add_sub_cancel]

/-- The first of all tuples is the one the rewound slots stand on. -/
theorem product_rewind (slots : List Slot) (positive : ∀ slot ∈ slots, 0 < slot.count) :
    product (slotPositions slots) =
      (rewind slots).map Slot.position :: tuplesAfter (rewind slots) := by
  induction slots with
  | nil => rfl
  | cons slot rest ih =>
      have first := range'_first 1 slot.count (positive slot (by simp))
      have later := ih fun other member => positive other (List.mem_cons_of_mem _ member)
      have same := slotPositions_congr _ _ (rewind_counts rest)
      change (List.range' 1 slot.count).flatMap
        (fun position => (product (slotPositions rest)).map (position :: ·)) =
          (1 :: (rewind rest).map Slot.position) ::
            ((tuplesAfter (rewind rest)).map (1 :: ·) ++ (List.range' (1 + 1) (slot.count - 1)).flatMap
              fun position => (product (slotPositions (rewind rest))).map (position :: ·))
      rw [same, first, List.flatMap_cons]
      nth_rewrite 1 [later]
      rfl

/-- One call of the iterator moves to the next of the tuples still to come, or ends
with rewound slots when there is none. -/
theorem iterNext_after (slots : List Slot) (positive : ∀ slot ∈ slots, 0 < slot.count) :
    (iterNext slots).2.map Slot.count = slots.map Slot.count ∧
      if (iterNext slots).1 then
        tuplesAfter slots =
          (iterNext slots).2.map Slot.position :: tuplesAfter (iterNext slots).2
      else tuplesAfter slots = [] ∧ (iterNext slots).2 = rewind slots := by
  induction slots with
  | nil => exact ⟨rfl, rfl, rfl⟩
  | cons slot rest ih =>
      have positive_rest := fun other member => positive other (List.mem_cons_of_mem _ member)
      rw [iterNext]
      rcases next : iterNext rest with ⟨moved, reached⟩
      obtain ⟨counts, ih⟩ := ih positive_rest
      rw [next] at ih counts
      cases moved with
      | true =>
          simp only [↓reduceIte] at ih counts
          refine ⟨by simp only [List.map_cons, counts], ?_⟩
          simp only [↓reduceIte, tuplesAfter, ih, List.map_cons, List.cons_append,
            slotPositions_congr _ _ counts]
      | false =>
          simp only [Bool.false_eq_true, ↓reduceIte] at ih
          obtain ⟨finished, rfl⟩ := ih
          by_cases more : slot.position < slot.count
          · have first := range'_first (slot.position + 1) (slot.count - slot.position) (by omega)
            have remaining : slot.count - slot.position - 1 = slot.count - (slot.position + 1) := by
              omega
            have same := slotPositions_congr _ _ (rewind_counts rest)
            simp only [more, ↓reduceIte, tuplesAfter, finished, List.map_nil, List.nil_append, first,
              List.flatMap_cons, List.map_cons, rewind_counts, remaining, same, true_and]
            nth_rewrite 1 [product_rewind rest positive_rest]
            rfl
          · have none : slot.count - slot.position = 0 := by omega
            simp only [more, ↓reduceIte, Bool.false_eq_true, tuplesAfter, finished, none,
              List.map_cons, rewind_counts, true_and]
            exact ⟨rfl, rfl⟩

private theorem iterStart_cons (count next : Nat) (rest : List Nat) :
    iterStart (count :: next :: rest) = ⟨1, count⟩ :: iterStart (next :: rest) := rfl

theorem iterStart_counts (counts : List Nat) : (iterStart counts).map Slot.count = counts := by
  induction counts with
  | nil => rfl
  | cons count rest ih =>
      cases rest with
      | nil => rfl
      | cons next rest => rw [iterStart_cons, List.map_cons, ih]

/-- The iterator starts in front of the first tuple. -/
theorem tuplesAfter_start (counts : List Nat) (nonempty : counts ≠ [])
    (positive : ∀ count ∈ counts, 0 < count) :
    tuplesAfter (iterStart counts) = product (counts.map (List.range' 1)) := by
  have positions : ∀ counts, slotPositions (iterStart counts) = counts.map (List.range' 1) := by
    intro counts
    nth_rewrite 2 [← iterStart_counts counts]
    rw [List.map_map]
    rfl
  induction counts with
  | nil => exact absurd rfl nonempty
  | cons count rest ih =>
      cases rest with
      | nil => rfl
      | cons next rest =>
          have first := range'_first 1 count (positive count (by simp))
          have later := ih (by simp) fun other member => positive other (List.mem_cons_of_mem _ member)
          change (tuplesAfter (iterStart (next :: rest))).map (1 :: ·) ++
              (List.range' (1 + 1) (count - 1)).flatMap (fun position =>
                (product (slotPositions (iterStart (next :: rest)))).map (position :: ·)) =
            (List.range' 1 count).flatMap fun position =>
              (product ((next :: rest).map (List.range' 1))).map (position :: ·)
          rw [later, positions, first, List.flatMap_cons]

end Iterator

section Loop

variable {numBranches : Nat} (func : MergerFunc numBranches)
  (clauses : List (List (MergerTerm numBranches))) (gfilterResults : List GroupfilterResult)

/-- The merger handles the tuples still to come one by one. -/
theorem mergeTuples_after (slots : List Slot) (positive : ∀ slot ∈ slots, 0 < slot.count)
    (mresult : MergerResult) :
    mergeTuples func clauses gfilterResults slots mresult =
      (tuplesAfter slots).foldlM (mergeTuple func clauses gfilterResults) mresult := by
  induction left : tuplesLeft slots using Nat.strong_induction_on
    generalizing slots mresult with
  | h left ih =>
      have after := iterNext_after slots positive
      rw [mergeTuples]
      split
      · rename_i next
        rw [next, if_neg Bool.false_ne_true] at after
        rw [after.2.1]
        rfl
      · rename_i reached next
        have closer := iterNext_closer slots reached next
        rw [next, if_pos rfl] at after
        rw [after.2, List.foldlM_cons]
        cases mergeTuple func clauses gfilterResults mresult (reached.map Slot.position) with
        | error fault => rfl
        | ok mresult =>
            refine ih _ (by omega) reached ?_ mresult rfl
            intro slot member
            have count := List.mem_map_of_mem (f := Slot.count) member
            rw [after.1] at count
            obtain ⟨other, inside, same⟩ := List.mem_map.mp count
            rw [← same]
            exact positive other inside

end Loop

section Clause

variable {numBranches : Nat} (holds : MergerTerm numBranches → Bool)

/-- What the clause loop computes: whether the first clause holds. -/
def firstHolds : List (List (MergerTerm numBranches)) → Bool
  | [] => true
  | clause :: _ => clause.all holds

private theorem checkTerms_false (terms : List (MergerTerm numBranches)) :
    checkTerms (fun term => .ok (holds term)) terms false = .ok false := by
  induction terms with
  | nil => rfl
  | cons term rest ih =>
      simp only [checkTerms, ok_bind, ih, ite_self]

private theorem checkTerms_true (terms : List (MergerTerm numBranches)) :
    checkTerms (fun term => .ok (holds term)) terms true = .ok (terms.all holds) := by
  induction terms with
  | nil => rfl
  | cons term rest ih =>
      simp only [checkTerms, ok_bind, ih, List.all_cons]
      cases holds term <;> rfl

/-- Once cleared, the flag is never set again. -/
private theorem checkClauses_false (clauses : List (List (MergerTerm numBranches))) :
    checkClauses (fun term => .ok (holds term)) clauses false = .ok false := by
  induction clauses with
  | nil => rfl
  | cons clause rest ih =>
      simp only [checkClauses, checkTerms_false, ok_bind, Bool.false_eq_true, ↓reduceIte, ih]

theorem checkClauses_first (clauses : List (List (MergerTerm numBranches))) :
    checkClauses (fun term => .ok (holds term)) clauses true = .ok (firstHolds holds clauses) := by
  cases clauses with
  | nil => rfl
  | cons clause rest =>
      simp only [checkClauses, checkTerms_true, ok_bind, firstHolds]
      cases clause.all holds with
      | false => exact checkClauses_false holds rest
      | true => rfl

end Clause

section Join

variable {numBranches : Nat} (truth : MergerTerm numBranches → Group → Group → Bool)
  (clauses : List (List (MergerTerm numBranches))) (groupsets : List (List Group))

/-- The result of a group filter that kept the given groups. -/
def GroupfilterResult.of (groups : List Group) : GroupfilterResult := ⟨groups.length, groups⟩

/-- A choice of one group from each branch, with its position. -/
def Chosen (groupset : List Group) (choice : Nat × Group) : Prop :=
  groupset[choice.1]? = some choice.2

def choices (groupset : List Group) : List (Nat × Group) :=
  groupset.zipIdx.map Prod.swap

/-- All choices, in lexicographic order of the positions. -/
def selections : List (List (Nat × Group)) := product (groupsets.map choices)

/-- A term's truth on the groups of a tuple. -/
def tupleHolds (groups : List Group) (term : MergerTerm numBranches) : Bool :=
  match groups[term.branch1.val]?, groups[term.branch2.val]? with
  | some group1, some group2 => truth term group1 group2
  | _, _ => false

/-- Some clause has all its terms true on the chosen groups. -/
def joins (selection : List (Nat × Group)) : Bool :=
  Clauses.dnf (tupleHolds truth (selection.map Prod.snd)) clauses

/-- The first clause has all its terms true on the chosen groups. -/
def joinsFirst (selection : List (Nat × Group)) : Bool :=
  firstHolds (tupleHolds truth (selection.map Prod.snd)) clauses

theorem mem_choices (groupset : List Group) (choice : Nat × Group) :
    choice ∈ choices groupset ↔ Chosen groupset choice := by
  obtain ⟨position, group⟩ := choice
  rw [choices, Chosen, ← List.mk_mem_zipIdx_iff_getElem?, List.mem_map]
  constructor
  · rintro ⟨⟨group, position⟩, member, same⟩
    cases same
    exact member
  · intro member
    exact ⟨_, member, rfl⟩

theorem mem_selections (selection : List (Nat × Group)) :
    selection ∈ selections groupsets ↔ List.Forall₂ Chosen groupsets selection := by
  rw [selections, mem_product, List.forall₂_map_left_iff]
  simp only [mem_choices]

theorem choices_positions (groupset : List Group) :
    (choices groupset).map (fun choice => choice.1 + 1) = List.range' 1 groupset.length := by
  have positions := List.zipIdx_map_snd 1 groupset
  rw [← positions, choices, List.map_map, List.zipIdx_succ, List.map_map]
  rfl

theorem selections_increasing :
    (selections groupsets).Pairwise fun a b =>
      List.Lex (· < ·) (a.map Prod.fst) (b.map Prod.fst) := by
  apply product_increasing
  intro items member
  obtain ⟨groupset, -, rfl⟩ := List.mem_map.mp member
  have positions := choices_positions groupset
  have ordered : ((choices groupset).map fun choice => choice.1 + 1).Pairwise (· < ·) := by
    rw [positions]
    exact List.pairwise_lt_range'
  exact (List.pairwise_map.mp ordered).imp fun less => by omega

theorem product_selections :
    product ((groupsets.map List.length).map (List.range' 1)) =
      (selections groupsets).map fun selection => selection.map fun choice => choice.1 + 1 := by
  have lists : (groupsets.map List.length).map (List.range' 1) =
      (groupsets.map choices).map (List.map fun choice => choice.1 + 1) := by
    simp only [List.map_map, Function.comp_def, choices_positions]
  rw [lists, product_map, selections]

theorem matchedTuple_ok (selection : List (Nat × Group))
    (chosen : List.Forall₂ Chosen groupsets selection) :
    matchedTuple (groupsets.map GroupfilterResult.of)
        (selection.map fun choice => choice.1 + 1) = .ok (selection.map Prod.snd) := by
  induction chosen with
  | nil => rfl
  | cons head _ ih =>
      simp only [Chosen] at head
      simp only [List.map_cons, matchedTuple, GroupfilterResult.of, head]
      rw [show (List.map _ _ = List.map GroupfilterResult.of _) from rfl, ih, ok_bind]

theorem filteredGroup_ok (selection : List (Nat × Group))
    (chosen : List.Forall₂ Chosen groupsets selection) (branchId : Nat)
    (inside : branchId < groupsets.length) :
    ∃ group, (selection.map Prod.snd)[branchId]? = some group ∧
      filteredGroup (groupsets.map GroupfilterResult.of)
        (selection.map fun choice => choice.1 + 1) branchId = .ok group := by
  induction chosen generalizing branchId with
  | nil => cases inside
  | cons head _ ih =>
      cases branchId with
      | zero =>
          simp only [Chosen] at head
          refine ⟨_, rfl, ?_⟩
          simp only [filteredGroup, List.map_cons, List.getElem?_cons_zero, GroupfilterResult.of,
            head]
      | succ branchId =>
          obtain ⟨group, found, run⟩ := ih branchId (by simpa using inside)
          refine ⟨group, found, ?_⟩
          simpa only [filteredGroup, List.map_cons, List.getElem?_cons_succ] using run

/-- Truth values never fail, and only the terms' two branches are looked up. -/
theorem mergerTerm_ok (count : groupsets.length = numBranches) (selection : List (Nat × Group))
    (chosen : List.Forall₂ Chosen groupsets selection) (term : MergerTerm numBranches) :
    mergerTerm (fun term group1 group2 _ => .ok (truth term group1 group2))
        (groupsets.map GroupfilterResult.of) (selection.map fun choice => choice.1 + 1) term =
      .ok (tupleHolds truth (selection.map Prod.snd) term) := by
  obtain ⟨group1, found1, run1⟩ := filteredGroup_ok groupsets selection chosen term.branch1.val
    (by rw [count]; exact term.branch1.isLt)
  obtain ⟨group2, found2, run2⟩ := filteredGroup_ok groupsets selection chosen term.branch2.val
    (by rw [count]; exact term.branch2.isLt)
  simp only [mergerTerm, run1, run2, ok_bind, tupleHolds, found1, found2]

/-- The merger handles all selections, in order. -/
theorem merger_loop (func : MergerFunc numBranches) (clauses : List (List (MergerTerm numBranches)))
    (groupsets : List (List Group)) (nonempty : ∀ groupset ∈ groupsets, groupset ≠ [])
    (some_branch : groupsets ≠ []) :
    merger func clauses (groupsets.map GroupfilterResult.of) =
      ((selections groupsets).map fun selection =>
        selection.map fun choice => choice.1 + 1).foldlM
          (mergeTuple func clauses (groupsets.map GroupfilterResult.of))
          ⟨0, 0, []⟩ := by
  have counts : (groupsets.map GroupfilterResult.of).map GroupfilterResult.numFilteredGroups =
      groupsets.map List.length := by
    rw [List.map_map]
    rfl
  have positive : ∀ count ∈ groupsets.map List.length, 0 < count := by
    intro count member
    obtain ⟨groupset, inside, rfl⟩ := List.mem_map.mp member
    exact List.length_pos_iff.mpr (nonempty groupset inside)
  have all_positive : ((groupsets.map GroupfilterResult.of).any fun gfilterResult =>
      gfilterResult.numFilteredGroups == 0) = false := by
    rw [List.any_eq_false]
    intro gfilterResult member
    have inside := List.mem_map_of_mem (f := GroupfilterResult.numFilteredGroups) member
    rw [counts] at inside
    have := positive _ inside
    rw [beq_iff_eq]
    omega
  have given : (groupsets.map GroupfilterResult.of).isEmpty = false := by
    rw [List.isEmpty_map, List.isEmpty_eq_false_iff]
    exact some_branch
  have slots : ∀ slot ∈ iterStart (groupsets.map List.length), 0 < slot.count := by
    intro slot member
    apply positive
    rw [← iterStart_counts (groupsets.map List.length)]
    exact List.mem_map_of_mem member
  rw [merger, all_positive, if_neg Bool.false_ne_true, given, if_neg Bool.false_ne_true, counts,
    mergeTuples_after _ _ _ _ slots,
    tuplesAfter_start _ (by simpa using some_branch) positive, product_selections]

/-- The comparators' truth values as the functions that `merger` calls. -/
abbrev truthFunc : MergerFunc numBranches :=
  fun term group1 group2 _ => .ok (truth term group1 group2)

theorem mergeTuple_eq (count : groupsets.length = numBranches) (selection : List (Nat × Group))
    (chosen : List.Forall₂ Chosen groupsets selection) (mresult : MergerResult) :
    mergeTuple (truthFunc truth) clauses (groupsets.map GroupfilterResult.of) mresult
        (selection.map fun choice => choice.1 + 1) =
      if joinsFirst truth clauses selection then do
        realloc (uint32 (mresult.numGroupTuples + 1))
        .ok ⟨uint32 (mresult.numGroupTuples + 1), uint32 (mresult.totalNumGroupTuples + 1),
          mresult.groupTuples ++ [selection.map Prod.snd]⟩
      else .ok { mresult with totalNumGroupTuples := uint32 (mresult.totalNumGroupTuples + 1) } := by
  have calls : mergerTerm (truthFunc truth) (groupsets.map GroupfilterResult.of)
      (selection.map fun choice => choice.1 + 1) =
        fun term => .ok (tupleHolds truth (selection.map Prod.snd) term) :=
    funext (mergerTerm_ok truth groupsets count selection chosen)
  simp only [mergeTuple, calls, checkClauses_first, ok_bind, matchedTuple_ok groupsets selection chosen,
    joinsFirst]
  rfl

private theorem mergeLoop_ok (count : groupsets.length = numBranches)
    (rest : List (List (Nat × Group)))
    (chosen : ∀ selection ∈ rest, List.Forall₂ Chosen groupsets selection)
    (total : Nat) (done : List (List Group))
    (room : done.length + (rest.filter (joinsFirst truth clauses)).length < 2 ^ 32) :
    let kept := (rest.filter (joinsFirst truth clauses)).map (List.map Prod.snd)
    ∃ total', (rest.map fun selection => selection.map fun choice => choice.1 + 1).foldlM
        (mergeTuple (truthFunc truth) clauses (groupsets.map GroupfilterResult.of))
        ⟨done.length, total, done⟩ = .ok ⟨(done ++ kept).length, total', done ++ kept⟩ := by
  induction rest generalizing total done with
  | nil => exact ⟨total, by simp; rfl⟩
  | cons selection rest ih =>
      have chosen_rest := fun other member => chosen other (List.mem_cons_of_mem _ member)
      simp only [List.map_cons, List.foldlM_cons,
        mergeTuple_eq truth clauses groupsets count selection (chosen selection (by simp))]
      by_cases joined : joinsFirst truth clauses selection = true
      · rw [List.filter_cons_of_pos joined] at room ⊢
        rw [List.length_cons] at room
        have next := uint32_snoc done (selection.map Prod.snd) (by omega)
        obtain ⟨total', run⟩ := ih chosen_rest (uint32 (total + 1)) (done ++ [selection.map Prod.snd])
          (by rw [List.length_append, List.length_singleton]; omega)
        refine ⟨total', ?_⟩
        simp only [joined, ↓reduceIte, next, realloc_snoc, ok_bind, run, List.map_cons,
          List.append_assoc, List.singleton_append]
      · rw [List.filter_cons_of_neg joined] at room ⊢
        simp only [joined, Bool.false_eq_true, ↓reduceIte, ok_bind]
        exact ih chosen_rest _ done room

private theorem mergeLoop_room (count : groupsets.length = numBranches)
    (rest : List (List (Nat × Group)))
    (chosen : ∀ selection ∈ rest, List.Forall₂ Chosen groupsets selection)
    (mresult result : MergerResult) (start : mresult.numGroupTuples < 2 ^ 32)
    (success : (rest.map fun selection => selection.map fun choice => choice.1 + 1).foldlM
      (mergeTuple (truthFunc truth) clauses (groupsets.map GroupfilterResult.of)) mresult =
        .ok result) :
    mresult.numGroupTuples + (rest.filter (joinsFirst truth clauses)).length < 2 ^ 32 := by
  induction rest generalizing mresult with
  | nil => exact start
  | cons selection rest ih =>
      have chosen_rest := fun other member => chosen other (List.mem_cons_of_mem _ member)
      rw [List.map_cons, List.foldlM_cons,
        mergeTuple_eq truth clauses groupsets count selection (chosen selection (by simp))] at success
      by_cases joined : joinsFirst truth clauses selection = true
      · rw [List.filter_cons_of_pos joined, List.length_cons]
        by_cases zero : uint32 (mresult.numGroupTuples + 1) = 0
        · simp only [joined, ↓reduceIte, realloc, zero, error_bind] at success
          cases success
        · simp only [joined, ↓reduceIte, realloc, zero, ok_bind] at success
          have exact := uint32_exact mresult.numGroupTuples start zero
          have later := ih chosen_rest _ (uint32_lt _) success
          simp only [exact] at later
          omega
      · rw [List.filter_cons_of_neg joined]
        simp only [joined, Bool.false_eq_true, ↓reduceIte, ok_bind] at success
        exact ih chosen_rest ⟨mresult.numGroupTuples, uint32 (mresult.totalNumGroupTuples + 1),
          mresult.groupTuples⟩ start success

theorem selections_chosen :
    ∀ selection ∈ selections groupsets, List.Forall₂ Chosen groupsets selection :=
  fun selection => (mem_selections groupsets selection).mp

/-- What the merger returns when its 32-bit count of tuples does not wrap. -/
theorem merger_ok (count : groupsets.length = numBranches) (some_branch : groupsets ≠ [])
    (nonempty : ∀ groupset ∈ groupsets, groupset ≠ [])
    (room : ((selections groupsets).filter (joinsFirst truth clauses)).length < 2 ^ 32) :
    let kept := ((selections groupsets).filter (joinsFirst truth clauses)).map (List.map Prod.snd)
    ∃ total, merger (truthFunc truth) clauses (groupsets.map GroupfilterResult.of) =
      .ok ⟨kept.length, total, kept⟩ := by
  rw [merger_loop (truthFunc truth) clauses groupsets nonempty some_branch]
  exact mergeLoop_ok truth clauses groupsets count _ (selections_chosen groupsets) 0 []
    (by rwa [List.length_nil, Nat.zero_add])

theorem merger_room (count : groupsets.length = numBranches) (some_branch : groupsets ≠ [])
    (nonempty : ∀ groupset ∈ groupsets, groupset ≠ []) (result : MergerResult)
    (success : merger (truthFunc truth) clauses (groupsets.map GroupfilterResult.of) =
      .ok result) :
    ((selections groupsets).filter (joinsFirst truth clauses)).length < 2 ^ 32 := by
  rw [merger_loop (truthFunc truth) clauses groupsets nonempty some_branch] at success
  have room := mergeLoop_room truth clauses groupsets count _ (selections_chosen groupsets)
    ⟨0, 0, []⟩ result (by decide) success
  rwa [Nat.zero_add] at room

/-- The tuples are exactly those for which some clause has all its terms true, each
once and in lexicographic order of the group positions. -/
def IsJoin (tuples : List (List Group)) : Prop :=
  ∃ chosen : List (List (Nat × Group)), tuples = chosen.map (List.map Prod.snd) ∧
    (chosen.Pairwise fun a b => List.Lex (· < ·) (a.map Prod.fst) (b.map Prod.fst)) ∧
    ∀ selection, selection ∈ chosen ↔
      List.Forall₂ Chosen groupsets selection ∧ joins truth clauses selection = true

theorem joins_of_joinsFirst (given : clauses ≠ []) (selection : List (Nat × Group))
    (first : joinsFirst truth clauses selection = true) : joins truth clauses selection = true := by
  cases clauses with
  | nil => contradiction
  | cons clause rest =>
      rw [joins, Clauses.dnf, List.any_cons, Bool.or_eq_true]
      exact .inl first

private theorem lex_nodup (chosen : List (List (Nat × Group)))
    (increasing : chosen.Pairwise fun a b =>
      List.Lex (· < ·) (a.map Prod.fst) (b.map Prod.fst)) : chosen.Nodup := by
  refine increasing.imp ?_
  rintro a b less rfl
  exact @lt_irrefl (List Nat) _ _ less

/-- There is only one join, of the length of the filtered selections. -/
theorem IsJoin.length_eq (tuples : List (List Group))
    (isJoin : IsJoin truth clauses groupsets tuples) :
    tuples.length = ((selections groupsets).filter (joins truth clauses)).length := by
  obtain ⟨chosen, rfl, increasing, members⟩ := isJoin
  have same : chosen.Perm ((selections groupsets).filter (joins truth clauses)) := by
    rw [List.perm_ext_iff_of_nodup (lex_nodup chosen increasing)
      ((lex_nodup _ (selections_increasing groupsets)).filter _)]
    intro selection
    rw [members, List.mem_filter, mem_selections]
  rw [List.length_map, same.length_eq]

theorem isJoin_of_first (given : clauses ≠ [])
    (first : ∀ selection ∈ selections groupsets, joins truth clauses selection = true →
      joinsFirst truth clauses selection = true) :
    (selections groupsets).filter (joinsFirst truth clauses) =
        (selections groupsets).filter (joins truth clauses) ∧
      IsJoin truth clauses groupsets
        (((selections groupsets).filter (joinsFirst truth clauses)).map (List.map Prod.snd)) := by
  have same : (selections groupsets).filter (joinsFirst truth clauses) =
      (selections groupsets).filter (joins truth clauses) := by
    apply List.filter_congr
    intro selection member
    rw [Bool.eq_iff_iff]
    exact ⟨joins_of_joinsFirst truth clauses given selection, first selection member⟩
  refine ⟨same, _, rfl, (selections_increasing groupsets).filter _, ?_⟩
  intro selection
  rw [same, List.mem_filter, mem_selections]

/-- The merger computes the join of a list of clauses exactly when, on every tuple,
the first clause holds as soon as any does, and its count of tuples fits 32 bits. -/
theorem merger_join_iff (count : groupsets.length = numBranches) (some_branch : groupsets ≠ [])
    (nonempty : ∀ groupset ∈ groupsets, groupset ≠ []) (given : clauses ≠ []) :
    (∃ result, merger (truthFunc truth) clauses (groupsets.map GroupfilterResult.of) =
        .ok result ∧ result.numGroupTuples = result.groupTuples.length ∧
        IsJoin truth clauses groupsets result.groupTuples) ↔
      (∀ selection ∈ selections groupsets, joins truth clauses selection = true →
        joinsFirst truth clauses selection = true) ∧
      ((selections groupsets).filter (joins truth clauses)).length < 2 ^ 32 := by
  constructor
  · rintro ⟨result, success, -, isJoin⟩
    have room := merger_room truth clauses groupsets count some_branch nonempty result success
    obtain ⟨total, run⟩ := merger_ok truth clauses groupsets count some_branch nonempty room
    rw [run, Except.ok.injEq] at success
    subst success
    have length := isJoin.length_eq truth clauses groupsets
    rw [List.length_map] at length
    have sublist : ((selections groupsets).filter (joinsFirst truth clauses)).Sublist
        ((selections groupsets).filter (joins truth clauses)) :=
      List.monotone_filter_right _ fun selection => joins_of_joinsFirst truth clauses given selection
    refine ⟨?_, by rwa [← length]⟩
    intro selection member joined
    have kept : selection ∈ (selections groupsets).filter (joins truth clauses) :=
      List.mem_filter.mpr ⟨member, joined⟩
    rw [← sublist.eq_of_length length] at kept
    exact (List.mem_filter.mp kept).2
  · rintro ⟨first, room⟩
    obtain ⟨same, isJoin⟩ := isJoin_of_first truth clauses groupsets given first
    obtain ⟨total, run⟩ := merger_ok truth clauses groupsets count some_branch nonempty
      (by rwa [same])
    exact ⟨_, run, rfl, isJoin⟩

end Join

/-- Two merger clauses of one term each. -/
def twoClauses : List (List (MergerTerm 2)) :=
  [[MergerTerm.firstBytes (.comp .ne)], [MergerTerm.firstBytes (.comp .eq)]]

/-- Truth values that make the terms with one operator true. -/
def onlyTrue (op : MergerOp) (term : MergerTerm 2) (_ _ : Group) : Bool := decide (term.op = op)

def Group.empty : Group := ⟨[], ⟨⟨fun _ => 0#8, 0#64, 0#64⟩, none⟩⟩

theorem merger_join_first : ∃ result, merger (truthFunc (onlyTrue (.comp .ne))) twoClauses
      [GroupfilterResult.of [Group.empty], GroupfilterResult.of [Group.empty]] = .ok result ∧
    result.numGroupTuples = result.groupTuples.length ∧
    IsJoin (onlyTrue (.comp .ne)) twoClauses [[Group.empty], [Group.empty]] result.groupTuples :=
  (merger_join_iff (onlyTrue (.comp .ne)) twoClauses [[Group.empty], [Group.empty]] rfl (by simp)
    (by simp) (by simp [twoClauses])).mpr ⟨fun selection member _ => by
      rw [List.mem_singleton.mp member]
      rfl, by decide⟩

/-- A tuple for which only the second clause holds is lost. -/
theorem merger_not_join :
    ¬ ∀ (truth : MergerTerm 2 → Group → Group → Bool) (clauses : List (List (MergerTerm 2)))
      (groupsets : List (List Group)), groupsets.length = 2 →
      (∀ groupset ∈ groupsets, groupset ≠ []) → clauses ≠ [] →
      ∃ result, merger (truthFunc truth) clauses (groupsets.map GroupfilterResult.of) =
        .ok result ∧ IsJoin truth clauses groupsets result.groupTuples := by
  intro join
  obtain ⟨result, success, isJoin⟩ := join (onlyTrue (.comp .eq)) twoClauses
    [[Group.empty], [Group.empty]] rfl (by simp) (by simp [twoClauses])
  obtain ⟨total, run⟩ := merger_ok (onlyTrue (.comp .eq)) twoClauses
    [[Group.empty], [Group.empty]] rfl (by simp) (by simp) (by decide)
  rw [run, Except.ok.injEq] at success
  subst success
  have length := isJoin.length_eq _ _ _
  rw [List.length_map] at length
  exact absurd length (by decide)

end Nfql
