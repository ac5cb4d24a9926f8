import Nfql.MergerJoin

set_option autoImplicit false

/- What holds of the merger for every comparator, faults included. -/
namespace Nfql

open Odometer

variable {numBranches : Nat} (func : MergerFunc numBranches)
  (clauses : List (List (MergerTerm numBranches))) (gfilterResults : List GroupfilterResult)

/-- A tuple of one filtered group from each branch. -/
def TupleOf (gfilterResults : List GroupfilterResult) (tuple : List Group) : Prop :=
  List.Forall₂ (fun gfilterResult group => group ∈ gfilterResult.filteredGroupset)
    gfilterResults tuple

/-- The count of tuples is exact, and each of them is made of filtered groups. -/
structure MergerResult.Valid (gfilterResults : List GroupfilterResult) (mresult : MergerResult) :
    Prop where
  numGroupTuples : mresult.numGroupTuples = mresult.groupTuples.length
  room : mresult.numGroupTuples < 2 ^ 32
  tuples : ∀ tuple ∈ mresult.groupTuples, TupleOf gfilterResults tuple

theorem matchedTuple_tupleOf (positions : List Nat) (groups : List Group)
    (success : matchedTuple gfilterResults positions = .ok groups) :
    TupleOf gfilterResults groups := by
  induction gfilterResults generalizing positions groups with
  | nil => cases success; exact List.Forall₂.nil
  | cons gfilterResult rest ih =>
      rcases positions with - | ⟨- | groupId, positions⟩
      · cases success
      · cases success
      · rw [matchedTuple] at success
        split at success
        · rename_i group found
          obtain ⟨later, run, success⟩ := bind_eq_ok success
          cases success
          exact List.Forall₂.cons (List.mem_of_getElem? found) (ih positions later run)
        · cases success

theorem mergeTuple_valid (mresult result : MergerResult) (positions : List Nat)
    (valid : mresult.Valid gfilterResults)
    (success : mergeTuple func clauses gfilterResults mresult positions = .ok result) :
    result.Valid gfilterResults := by
  obtain ⟨clause, -, success⟩ := bind_eq_ok success
  cases clause with
  | false =>
      cases success
      exact ⟨valid.numGroupTuples, valid.room, valid.tuples⟩
  | true =>
      obtain ⟨groups, matched, success⟩ := bind_eq_ok success
      obtain ⟨_, allocated, success⟩ := bind_eq_ok success
      cases success
      have exact := uint32_exact mresult.numGroupTuples valid.room (realloc_positive allocated)
      refine ⟨?_, uint32_lt _, ?_⟩
      · show uint32 (mresult.numGroupTuples + 1) = _
        rw [exact, valid.numGroupTuples, List.length_append, List.length_singleton]
      · intro tuple member
        rcases List.mem_append.mp member with old | new
        · exact valid.tuples tuple old
        · rw [List.mem_singleton.mp new]
          exact matchedTuple_tupleOf gfilterResults positions groups matched

theorem mergeTuples_valid (slots : List Slot) (mresult result : MergerResult)
    (valid : mresult.Valid gfilterResults)
    (success : mergeTuples func clauses gfilterResults slots mresult = .ok result) :
    result.Valid gfilterResults := by
  fun_induction mergeTuples func clauses gfilterResults slots mresult with
  | case1 =>
      cases success
      exact valid
  | case2 => cases success
  | case3 slots mresult reached _ next run ih =>
      exact ih (mergeTuple_valid func clauses gfilterResults mresult next _ valid run) success

/-- Whatever the comparators do, a result of the merger is made of filtered groups. -/
theorem merger_valid (result : MergerResult)
    (success : merger func clauses gfilterResults = .ok result) :
    result.Valid gfilterResults := by
  have start : MergerResult.Valid gfilterResults ⟨0, 0, []⟩ :=
    ⟨rfl, by decide, by intro tuple member; cases member⟩
  rw [merger] at success
  split at success
  · cases success
    exact start
  · split at success
    · cases success
    · exact mergeTuples_valid func clauses gfilterResults _ _ result start success

/-- What the iterator chooses are all tuples. -/
theorem selections_product (groupsets : List (List Group)) :
    (selections groupsets).map (List.map Prod.snd) = product groupsets := by
  have chosen (groupset : List Group) : (choices groupset).map Prod.snd = groupset := by
    rw [choices, List.map_map]
    exact List.zipIdx_map_fst 0 groupset
  rw [selections, ← product_map, List.map_map]
  simp only [Function.comp_def, chosen, List.map_id']

section Total

variable (groupsets : List (List Group)) (count : groupsets.length = numBranches)
  (total : ∀ clause ∈ clauses, ∀ term ∈ clause, ∀ group1 group2,
    ∃ truth, func term group1 group2 0#64 = .ok truth)

private theorem checkTerms_total (call : MergerTerm numBranches → Except Fault Bool)
    (terms : List (MergerTerm numBranches)) (calls : ∀ term ∈ terms, ∃ truth, call term = .ok truth)
    (flag : Bool) : ∃ clause, checkTerms call terms flag = .ok clause := by
  induction terms with
  | nil => exact ⟨flag, rfl⟩
  | cons term rest ih =>
      obtain ⟨truth, run⟩ := calls term (by simp)
      rw [checkTerms, run, ok_bind]
      cases truth with
      | false => exact ⟨false, rfl⟩
      | true => exact ih fun other member => calls other (by simp [member])

private theorem checkClauses_total (call : MergerTerm numBranches → Except Fault Bool)
    (calls : ∀ clause ∈ clauses, ∀ term ∈ clause, ∃ truth, call term = .ok truth) (flag : Bool) :
    ∃ clause, checkClauses call clauses flag = .ok clause := by
  induction clauses generalizing flag with
  | nil => exact ⟨flag, rfl⟩
  | cons clause rest ih =>
      obtain ⟨truth, run⟩ := checkTerms_total call clause (calls clause (by simp)) flag
      rw [checkClauses, run, ok_bind]
      cases truth with
      | false => exact ih (fun other member => calls other (by simp [member])) false
      | true => exact ⟨true, rfl⟩

include count total in
private theorem mergeLoop_total (rest : List (List (Nat × Group)))
    (chosen : ∀ selection ∈ rest, List.Forall₂ Chosen groupsets selection)
    (mresult : MergerResult) (room : mresult.numGroupTuples + rest.length < 2 ^ 32) :
    ∃ result, (rest.map fun selection => selection.map fun choice => choice.1 + 1).foldlM
        (mergeTuple func clauses (groupsets.map GroupfilterResult.of)) mresult = .ok result ∧
      result.numGroupTuples ≤ mresult.numGroupTuples + rest.length := by
  induction rest generalizing mresult with
  | nil => exact ⟨mresult, rfl, Nat.le_refl _⟩
  | cons selection rest ih =>
      have chosen_rest := fun other member => chosen other (List.mem_cons_of_mem _ member)
      have here := chosen selection (by simp)
      rw [List.length_cons] at room ⊢
      have calls : ∀ clause ∈ clauses, ∀ term ∈ clause, ∃ truth,
          mergerTerm func (groupsets.map GroupfilterResult.of)
            (selection.map fun choice => choice.1 + 1) term = .ok truth := by
        intro clause memberClause term member
        obtain ⟨group1, -, run1⟩ := filteredGroup_ok groupsets selection here term.branch1.val
          (by rw [count]; exact term.branch1.isLt)
        obtain ⟨group2, -, run2⟩ := filteredGroup_ok groupsets selection here term.branch2.val
          (by rw [count]; exact term.branch2.isLt)
        obtain ⟨truth, run⟩ := total clause memberClause term member group1 group2
        exact ⟨truth, by simp only [mergerTerm, run1, run2, ok_bind, run]⟩
      obtain ⟨clause, checked⟩ := checkClauses_total clauses _ calls true
      rw [List.map_cons, List.foldlM_cons, mergeTuple, checked, ok_bind]
      cases clause with
      | false =>
          obtain ⟨result, run, bound⟩ := ih chosen_rest
            { mresult with totalNumGroupTuples := uint32 (mresult.totalNumGroupTuples + 1) }
            (by show mresult.numGroupTuples + _ < _; omega)
          exact ⟨result, run, bound.trans (by show mresult.numGroupTuples + _ ≤ _; omega)⟩
      | true =>
          have next := uint32_succ mresult.numGroupTuples (by omega)
          have allocated : realloc (mresult.numGroupTuples + 1) = .ok () := rfl
          obtain ⟨result, run, bound⟩ := ih chosen_rest
            ⟨mresult.numGroupTuples + 1, uint32 (mresult.totalNumGroupTuples + 1),
              mresult.groupTuples ++ [selection.map Prod.snd]⟩
            (by show mresult.numGroupTuples + 1 + _ < _; omega)
          simp only [↓reduceIte, matchedTuple_ok groupsets selection here, ok_bind, next, allocated]
          exact ⟨result, run, bound.trans (by show mresult.numGroupTuples + 1 + _ ≤ _; omega)⟩

include count total in
/-- With comparators that never fail the merger returns, if all tuples could be counted. -/
theorem merger_total (some_branch : groupsets ≠ [])
    (room : (groupsets.map List.length).prod < 2 ^ 32) :
    ∃ result, merger func clauses (groupsets.map GroupfilterResult.of) = .ok result ∧
      result.numGroupTuples ≤ (groupsets.map List.length).prod := by
  by_cases nonempty : ∀ groupset ∈ groupsets, groupset ≠ []
  · rw [merger_loop func clauses groupsets nonempty some_branch]
    have length : (selections groupsets).length = (groupsets.map List.length).prod := by
      have positions := product_selections groupsets
      rw [← List.length_map, ← positions, product_length]
      simp only [List.map_map, Function.comp_def, List.length_range']
    obtain ⟨result, run, bound⟩ := mergeLoop_total func clauses groupsets count total
      (selections groupsets) (selections_chosen groupsets) ⟨0, 0, []⟩
      (by rw [length, Nat.zero_add]; exact room)
    rw [length, Nat.zero_add] at bound
    exact ⟨result, run, bound⟩
  · simp only [not_forall, not_not] at nonempty
    obtain ⟨groupset, member, empty⟩ := nonempty
    have zero : ((groupsets.map GroupfilterResult.of).any fun gfilterResult =>
        gfilterResult.numFilteredGroups == 0) = true := by
      refine List.any_eq_true.mpr ⟨_, List.mem_map_of_mem member, ?_⟩
      rw [empty]
      rfl
    exact ⟨⟨0, 0, []⟩, by rw [merger, if_pos zero], Nat.zero_le _⟩

end Total

end Nfql
