import Nfql.EmitResults
import Nfql.MergerTuples

set_option autoImplicit false

/- The merger and the ungrouper compute the same with and without their files. -/
namespace Nfql.Emit

open Emissions Odometer

section Merger

variable (options : OutputOptions) {numBranches : Nat} (func : MergerFunc numBranches)
  (clauses : List (List (MergerTerm numBranches)))

theorem writeTuple_result (asked : Bool) (file : ResultFile)
    (gfilterResults : List GroupfilterResult) (tuple : List Nat) :
    (writeTuple options asked file gfilterResults tuple).result =
      matchedTuple gfilterResults tuple := by
  induction gfilterResults generalizing tuple with
  | nil => rfl
  | cons gfilterResult rest ih =>
      rcases tuple with - | ⟨- | groupId, tuple⟩
      · rfl
      · rfl
      · rw [writeTuple, matchedTuple]
        cases gfilterResult.filteredGroupset[groupId]? with
        | none => rfl
        | some group =>
            simp only [Emitted.bind_result, write_result, ok_bind, ih, Emitted.pure_result]

/-- The merger handles the tuples still to come one by one. -/
theorem mergeTuples_logs (gfilterResults : List GroupfilterResult) (slots : List Slot)
    (positive : ∀ slot ∈ slots, 0 < slot.count) (mresult : MergerResult) :
    mergeTuples options func clauses gfilterResults slots mresult =
      (tuplesAfter slots).foldlM (mergeTuple options func clauses gfilterResults) mresult := by
  induction left : tuplesLeft slots using Nat.strong_induction_on
    generalizing slots mresult with
  | h left ih =>
      have after := iterNext_after slots positive
      rw [mergeTuples]
      split
      · rename_i next
        rw [next, if_neg Bool.false_ne_true] at after
        rw [after.2.1]
        rfl
      · rename_i reached next
        have closer := iterNext_closer slots reached next
        rw [next, if_pos rfl] at after
        rw [after.2, List.foldlM_cons]
        refine bind_congr fun mresult => ih _ (by omega) reached ?_ mresult rfl
        intro slot member
        have count := List.mem_map_of_mem (f := Slot.count) member
        rw [after.1] at count
        obtain ⟨other, inside, same⟩ := List.mem_map.mp count
        rw [← same]
        exact positive other inside

variable (groupsets : List (List Group))

/-- The positions of all tuples, in the order of the iterator. -/
def tuplePositions : List (List Nat) :=
  (selections groupsets).map fun selection => selection.map fun choice => choice.1 + 1

/-- With a filtered group in every branch the merger handles all tuples between the
two streams' beginning and end. -/
theorem merger_logs (nonempty : ∀ groupset ∈ groupsets, groupset ≠ [])
    (some_branch : groupsets ≠ []) :
    merger options func clauses (groupsets.map GroupfilterResult.of) = (do
      options.create options.verboseV .mergedGroups
      options.create options.verboseVv .toBeMergedGroups
      let mresult ← (tuplePositions groupsets).foldlM
        (mergeTuple options func clauses (groupsets.map GroupfilterResult.of)) ⟨0, 0, []⟩
      options.close options.verboseVv .toBeMergedGroups
      options.close options.verboseV .mergedGroups
      pure mresult) := by
  have counts : (groupsets.map GroupfilterResult.of).map GroupfilterResult.numFilteredGroups =
      groupsets.map List.length := by
    rw [List.map_map]
    rfl
  have positive : ∀ count ∈ groupsets.map List.length, 0 < count := by
    intro count member
    obtain ⟨groupset, inside, rfl⟩ := List.mem_map.mp member
    exact List.length_pos_iff.mpr (nonempty groupset inside)
  have all_positive : ((groupsets.map GroupfilterResult.of).any fun gfilterResult =>
      gfilterResult.numFilteredGroups == 0) = false := by
    rw [List.any_eq_false]
    intro gfilterResult member
    have inside := List.mem_map_of_mem (f := GroupfilterResult.numFilteredGroups) member
    rw [counts] at inside
    have := positive _ inside
    rw [beq_iff_eq]
    omega
  have given : (groupsets.map GroupfilterResult.of).isEmpty = false := by
    rw [List.isEmpty_map, List.isEmpty_eq_false_iff]
    exact some_branch
  have slots : ∀ slot ∈ iterStart (groupsets.map List.length), 0 < slot.count := by
    intro slot member
    apply positive
    rw [← iterStart_counts (groupsets.map List.length)]
    exact List.mem_map_of_mem member
  rw [merger, all_positive, if_neg Bool.false_ne_true, given, if_neg Bool.false_ne_true, counts,
    mergeTuples_logs _ _ _ _ _ slots,
    tuplesAfter_start _ (by simpa using some_branch) positive, product_selections, tuplePositions]

/-- A branch without filtered groups, or no branch, ends the merger at once. -/
theorem merger_none (empty : ¬ ∀ groupset ∈ groupsets, groupset ≠ []) :
    merger options func clauses (groupsets.map GroupfilterResult.of) = pure ⟨0, 0, []⟩ := by
  simp only [not_forall, not_not] at empty
  obtain ⟨groupset, member, empty⟩ := empty
  rw [merger, if_pos]
  refine List.any_eq_true.mpr ⟨_, List.mem_map_of_mem member, ?_⟩
  rw [empty]
  rfl

theorem mergeTuple_result (gfilterResults : List GroupfilterResult) (mresult : MergerResult)
    (tuple : List Nat) (groups : List Group)
    (matched : matchedTuple gfilterResults tuple = .ok groups) :
    (mergeTuple options func clauses gfilterResults mresult tuple).result =
      Nfql.mergeTuple func clauses gfilterResults mresult tuple := by
  have kept (mresult : MergerResult) :
      (keepTuple options func clauses gfilterResults mresult tuple).result = (do
        if ← checkClauses (mergerTerm func gfilterResults tuple) clauses true then do
          let groups ← matchedTuple gfilterResults tuple
          let numGroupTuples := uint32 (mresult.numGroupTuples + 1)
          realloc numGroupTuples
          .ok { mresult with numGroupTuples, groupTuples := mresult.groupTuples ++ [groups] }
        else .ok mresult) := by
    rw [keepTuple, Emitted.bind_result, Emitted.of_result]
    refine bind_congr fun clause => ?_
    cases clause with
    | false => rfl
    | true =>
        simp only [↓reduceIte, Emitted.bind_result, Emitted.of_result, writeTuple_result,
          Emitted.pure_result]
  rw [mergeTuple, Nfql.mergeTuple]
  dsimp only
  split
  · rw [Emitted.bind_result, writeTuple_result, matched, ok_bind, kept, matched]
  · rw [kept]

/-- Writing files does not change what the merger computes. -/
theorem merger_result : (merger options func clauses (groupsets.map GroupfilterResult.of)).result =
    Nfql.merger func clauses (groupsets.map GroupfilterResult.of) := by
  by_cases nonempty : ∀ groupset ∈ groupsets, groupset ≠ []
  · by_cases some_branch : groupsets = []
    · rw [some_branch]
      rfl
    · rw [merger_logs options func clauses groupsets nonempty some_branch,
        merger_loop func clauses groupsets nonempty some_branch]
      simp only [Emitted.bind_result, create_result, close_result, ok_bind, Emitted.pure_result]
      rw [Emitted.foldlM_result
        (Nfql.mergeTuple func clauses (groupsets.map GroupfilterResult.of))]
      · exact bind_pure _
      · intro mresult tuple member
        obtain ⟨selection, chosen, rfl⟩ := List.mem_map.mp member
        exact mergeTuple_result options func clauses _ mresult _ _
          (matchedTuple_ok groupsets selection (selections_chosen groupsets selection chosen))
  · rw [merger_none options func clauses groupsets nonempty, Nfql.merger, if_pos]
    · rfl
    · simp only [not_forall, not_not] at nonempty
      obtain ⟨groupset, member, empty⟩ := nonempty
      refine List.any_eq_true.mpr ⟨_, List.mem_map_of_mem member, ?_⟩
      rw [empty]
      rfl

end Merger

section Ungrouper

variable (options : OutputOptions) (numBranches : Nat)

theorem appendGroup_result (file : ResultFile) (stream : Stream) (group : Group) :
    (appendGroup options file stream group).result = Nfql.appendGroup stream group := by
  simp only [appendGroup, Nfql.appendGroup, Emitted.bind_result, Emitted.of_result]
  refine bind_congr fun _ => ?_
  rw [Emitted.forM_result _ fun item _ => write_result options true file item.record]
  rfl

theorem ungroupTuple_result (index : Nat) (groupTuple : List Group) :
    (ungroupTuple options numBranches index groupTuple).result =
      Nfql.ungroupTuple numBranches groupTuple := by
  rw [ungroupTuple, Nfql.ungroupTuple, Emitted.bind_result, create_result, ok_bind]
  split
  · rfl
  · rw [Emitted.bind_result, Emitted.foldlM_result Nfql.appendGroup]
    · simp only [Emitted.bind_result, close_result, ok_bind, Emitted.pure_result]
      exact bind_pure _
    · exact fun stream group _ => appendGroup_result options (.stream index) stream group

theorem ungroupTuples_result (index : Nat) (tuples : List (List Group)) :
    (ungroupTuples options numBranches index tuples).result =
      Nfql.ungroupTuples numBranches tuples := by
  induction tuples generalizing index with
  | nil => rfl
  | cons groupTuple rest ih =>
      simp only [ungroupTuples, Nfql.ungroupTuples, Emitted.bind_result, ungroupTuple_result, ih,
        Emitted.pure_result]

/-- Writing files does not change what the ungrouper computes. -/
theorem ungrouper_result (mresult : Option MergerResult) :
    (ungrouper options numBranches mresult).result = Nfql.ungrouper numBranches mresult := by
  cases mresult with
  | none => rfl
  | some mresult =>
      rw [ungrouper, Nfql.ungrouper]
      split
      · rfl
      · simp only [Emitted.bind_result, ungroupTuples_result, Emitted.of_result,
          Emitted.pure_result]

end Ungrouper

end Nfql.Emit
