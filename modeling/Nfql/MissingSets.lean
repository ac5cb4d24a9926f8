import Nfql.MergerJoin

set_option autoImplicit false

/- Membership terms look up the sets of the aggregations. What the merger does on groups
that have none. -/
namespace Nfql

section Clauses

variable {numBranches : Nat} (asks holds : MergerTerm numBranches → Bool)

/-- A comparator that dereferences NULL for the terms that ask for a set. -/
def lookup (term : MergerTerm numBranches) : Except Fault Bool :=
  if asks term then .error .nullPointer else .ok (holds term)

/-- The clause comes to an asking term, with no false term before it. -/
def clauseAsks : List (MergerTerm numBranches) → Bool
  | [] => false
  | term :: rest => asks term || (holds term && clauseAsks rest)

/-- The clauses behind the first are looked at unless the first holds. -/
def clausesAsk : List (List (MergerTerm numBranches)) → Bool
  | [] => false
  | clause :: rest =>
      clauseAsks asks holds clause || (!clause.all holds && rest.any (clauseAsks asks holds))

theorem checkTerms_lookup (terms : List (MergerTerm numBranches)) (clause : Bool) :
    checkTerms (lookup asks holds) terms clause =
      if clauseAsks asks holds terms then .error .nullPointer
      else .ok (clause && terms.all holds) := by
  induction terms with
  | nil => simp [checkTerms, clauseAsks]
  | cons term rest ih =>
      rw [checkTerms, lookup, clauseAsks]
      cases asks term with
      | true => rfl
      | false =>
          cases truth : holds term with
          | false => simp [truth]
          | true => simpa [truth] using ih

private theorem checkClauses_cleared (clauses : List (List (MergerTerm numBranches))) :
    checkClauses (lookup asks holds) clauses false =
      if clauses.any (clauseAsks asks holds) then .error .nullPointer else .ok false := by
  induction clauses with
  | nil => rfl
  | cons clause rest ih =>
      rw [checkClauses, checkTerms_lookup, List.any_cons]
      cases clauseAsks asks holds clause with
      | true => rfl
      | false => simpa using ih

theorem checkClauses_lookup (clauses : List (List (MergerTerm numBranches))) :
    checkClauses (lookup asks holds) clauses true =
      if clausesAsk asks holds clauses then .error .nullPointer
      else .ok (firstHolds holds clauses) := by
  cases clauses with
  | nil => rfl
  | cons clause rest =>
      rw [checkClauses, checkTerms_lookup, clausesAsk, firstHolds, Bool.true_and]
      cases clauseAsks asks holds clause with
      | true => rfl
      | false =>
          cases truth : clause.all holds with
          | false => simpa [truth] using checkClauses_cleared asks holds rest
          | true => simp

/-- Clauses without asking terms ask for nothing. -/
theorem clausesAsk_none (clauses : List (List (MergerTerm numBranches)))
    (silent : ∀ clause ∈ clauses, ∀ term ∈ clause, asks term = false) :
    clausesAsk asks holds clauses = false := by
  have each : ∀ clause ∈ clauses, clauseAsks asks holds clause = false := by
    intro clause member
    have terms := silent clause member
    clear member
    induction clause with
    | nil => rfl
    | cons term rest ih =>
        obtain ⟨here, later⟩ := List.forall_mem_cons.mp terms
        rw [clauseAsks, here, ih later, Bool.and_false, Bool.or_false]
  cases clauses with
  | nil => rfl
  | cons clause rest =>
      obtain ⟨here, later⟩ := List.forall_mem_cons.mp each
      have others : rest.any (clauseAsks asks holds) = false := by
        rw [List.any_eq_false]
        exact fun other member => by simp [later other member]
      rw [clausesAsk, here, others, Bool.and_false, Bool.or_false]

end Clauses

section Terms

variable {numBranches : Nat}

/-- A membership term whose fields are both set looks for the sets of its two groups. -/
def MergerTerm.looksUp (term : MergerTerm numBranches) (group1 group2 : Group) : Bool :=
  decide (term.op = .isIn) && decide (readField term.field1Type group1.record term.field1 ≠ 0#64) &&
    decide (readField term.field2Type group2.record term.field2 ≠ 0#64)

/-- The comparators without the lookups. -/
def MergerTerm.compares (term : MergerTerm numBranches) (group1 group2 : Group) : Bool :=
  match term.op with
  | .comp op =>
      mergerComp op term.field1Type term.field2Type group1 term.field1 group2 term.field2 0#64
  | .isIn => false
  | .allen op => mergerAllen op group1 term.field1 group2 term.field2

/-- A group whose grouper computed no aggregations. -/
def Group.Plain (group : Group) : Prop := group.aggrResult.aggrset = none

theorem mergerFunc_plain (term : MergerTerm numBranches) (group1 group2 : Group)
    (plain : group2.Plain) :
    term.func group1 group2 0#64 =
      if term.looksUp group1 group2 then .error .nullPointer
      else .ok (term.compares group1 group2) := by
  have missing : group2.aggrResult.aggrset = none := plain
  rw [MergerTerm.func, MergerTerm.looksUp, MergerTerm.compares]
  cases term.op with
  | comp op => rfl
  | allen op => rfl
  | isIn =>
      simp only [mergerIn, missing]
      by_cases zero : readField term.field1Type group1.record term.field1 = 0#64 ∨
          readField term.field2Type group2.record term.field2 = 0#64
      · rw [if_pos zero, if_neg]
        rcases zero with zero | zero <;> simp [zero]
      · rw [if_neg zero, if_pos]
        rw [not_or] at zero
        simp [zero.1, zero.2]

end Terms

section Loop

variable {numBranches : Nat} (clauses : List (List (MergerTerm numBranches)))
  (groupsets : List (List Group))

/-- The merger asks for a set when it checks the chosen groups. -/
def selectionAsks (selection : List (Nat × Group)) : Bool :=
  clausesAsk (tupleHolds MergerTerm.looksUp (selection.map Prod.snd))
    (tupleHolds MergerTerm.compares (selection.map Prod.snd)) clauses

/-- The merger comes to a selection that asks for a set, before it has kept as many as it
can count. -/
def ComesToLookup : Prop :=
  ∃ before selection after, selections groupsets = before ++ selection :: after ∧
    (before.filter (joinsFirst MergerTerm.compares clauses)).length < 2 ^ 32 ∧
    selectionAsks clauses selection = true

/-- Without membership terms there are no lookups. -/
theorem not_comesToLookup
    (defined : ∀ clause ∈ clauses, ∀ term ∈ clause, term.op ≠ MergerOp.isIn) :
    ¬ ComesToLookup clauses groupsets := by
  rintro ⟨before, selection, after, -, -, asks⟩
  rw [selectionAsks, clausesAsk_none] at asks
  · cases asks
  · intro clause inside term member
    have other := defined clause inside term member
    unfold tupleHolds MergerTerm.looksUp
    split
    · simp [other]
    · rfl

/-- A selection that asks for nothing is passed, and counted if it joins. -/
theorem asked_behind (selection : List (Nat × Group)) (rest : List (List (Nat × Group)))
    (asks : selectionAsks clauses selection = false) (kept : Nat) :
    (∃ before other after, selection :: rest = before ++ other :: after ∧
      kept + (before.filter (joinsFirst MergerTerm.compares clauses)).length < 2 ^ 32 ∧
      selectionAsks clauses other = true) ↔
    ∃ before other after, rest = before ++ other :: after ∧
      (if joinsFirst MergerTerm.compares clauses selection then kept + 1 else kept) +
        (before.filter (joinsFirst MergerTerm.compares clauses)).length < 2 ^ 32 ∧
      selectionAsks clauses other = true := by
  have counted (before : List (List (Nat × Group))) :
      kept + ((selection :: before).filter (joinsFirst MergerTerm.compares clauses)).length =
        (if joinsFirst MergerTerm.compares clauses selection then kept + 1 else kept) +
          (before.filter (joinsFirst MergerTerm.compares clauses)).length := by
    rw [List.filter_cons]
    split
    · rw [List.length_cons]
      omega
    · rfl
  constructor
  · rintro ⟨before, other, after, split, room, asked⟩
    cases before with
    | nil =>
        cases split
        rw [asks] at asked
        cases asked
    | cons head between =>
        cases split
        rw [counted] at room
        exact ⟨between, other, after, rfl, room, asked⟩
  · rintro ⟨between, other, after, rfl, room, asked⟩
    exact ⟨selection :: between, other, after, rfl, by rwa [counted], asked⟩

variable (plain : ∀ groupset ∈ groupsets, ∀ group ∈ groupset, group.Plain)

include plain

theorem chosen_plain (selection : List (Nat × Group))
    (chosen : List.Forall₂ Chosen groupsets selection) (position : Nat) (group : Group)
    (found : (selection.map Prod.snd)[position]? = some group) : group.Plain := by
  induction chosen generalizing position with
  | nil => cases found
  | cons head _ ih =>
      obtain ⟨here, later⟩ := List.forall_mem_cons.mp plain
      cases position with
      | zero =>
          cases found
          exact here _ (List.mem_of_getElem? head)
      | succ position => exact ih later position found

theorem mergerTerm_plain (count : groupsets.length = numBranches) (selection : List (Nat × Group))
    (chosen : List.Forall₂ Chosen groupsets selection) (term : MergerTerm numBranches) :
    mergerTerm MergerTerm.func (groupsets.map GroupfilterResult.of)
        (selection.map fun choice => choice.1 + 1) term =
      lookup (tupleHolds MergerTerm.looksUp (selection.map Prod.snd))
        (tupleHolds MergerTerm.compares (selection.map Prod.snd)) term := by
  obtain ⟨group1, found1, run1⟩ := filteredGroup_ok groupsets selection chosen term.branch1.val
    (by rw [count]; exact term.branch1.isLt)
  obtain ⟨group2, found2, run2⟩ := filteredGroup_ok groupsets selection chosen term.branch2.val
    (by rw [count]; exact term.branch2.isLt)
  have missing := chosen_plain groupsets plain selection chosen _ group2 found2
  simp only [mergerTerm, run1, run2, ok_bind, mergerFunc_plain term group1 group2 missing, lookup,
    tupleHolds, found1, found2]

/-- A tuple that asks for nothing is handled by the comparators' truth values. -/
theorem mergeTuple_plain (count : groupsets.length = numBranches) (selection : List (Nat × Group))
    (chosen : List.Forall₂ Chosen groupsets selection) (mresult : MergerResult) :
    mergeTuple MergerTerm.func clauses (groupsets.map GroupfilterResult.of) mresult
        (selection.map fun choice => choice.1 + 1) =
      if selectionAsks clauses selection then .error .nullPointer
      else mergeTuple (truthFunc MergerTerm.compares) clauses (groupsets.map GroupfilterResult.of)
        mresult (selection.map fun choice => choice.1 + 1) := by
  have calls := funext (mergerTerm_plain groupsets plain count selection chosen)
  rw [mergeTuple_eq MergerTerm.compares clauses groupsets count selection chosen]
  simp only [mergeTuple, calls, checkClauses_lookup,
    matchedTuple_ok groupsets selection chosen, ok_bind, selectionAsks, joinsFirst]
  by_cases asks : clausesAsk (tupleHolds MergerTerm.looksUp (selection.map Prod.snd))
      (tupleHolds MergerTerm.compares (selection.map Prod.snd)) clauses = true
  · simp only [asks, ↓reduceIte, error_bind]
  · simp only [asks, Bool.false_eq_true, ↓reduceIte, ok_bind]
    rfl

/-- The loop over the tuples reaches the first of them that asks for a set. -/
theorem mergeLoop_null_iff (count : groupsets.length = numBranches)
    (rest : List (List (Nat × Group)))
    (chosen : ∀ selection ∈ rest, List.Forall₂ Chosen groupsets selection)
    (mresult : MergerResult) (start : mresult.numGroupTuples < 2 ^ 32) :
    (rest.map fun selection => selection.map fun choice => choice.1 + 1).foldlM
        (mergeTuple MergerTerm.func clauses (groupsets.map GroupfilterResult.of)) mresult =
          .error .nullPointer ↔
      ∃ before selection after, rest = before ++ selection :: after ∧
        mresult.numGroupTuples +
          (before.filter (joinsFirst MergerTerm.compares clauses)).length < 2 ^ 32 ∧
        selectionAsks clauses selection = true := by
  induction rest generalizing mresult with
  | nil =>
      apply iff_of_false
      · intro failed
        cases failed
      · rintro ⟨before, selection, after, split, -⟩
        simp at split
  | cons selection rest ih =>
      obtain ⟨here, later⟩ := List.forall_mem_cons.mp chosen
      rw [List.map_cons, List.foldlM_cons,
        mergeTuple_plain clauses groupsets plain count selection here]
      cases asks : selectionAsks clauses selection with
      | true => exact iff_of_true rfl ⟨[], selection, rest, rfl, start, asks⟩
      | false =>
          rw [if_neg Bool.false_ne_true, mergeTuple_eq _ clauses groupsets count selection here,
            asked_behind clauses selection rest asks]
          by_cases joined : joinsFirst MergerTerm.compares clauses selection = true
          · rw [if_pos joined, if_pos joined]
            by_cases zero : uint32 (mresult.numGroupTuples + 1) = 0
            · apply iff_of_false
              · simp only [realloc, zero, ↓reduceIte, error_bind]
                intro failed
                cases failed
              · rintro ⟨before, other, after, -, room, -⟩
                rw [uint32_succ _ (by omega)] at zero
                omega
            · have exact := uint32_exact mresult.numGroupTuples start zero
              have next := ih later ⟨uint32 (mresult.numGroupTuples + 1),
                uint32 (mresult.totalNumGroupTuples + 1),
                mresult.groupTuples ++ [selection.map Prod.snd]⟩ (uint32_lt _)
              simp only [exact] at next
              simp only [realloc, exact, Nat.add_one_ne_zero, ↓reduceIte, ok_bind]
              exact next
          · rw [if_neg joined, if_neg joined, ok_bind]
            exact ih later _ start

/-- On groups without sets the merger dereferences NULL exactly if it comes to a lookup. -/
theorem merger_null_iff (count : groupsets.length = numBranches) :
    merger MergerTerm.func clauses (groupsets.map GroupfilterResult.of) = .error .nullPointer ↔
      ComesToLookup clauses groupsets := by
  by_cases some_branch : groupsets = []
  · subst some_branch
    subst count
    apply iff_of_false
    · intro failed
      cases failed
    · exact not_comesToLookup clauses [] fun _ _ term _ => term.branch1.elim0
  by_cases nonempty : ∀ groupset ∈ groupsets, groupset ≠ []
  · rw [merger_loop MergerTerm.func clauses groupsets nonempty some_branch,
      mergeLoop_null_iff clauses groupsets plain count _ (selections_chosen groupsets) _
        (by show 0 < 2 ^ 32; decide)]
    simp only [Nat.zero_add, ComesToLookup]
  · simp only [not_forall, not_not] at nonempty
    obtain ⟨groupset, member, rfl⟩ := nonempty
    apply iff_of_false
    · have empty : ((groupsets.map GroupfilterResult.of).any fun gfilterResult =>
          gfilterResult.numFilteredGroups == 0) = true := by
        rw [List.any_eq_true]
        exact ⟨_, List.mem_map_of_mem member, rfl⟩
      rw [merger, if_pos empty]
      intro failed
      cases failed
    · rintro ⟨before, selection, after, split, -, -⟩
      have chosen := selections_chosen groupsets selection (by simp [split])
      obtain ⟨index, inside, same⟩ := List.mem_iff_getElem.mp member
      have choice := chosen.get inside (chosen.length_eq ▸ inside)
      simp only [List.get_eq_getElem, same, Chosen] at choice
      simp at choice

end Loop

end Nfql
