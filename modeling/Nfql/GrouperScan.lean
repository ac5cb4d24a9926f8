import Nfql.Grouper
import Nfql.GreedyRuns

set_option autoImplicit false

/- The in-place scan of the grouper makes the greedy runs of the sorted records. -/
namespace Nfql

open GreedyRuns

/-- All terms of a clause match an item against the members of a group. -/
def clauseAccepts (funcs : GrouperFuncs) (clause : List GrouperTerm) (members : List RecordPtr)
    (item : RecordPtr) : Bool :=
  clause.all fun term => funcs.func term members item.record

/-- The timestamps of a group: those of its first member, widened by the others. -/
def Span.ofMembers (io : IoHandler) : List RecordPtr → Span
  | [] => ⟨0#64, 0#64⟩
  | first :: rest => rest.foldl (Span.widen io) (Span.of io first)

/-- One turn of the scan, once the members of its group are known. -/
def pushGroup (io : IoHandler) (cook : List RecordPtr → Span → Except Fault Group)
    (gresult : GrouperResult) (members : List RecordPtr) : Except Fault GrouperResult := do
  let numGroups := uint32 (gresult.numGroups + 1)
  realloc numGroups
  let group ← cook members (Span.ofMembers io members)
  .ok ⟨numGroups, gresult.groupset ++ [group]⟩

theorem Span.ofMembers_snoc (io : IoHandler) (members : List RecordPtr) (item : RecordPtr)
    (started : members ≠ []) :
    Span.ofMembers io (members ++ [item]) = (Span.ofMembers io members).widen io item := by
  obtain ⟨first, rest, rfl⟩ := List.exists_cons_of_ne_nil started
  simp only [List.cons_append, Span.ofMembers, List.foldl_append, List.foldl_cons, List.foldl_nil]

theorem Span.widen_self (io : IoHandler) (item : RecordPtr) :
    (Span.of io item).widen io item = Span.of io item := by
  simp [Span.widen, Span.of]

section Steps

variable (funcs : GrouperFuncs) (io : IoHandler) (clause : List GrouperTerm)
  (recordset : List (Option RecordPtr)) (lastItem : Nat) (currentItem : Nat)

theorem growGroup_item (members : List RecordPtr) (span : Span) (more : currentItem ≠ lastItem)
    (item : RecordPtr) (found : recordset[currentItem + 1]? = some (some item)) :
    growGroup funcs io clause recordset lastItem currentItem members span =
      if Clauses.stopIndex (fun term => funcs.func term members item.record) clause <
          clause.length then .ok (currentItem, members, span)
      else growGroup funcs io clause recordset lastItem (currentItem + 1) (members ++ [item])
        (span.widen io item) := by
  rw [growGroup, if_neg more]
  split <;> rename_i same <;> rw [found] at same <;> cases same
  rfl

variable (cook : List RecordPtr → Span → Except Fault Group) (gresult : GrouperResult)

theorem scanGroups_outside (found : recordset[currentItem]? = none) :
    scanGroups funcs io clause recordset lastItem cook currentItem gresult =
      .error .outOfBounds := by
  rw [scanGroups]
  split <;> rename_i item <;> rw [found] at item <;> cases item

theorem scanGroups_end (found : recordset[currentItem]? = some none) :
    scanGroups funcs io clause recordset lastItem cook currentItem gresult = .ok gresult := by
  rw [scanGroups]
  split <;> rename_i item <;> rw [found] at item <;> cases item

theorem scanGroups_item (item : RecordPtr)
    (found : recordset[currentItem]? = some (some item)) :
    scanGroups funcs io clause recordset lastItem cook currentItem gresult =
      (do
        realloc (uint32 (gresult.numGroups + 1))
        let (reached, members, span) ←
          growGroup funcs io clause recordset lastItem currentItem [item] (Span.of io item)
        let group ← cook members span
        scanGroups funcs io clause recordset lastItem cook (reached + 1)
          ⟨uint32 (gresult.numGroups + 1), gresult.groupset ++ [group]⟩) := by
  rw [scanGroups]
  split <;> rename_i same <;> rw [found] at same <;> cases same
  cases room : realloc (uint32 (gresult.numGroups + 1)) with
  | error fault => simp only [room, error_bind]
  | ok =>
      simp only [room, ok_bind]
      split
      · rename_i fault failed
        rw [failed, error_bind]
      · rename_i reached members span grown
        rw [grown, ok_bind]
        cases cook members span with
        | error fault => simp only [error_bind]
        | ok group => simp only [ok_bind]

end Steps

section Scan

variable (funcs : GrouperFuncs) (io : IoHandler) (clause : List GrouperTerm)
  (sorted : List RecordPtr) (behind : List (Option RecordPtr))

private theorem recordset_item (index : Nat) (inside : index < sorted.length) :
    (sorted.map some ++ none :: behind)[index]? = some (some sorted[index]) := by
  rw [List.getElem?_append_left (by rwa [List.length_map]), List.getElem?_map,
    List.getElem?_eq_getElem inside]
  rfl

private theorem recordset_end :
    (sorted.map some ++ none :: behind)[sorted.length]? = some none := by
  rw [List.getElem?_append_right (by rw [List.length_map]), List.length_map, Nat.sub_self]
  rfl

/-- The inner loop extends the group greedily and stops at its last member. -/
theorem growGroup_extend (currentItem : Nat) (members : List RecordPtr)
    (inside : currentItem < sorted.length) (started : members ≠ []) :
    growGroup funcs io clause (sorted.map some ++ none :: behind) (sorted.length - 1) currentItem
        members (Span.ofMembers io members) =
      let grown := extend (clauseAccepts funcs clause) members (sorted.drop (currentItem + 1))
      .ok (sorted.length - 1 - grown.2.length, grown.1, Span.ofMembers io grown.1) := by
  induction left : sorted.length - 1 - currentItem generalizing currentItem members with
  | zero =>
      have last : currentItem = sorted.length - 1 := by omega
      have exhausted : sorted.drop (currentItem + 1) = [] := List.drop_eq_nil_of_le (by omega)
      rw [growGroup, if_pos last, exhausted]
      simp only [extend, List.length_nil, Nat.sub_zero, last]
  | succ left ih =>
      have more : currentItem ≠ sorted.length - 1 := by omega
      have next : currentItem + 1 < sorted.length := by omega
      have ahead : sorted.drop (currentItem + 1) =
          sorted[currentItem + 1] :: sorted.drop (currentItem + 1 + 1) :=
        List.drop_eq_getElem_cons next
      rw [growGroup_item _ _ _ _ _ _ _ _ more _ (recordset_item sorted behind _ next), ahead]
      by_cases accepted : clauseAccepts funcs clause members sorted[currentItem + 1] = true
      · have complete : ¬ Clauses.stopIndex
            (fun term => funcs.func term members sorted[currentItem + 1].record) clause <
              clause.length := by
          rw [Clauses.stopIndex_lt, ← clauseAccepts.eq_def, accepted]
          decide
        have step := ih (currentItem + 1) (members ++ [sorted[currentItem + 1]]) next (by simp)
          (by omega)
        rw [Span.ofMembers_snoc io _ _ started] at step
        simp only [if_neg complete, extend, accepted, ↓reduceIte, step]
      · rw [Bool.not_eq_true] at accepted
        have stopped : Clauses.stopIndex
            (fun term => funcs.func term members sorted[currentItem + 1].record) clause <
              clause.length := (Clauses.stopIndex_lt _ _).mpr accepted
        have remaining : (sorted.drop (currentItem + 1 + 1)).length =
            sorted.length - (currentItem + 1 + 1) := List.length_drop
        simp only [if_pos stopped, extend, accepted, Bool.false_eq_true, ↓reduceIte,
          List.length_cons, remaining]
        congr 2
        omega

variable (cook : List RecordPtr → Span → Except Fault Group)

/-- The outer loop handles the runs of the remaining items one by one. -/
theorem scanGroups_runs (currentItem : Nat) (gresult : GrouperResult)
    (inside : currentItem ≤ sorted.length) :
    scanGroups funcs io clause (sorted.map some ++ none :: behind) (sorted.length - 1) cook
        currentItem gresult =
      (runs (clauseAccepts funcs clause) (sorted.drop currentItem)).foldlM
        (pushGroup io cook) gresult := by
  induction left : sorted.length - currentItem using Nat.strong_induction_on
    generalizing currentItem gresult with
  | h left ih =>
      by_cases atEnd : currentItem = sorted.length
      · rw [scanGroups_end _ _ _ _ _ _ _ _ (atEnd ▸ recordset_end sorted behind), atEnd,
          List.drop_length]
        rfl
      · have next : currentItem < sorted.length := by omega
        have ahead : sorted.drop currentItem =
            sorted[currentItem] :: sorted.drop (currentItem + 1) :=
          List.drop_eq_getElem_cons next
        have grow := growGroup_extend funcs io clause sorted behind currentItem
          [sorted[currentItem]] next (by simp)
        rw [Span.ofMembers, List.foldl_nil] at grow
        have suffix := extend_suffix (clauseAccepts funcs clause) [sorted[currentItem]]
          (sorted.drop (currentItem + 1))
        rw [scanGroups_item _ _ _ _ _ _ _ _ _ (recordset_item sorted behind _ next), grow, ahead,
          runs, runsFrom_extend, List.foldlM_cons, pushGroup]
        -- what is left after this group is again a suffix of the sorted records
        generalize extend (clauseAccepts funcs clause) [sorted[currentItem]]
          (sorted.drop (currentItem + 1)) = grown at suffix ⊢
        have shorter := suffix.length_le
        rw [List.length_drop] at shorter
        have rest : sorted.drop (sorted.length - 1 - grown.2.length + 1) = grown.2 := by
          have position : sorted.length - 1 - grown.2.length + 1 =
              sorted.length - grown.2.length := by omega
          rw [position]
          exact (List.suffix_iff_eq_drop.mp (suffix.trans (List.drop_suffix _ _))).symm
        cases realloc (uint32 (gresult.numGroups + 1)) with
        | error fault => rfl
        | ok =>
            simp only [ok_bind]
            cases cook grown.1 (Span.ofMembers io grown.1) with
            | error fault => rfl
            | ok group =>
                simp only [ok_bind]
                rw [ih _ (by omega) (sorted.length - 1 - grown.2.length + 1) _ (by omega) rfl, rest]

end Scan

end Nfql
