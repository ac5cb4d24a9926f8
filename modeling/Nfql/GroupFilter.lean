import Nfql.GroupRecord
import Nfql.FilterInvariant

set_option autoImplicit false

/- The group filter stage: groupfilter.c. -/
namespace Nfql

structure GroupfilterResult where
  numFilteredGroups : Nat
  filteredGroupset : List Group

/-- The clause and term loops of `groupfilter` over one group. -/
def Branch.satisfied (branch : Branch) (group : Group) : Bool :=
  Clauses.satisfied (fun term : GroupfilterTerm => term.func group) branch.groupfilterClauseset

/-- `for (int i = 0; i < num_groups; i++)`, from some group on. -/
def filterGroups (branch : Branch) : List Group → GroupfilterResult →
    Except Fault GroupfilterResult
  | [], gfilterResult => .ok gfilterResult
  | group :: rest, gfilterResult =>
      if branch.satisfied group then do
        let numFilteredGroups := uint32 (gfilterResult.numFilteredGroups + 1)
        realloc numFilteredGroups
        filterGroups branch rest
          ⟨numFilteredGroups, gfilterResult.filteredGroupset ++ [group]⟩
      else filterGroups branch rest gfilterResult

/-- `groupfilter`, without the output it writes to files. -/
def groupfilter (branch : Branch) (gresult : GrouperResult) : Except Fault GroupfilterResult := do
  let gfilterResult ← filterGroups branch (gresult.groupset.take gresult.numGroups) ⟨0, []⟩
  if gresult.groupset.length < gresult.numGroups then .error .outOfBounds
  else do
    intLoop gresult.numGroups
    .ok gfilterResult

/-- What the group filter is for: some clause has all its terms true. -/
def Branch.passes (branch : Branch) (group : Group) : Bool :=
  Clauses.dnf (fun term : GroupfilterTerm => term.func group) branch.groupfilterClauseset

theorem satisfied_eq_passes (branch : Branch) (group : Group) :
    branch.satisfied group = branch.passes group :=
  Clauses.satisfied_eq_dnf _ _

theorem filterGroups_ok (branch : Branch) (groups : List Group) (kept : List Group)
    (room : kept.length + groups.length < 2 ^ 32) :
    filterGroups branch groups ⟨kept.length, kept⟩ =
      .ok ⟨(kept ++ groups.filter branch.passes).length, kept ++ groups.filter branch.passes⟩ := by
  induction groups generalizing kept with
  | nil => rw [filterGroups, List.filter_nil, List.append_nil]
  | cons group rest ih =>
      rw [List.length_cons] at room
      rw [filterGroups, satisfied_eq_passes]
      by_cases decided : branch.passes group = true
      · have next := uint32_snoc kept group (by omega)
        have later := ih (kept ++ [group])
          (by rw [List.length_append, List.length_singleton]; omega)
        simp only [decided, ↓reduceIte, next, realloc_snoc, ok_bind, later,
          List.filter_cons_of_pos, List.append_assoc, List.singleton_append]
      · have later := ih kept (by omega)
        simp only [decided, Bool.false_eq_true, ↓reduceIte, later,
          List.filter_cons_of_neg decided]

/-- The group filter keeps the groups that pass, in order. -/
theorem groupfilter_ok (branch : Branch) (groups : List Group) (inside : groups.length ≤ intMax) :
    groupfilter branch ⟨groups.length, groups⟩ =
      .ok ⟨(groups.filter branch.passes).length, groups.filter branch.passes⟩ := by
  have room : ([] : List Group).length + groups.length < 2 ^ 32 := by
    rw [intMax] at inside
    rw [List.length_nil]
    omega
  have run := filterGroups_ok branch groups [] room
  simp only [List.length_nil, List.nil_append] at run
  simp only [groupfilter, List.take_length, run, ok_bind, Nat.lt_irrefl, ↓reduceIte,
    intLoop_ok _ inside]

/-- More than `INT_MAX` groups overflow the loop counter. -/
theorem groupfilter_inRange (branch : Branch) (groups : List Group) (result : GroupfilterResult)
    (success : groupfilter branch ⟨groups.length, groups⟩ = .ok result) :
    groups.length ≤ intMax := by
  obtain ⟨kept, -, success⟩ := bind_eq_ok success
  simp only [Nat.lt_irrefl, ↓reduceIte] at success
  by_contra beyond
  rw [intLoop_error _ (Nat.not_le.mp beyond), error_bind] at success
  cases success

end Nfql
