import Nfql.FoldAggregations
import Nfql.GroupFields

set_option autoImplicit false

/- A group filter on the total of a field. -/
namespace Nfql

/-- The sum of a field over the members, or their number, as exact integers. -/
def exactTotal (op : AggrOp) (members : List RecordPtr) (field : Field) : Nat :=
  if op = .count then members.length
  else (members.map fun member => (field.read member.record).toNat).sum

/-- The branch totals a field, which no later aggregation overwrites, and its group
filter has a single term: the total is greater than a threshold. -/
structure Branch.TotalFilter (branch : Branch) (term : AggrTerm) (filter : GroupfilterTerm) :
    Prop where
  aggregated : ∃ before after, branch.aggrClauseTermset = before ++ term :: after ∧
    ∀ other ∈ after, other.field.Apart term.field
  total : term.op = .sum ∨ term.op = .count
  single : branch.groupfilterClauseset = [[filter]]
  field : filter.field = term.fieldOffset
  width : filter.fieldType = term.fieldType
  op : filter.op = .gt
  delta : filter.delta = 0#64

/-- The 64-bit total is exact up to the width it is written with. -/
theorem aggrValue_total (libc : Libc) (branch : Branch) (term : AggrTerm)
    (members : List RecordPtr) (total : term.op = .sum ∨ term.op = .count) :
    ∃ value, aggrValue libc term.op (fieldValues term.fieldType members term.fieldOffset)
        (ifIgnoreAggrTerm branch term.fieldOffset) = some value ∧
      value.toNat % 2 ^ term.fieldType.bits =
        exactTotal term.op members term.field % 2 ^ term.fieldType.bits := by
  have narrow := term.fieldType.pow_bits_dvd
  rcases total with sum | count
  · refine ⟨_, by rw [sum]; rfl, ?_⟩
    rw [foldl_add_toNat, Nat.mod_mod_of_dvd _ narrow, exactTotal, sum, if_neg (by decide),
      BitVec.toNat_ofNat, Nat.zero_mod, Nat.zero_add, fieldValues, List.map_map]
    rfl
  · refine ⟨_, by rw [count]; rfl, ?_⟩
    rw [BitVec.toNat_ofNat, Nat.mod_mod_of_dvd _ narrow, fieldValues_length, exactTotal, count,
      if_pos rfl]

section Stage

variable (libc : Libc) (funcs : GrouperFuncs) (io : IoHandler) (branch : Branch)
  (records : List RecordPtr) (result : GrouperResult) (term : AggrTerm)
  (filter : GroupfilterTerm)

/-- What the group filter compares with the threshold is the truncated total. -/
theorem satisfied_iff_truncated (totalFilter : branch.TotalFilter term filter)
    (success : grouper libc funcs io true branch (FilterResult.of records) = .ok result)
    (group : Group) (member : group ∈ result.groupset) :
    branch.satisfied group = true ↔
      filter.value.toNat < exactTotal term.op group.members term.field % 2 ^ term.fieldType.bits := by
  obtain ⟨before, after, aggregated, apart⟩ := totalFilter.aggregated
  obtain ⟨-, cooked⟩ := grouper_group libc funcs io true branch records result success group member
  obtain ⟨value, written, same⟩ :=
    aggrValue_total libc branch term group.members totalFilter.total
  have stored := aggregations_read libc branch group.members before after term
    (branch.commonRecord group.members) value written apart
  rw [same, ← aggregated] at stored
  have record : group.record = branch.aggrClauseTermset.foldl
      (AggrTerm.apply libc branch group.members) (branch.commonRecord group.members) := by
    rw [cooked.record, Branch.groupRecord, if_pos rfl]
  rw [← record] at stored
  rw [satisfied_eq_passes, Branch.passes, totalFilter.single, Clauses.dnf_iff]
  simp only [List.mem_singleton, exists_eq_left, forall_eq, GroupfilterTerm.func, totalFilter.op,
    totalFilter.delta, totalFilter.field, totalFilter.width, compareDelta_gt_zero]
  rw [← stored]
  rfl

/-- The group filter decides on the true total unless a total above the threshold
is truncated to one that is not. -/
theorem total_decides_iff (totalFilter : branch.TotalFilter term filter)
    (success : grouper libc funcs io true branch (FilterResult.of records) = .ok result)
    (group : Group) (member : group ∈ result.groupset) :
    (branch.satisfied group = true ↔
        filter.value.toNat < exactTotal term.op group.members term.field) ↔
      exactTotal term.op group.members term.field ≤ filter.value.toNat ∨
        filter.value.toNat <
          exactTotal term.op group.members term.field % 2 ^ term.fieldType.bits := by
  rw [satisfied_iff_truncated libc funcs io branch records result term filter totalFilter success
    group member]
  have truncated := Nat.mod_le (exactTotal term.op group.members term.field)
    (2 ^ term.fieldType.bits)
  omega

end Stage

/-- A branch that keeps the groups whose 8-bit field sums up to more than 300. -/
def Branch.heavy : Branch where
  filterClauseset := [[]]
  grouperClauseset := []
  aggrClauseTermset := [⟨0, .sum, .w8⟩]
  groupfilterClauseset := [[⟨0, 300#64, 0#64, .gt, .w8⟩]]

theorem heavy_totalFilter :
    Branch.heavy.TotalFilter ⟨0, .sum, .w8⟩ ⟨0, 300#64, 0#64, .gt, .w8⟩ where
  aggregated := ⟨[], [], rfl, by simp⟩
  total := .inl rfl
  single := rfl
  field := rfl
  width := rfl
  op := rfl
  delta := rfl

/-- Two members with the value 200 make a group that totals 400. -/
theorem heavy_group : ∃ result group, grouper Libc.insertion GrouperFuncs.generated IoHandler.empty
      true Branch.heavy (FilterResult.of [⟨0, fun _ => 200#8⟩, ⟨1, fun _ => 200#8⟩]) = .ok result ∧
    group ∈ result.groupset ∧ exactTotal .sum group.members ⟨0, .w8⟩ = 400 := by
  let records : List RecordPtr := [⟨0, fun _ => 200#8⟩, ⟨1, fun _ => 200#8⟩]
  obtain ⟨groups, run, cooked⟩ := grouper_ok Libc.insertion GrouperFuncs.generated IoHandler.empty
    true Branch.heavy records (feasible_of_bounds _ _ _ _ _ (by decide) (by decide))
  have partition := grouper_partition _ _ _ _ _ _ _ run
  have members := partition.single rfl (by decide)
  obtain ⟨group, rest, rfl⟩ : ∃ group rest, groups = group :: rest := by
    cases groups with
    | nil => cases members
    | cons group rest => exact ⟨group, rest, rfl⟩
  rw [List.map_cons, List.cons.injEq] at members
  refine ⟨_, group, run, by simp, ?_⟩
  rw [members.1]
  rfl

theorem total_decides_heavy : ∃ result group, grouper Libc.insertion GrouperFuncs.generated
      IoHandler.empty true Branch.heavy
      (FilterResult.of [⟨0, fun _ => 200#8⟩, ⟨1, fun _ => 200#8⟩]) = .ok result ∧
    group ∈ result.groupset ∧ exactTotal .sum group.members ⟨0, .w8⟩ = 400 ∧
    ¬ (Branch.heavy.satisfied group = true ↔
      300 < exactTotal .sum group.members ⟨0, .w8⟩) := by
  obtain ⟨result, group, run, member, total⟩ := heavy_group
  refine ⟨result, group, run, member, total, fun decides => ?_⟩
  have fits := (total_decides_iff Libc.insertion GrouperFuncs.generated IoHandler.empty Branch.heavy
    _ result ⟨0, .sum, .w8⟩ ⟨0, 300#64, 0#64, .gt, .w8⟩ heavy_totalFilter run group member).mp decides
  simp only [AggrTerm.field, total] at fits
  exact absurd fits (by decide)

/-- The group that totals 400 does not pass a threshold of 300: its record holds 144. -/
theorem total_not_decided :
    ¬ ∀ (libc : Libc) (io : IoHandler) (branch : Branch) (records : List RecordPtr)
      (result : GrouperResult) (term : AggrTerm) (filter : GroupfilterTerm),
      branch.TotalFilter term filter →
      grouper libc GrouperFuncs.generated io true branch (FilterResult.of records) = .ok result →
      ∀ group ∈ result.groupset, (branch.satisfied group = true ↔
        filter.value.toNat < exactTotal term.op group.members term.field) := by
  intro decides
  obtain ⟨result, group, run, member, total⟩ := heavy_group
  have claimed := decides _ _ _ _ result _ _ heavy_totalFilter run group member
  rw [satisfied_iff_truncated _ _ _ _ _ result _ _ heavy_totalFilter run group member] at claimed
  simp only [AggrTerm.field, total] at claimed
  exact absurd (claimed.mpr (by decide)) (by decide)

end Nfql
