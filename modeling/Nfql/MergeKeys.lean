import Nfql.CommonFields
import Nfql.MaximalRuns

set_option autoImplicit false

/- Merging groups on their keys. -/
namespace Nfql

open GreedyRuns

/-- The branch groups by one clause, in which the term compares a field with itself,
and aggregates that field, if at all, only by operators that leave or repeat it. -/
structure Branch.KeyedBy (branch : Branch) (term : GrouperTerm) : Prop where
  clause : ∃ clause, branch.grouperClauseset = [clause] ∧ term ∈ clause
  isKey : term.IsKey
  untouched : ∀ aggr ∈ branch.aggrClauseTermset,
    aggr.field.Apart term.key ∨ aggr.op = .union ∨
      aggr.op ∈ [AggrOp.static, .min, .max] ∧ aggr.field = term.key

section Keyed

variable (libc : Libc) (io : IoHandler) (groupaggregationsEnabled : Bool) (branch : Branch)
  (records : List RecordPtr) (result : GrouperResult) (term : GrouperTerm)

theorem KeyedBy_named (keyed : branch.KeyedBy term) : term.key ∈ branch.namedFields := by
  obtain ⟨clause, only, member⟩ := keyed.clause
  have fields : term.fields = [term.key] := by
    rw [GrouperTerm.fields, if_neg (by simp [keyed.isKey.offset]), keyed.isKey.width]
    rfl
  simp only [Branch.namedFields, Branch.grouperFields, only, List.mem_append, List.mem_flatMap,
    List.mem_singleton, exists_eq_left]
  exact .inr ⟨term, member, by simp [fields]⟩

theorem KeyedBy_ignored (keyed : branch.KeyedBy term) :
    ifIgnoreAggrTerm branch term.key.offset = true := by
  obtain ⟨clause, only, member⟩ := keyed.clause
  rw [ifIgnoreAggrTerm, Bool.or_eq_true]
  refine .inr (List.any_eq_true.mpr ⟨clause, by simp [only], ?_⟩)
  exact List.any_eq_true.mpr ⟨term, member, by simp [GrouperTerm.key]⟩

/-- The members of a group share the key, whatever the clause's other terms are. -/
theorem keyed_shared (keyed : branch.KeyedBy term)
    (success : grouper libc GrouperFuncs.generated io groupaggregationsEnabled branch
      (FilterResult.of records) = .ok result)
    (group : Group) (member : group ∈ result.groupset) :
    ∀ a ∈ group.members, ∀ b ∈ group.members,
      term.key.read a.record = term.key.read b.record := by
  obtain ⟨clause, only, inside⟩ := keyed.clause
  obtain ⟨run, -⟩ := grouper_group libc _ io groupaggregationsEnabled branch records result success
    group member
  rw [groupRuns_clauses libc _ branch records (by simp [only]), only] at run
  refine clauseRuns_forall (P := fun run => ∀ a ∈ run, ∀ b ∈ run,
    term.key.read a.record = term.key.read b.record) libc _ _ records ?_ _ run
  intro other single sorted _
  rw [List.mem_singleton.mp single]
  refine runs_constant ?_ sorted
  intro members item nonempty accepted
  obtain ⟨first, memberFirst, decided⟩ :=
    IsEquality_func term keyed.isKey.isEquality members item.record nonempty
  exact ⟨first, memberFirst, decided.mp (List.all_eq_true.mp accepted term inside)⟩

private theorem keyed_aggregations (keyed : branch.KeyedBy term) (first : RecordPtr)
    (rest : List RecordPtr) (terms : List AggrTerm)
    (subset : ∀ aggr ∈ terms, aggr ∈ branch.aggrClauseTermset) (record : Record)
    (holds : term.key.read record = term.key.read first.record) :
    term.key.read (terms.foldl (AggrTerm.apply libc branch (first :: rest)) record) =
      term.key.read first.record := by
  induction terms generalizing record with
  | nil => exact holds
  | cons aggr later ih =>
      rw [List.foldl_cons]
      refine ih (fun other member => subset other (by simp [member])) _ ?_
      rcases keyed.untouched aggr (subset aggr (by simp)) with apart | union | ⟨repeats, same⟩
      · rw [AggrTerm.apply, recordWith_apart _ _ _ _ apart, holds]
      · rw [AggrTerm.apply, union]
        exact holds
      · have offset : aggr.fieldOffset = term.key.offset := congrArg Field.offset same
        have width : aggr.fieldType = term.key.width := congrArg Field.width same
        have value : aggrValue libc aggr.op
            (fieldValues aggr.fieldType (first :: rest) aggr.fieldOffset)
            (ifIgnoreAggrTerm branch aggr.fieldOffset) = some (term.key.read first.record) := by
          rw [offset, width, KeyedBy_ignored branch term keyed]
          simp only [List.mem_cons, List.not_mem_nil, or_false] at repeats
          rcases repeats with static | min | max
          · rw [static]
            rfl
          · rw [min]
            rfl
          · rw [max]
            rfl
        rw [AggrTerm.apply, value, same]
        apply BitVec.eq_of_toNat_eq
        refine (readField_writeField _ _ _ _).trans ?_
        exact Nat.mod_eq_of_lt (readField_lt _ _ _)

/-- The group record holds the shared key. -/
theorem keyed_record (keyed : branch.KeyedBy term)
    (success : grouper libc GrouperFuncs.generated io groupaggregationsEnabled branch
      (FilterResult.of records) = .ok result)
    (group : Group) (member : group ∈ result.groupset) :
    ∀ item ∈ group.members, term.key.read group.record = term.key.read item.record := by
  intro item inside
  obtain ⟨run, cooked⟩ := grouper_group libc _ io groupaggregationsEnabled branch records result
    success group member
  obtain ⟨first, rest, members⟩ := List.exists_cons_of_ne_nil
    (groupRuns_nonempty libc _ branch records _ run)
  have common := commonRecord_read branch first rest term.key (KeyedBy_named branch term keyed)
  have shared := keyed_shared libc io groupaggregationsEnabled branch records result term keyed
    success group member first (by simp [members]) item inside
  rw [cooked.record, Branch.groupRecord, members, ← shared]
  split
  · exact keyed_aggregations libc branch term keyed first rest _ (fun _ member => member) _ common
  · exact common

end Keyed

/-- A `RULE_EQ` merger term on two keys holds exactly if the shared values are equal
and not zero, the value that also stands for a field that is not single-valued. -/
theorem merger_eq_iff {numBranches : Nat} (libc : Libc) (io : IoHandler)
    (groupaggregationsEnabled : Bool) (branch1 branch2 : Branch) (term1 term2 : GrouperTerm)
    (keyed1 : branch1.KeyedBy term1) (keyed2 : branch2.KeyedBy term2)
    (records1 records2 : List RecordPtr) (result1 result2 : GrouperResult)
    (success1 : grouper libc GrouperFuncs.generated io groupaggregationsEnabled branch1
      (FilterResult.of records1) = .ok result1)
    (success2 : grouper libc GrouperFuncs.generated io groupaggregationsEnabled branch2
      (FilterResult.of records2) = .ok result2)
    (group1 group2 : Group) (member1 : group1 ∈ result1.groupset)
    (member2 : group2 ∈ result2.groupset) (term : MergerTerm numBranches)
    (op : term.op = .comp .eq) (field1 : term.field1 = term1.key.offset)
    (field2 : term.field2 = term2.key.offset) (width1 : term.field1Type = term1.key.width)
    (width2 : term.field2Type = term2.key.width) :
    ∃ value1 value2, (∀ item ∈ group1.members, term1.key.read item.record = value1) ∧
      (∀ item ∈ group2.members, term2.key.read item.record = value2) ∧
      (term.func group1 group2 0#64 = .ok true ↔ value1 = value2 ∧ value1 ≠ 0#64) := by
  have holds1 := keyed_record libc io groupaggregationsEnabled branch1 records1 result1 term1 keyed1
    success1 group1 member1
  have holds2 := keyed_record libc io groupaggregationsEnabled branch2 records2 result2 term2 keyed2
    success2 group2 member2
  refine ⟨term1.key.read group1.record, term2.key.read group2.record,
    fun item inside => (holds1 item inside).symm, fun item inside => (holds2 item inside).symm, ?_⟩
  rw [MergerTerm.func, op, field1, field2, width1, width2, Except.ok.injEq]
  exact mergerComp_eq_zero _ _ _ _ _ _

/-- A term that groups by the first byte. -/
def GrouperTerm.firstByte : GrouperTerm := ⟨0, 0, 0#64, .eq, .w8, .w8, .no⟩

def Branch.byFirstByte : Branch := ⟨[[]], [[GrouperTerm.firstByte]], [], []⟩

theorem firstByte_keyed : Branch.byFirstByte.KeyedBy GrouperTerm.firstByte where
  clause := ⟨[GrouperTerm.firstByte], rfl, by simp⟩
  isKey := ⟨rfl, rfl, rfl, rfl⟩
  untouched aggr member := by cases member

/-- A single record makes a group of its own. -/
theorem firstByte_group (item : RecordPtr) : ∃ result group, grouper Libc.insertion
      GrouperFuncs.generated IoHandler.empty true Branch.byFirstByte (FilterResult.of [item]) =
        .ok result ∧ group ∈ result.groupset ∧ group.members = [item] := by
  obtain ⟨groups, run, -⟩ := grouper_ok Libc.insertion GrouperFuncs.generated IoHandler.empty true
    Branch.byFirstByte [item] (feasible_of_bounds _ _ _ _ _
      (Nat.lt_of_le_of_lt (Nat.le_refl 1) (by decide)) (Nat.le_trans (Nat.le_refl 1) (by decide)))
  have meet := (grouper_same_group _ _ _ _ _ _ run (by
    intro clause member term inside
    rw [List.mem_singleton.mp member] at inside
    rw [List.mem_singleton.mp inside]
    exact firstByte_keyed.isKey) item item (by simp) (by simp)).mpr
      ⟨_, List.mem_singleton_self _, fun _ _ => rfl⟩
  obtain ⟨group, member, inside, -⟩ := meet
  have partition := grouper_partition _ _ _ _ _ _ _ run
  have overall := partition.overall (by decide)
  have whole : (groups.flatMap Group.members) = [item] := by
    refine List.perm_singleton.mp (overall.trans ?_)
    simp [Branch.byFirstByte]
  refine ⟨_, group, run, member, ?_⟩
  have sublist : group.members.Sublist [item] := by
    rw [← whole, List.flatMap_def]
    exact List.sublist_flatten_of_mem (List.mem_map_of_mem member)
  exact sublist.eq_of_length_le (List.length_pos_of_mem inside)

set_option maxRecDepth 100000 in
/-- The groups of a trace by its first byte. -/
theorem firstByte_groups : ∃ result, grouper Libc.insertion GrouperFuncs.generated
      IoHandler.empty true Branch.byFirstByte
      (FilterResult.of [.ofByte 0 4#8, .ofByte 1 1#8, .ofByte 2 4#8]) = .ok result ∧
    (result.groupset.map fun group => group.members.map fun item =>
      GrouperTerm.firstByte.key.read item.record) = [[1#64], [4#64, 4#64]] :=
  ok_of_toOption (by decide +kernel)

/-- Two groups of two records that share the key 4 merge. -/
theorem merger_eq_four : ∃ result group, grouper Libc.insertion GrouperFuncs.generated
      IoHandler.empty true Branch.byFirstByte
      (FilterResult.of [.ofByte 0 4#8, .ofByte 1 1#8, .ofByte 2 4#8]) = .ok result ∧
    group ∈ result.groupset ∧ group.members.length = 2 ∧
    (MergerTerm.firstBytes (.comp .eq)).func group group 0#64 = .ok true := by
  obtain ⟨result, run, keys⟩ := firstByte_groups
  obtain ⟨group, member, four⟩ := List.mem_map.mp
    (keys ▸ List.mem_cons_of_mem [1#64] List.mem_cons_self : [4#64, 4#64] ∈ result.groupset.map _)
  obtain ⟨value1, value2, shared1, shared2, merges⟩ := merger_eq_iff Libc.insertion IoHandler.empty
    true Branch.byFirstByte Branch.byFirstByte GrouperTerm.firstByte GrouperTerm.firstByte
    firstByte_keyed firstByte_keyed _ _ result result run run group group member member
    (MergerTerm.firstBytes (.comp .eq)) rfl rfl rfl rfl rfl
  obtain ⟨item, inside, value⟩ := List.mem_map.mp
    (four ▸ List.mem_cons_self : 4#64 ∈ group.members.map _)
  have length := congrArg List.length four
  rw [List.length_map] at length
  refine ⟨result, group, run, member, length, merges.mpr ⟨?_, ?_⟩⟩
  · rw [← shared1 item inside, ← shared2 item inside]
  · rw [← shared1 item inside, value]
    decide

/-- Groups that share the key zero do not merge. -/
theorem merger_eq_zero :
    ¬ ∀ (libc : Libc) (io : IoHandler) (branch1 branch2 : Branch) (term1 term2 : GrouperTerm),
      branch1.KeyedBy term1 → branch2.KeyedBy term2 →
      ∀ (records1 records2 : List RecordPtr) (result1 result2 : GrouperResult),
      grouper libc GrouperFuncs.generated io true branch1 (FilterResult.of records1) =
        .ok result1 →
      grouper libc GrouperFuncs.generated io true branch2 (FilterResult.of records2) =
        .ok result2 →
      ∀ group1 ∈ result1.groupset, ∀ group2 ∈ result2.groupset, ∀ term : MergerTerm 2,
      term.op = .comp .eq → term.field1 = term1.key.offset → term.field2 = term2.key.offset →
      term.field1Type = term1.key.width → term.field2Type = term2.key.width →
      (term.func group1 group2 0#64 = .ok true ↔
        ∀ a ∈ group1.members, ∀ b ∈ group2.members,
          term1.key.read a.record = term2.key.read b.record) := by
  intro merges
  obtain ⟨result, group, run, member, members⟩ := firstByte_group ⟨0, fun _ => 0#8⟩
  have claimed := merges Libc.insertion IoHandler.empty _ _ _ _ firstByte_keyed firstByte_keyed _ _
    result result run run group member group member (MergerTerm.firstBytes (.comp .eq))
    rfl rfl rfl rfl rfl
  have zero := keyed_record _ _ _ _ _ _ _ firstByte_keyed run group member ⟨0, fun _ => 0#8⟩
    (by simp [members])
  have equal := claimed.mpr (by
    rw [members]
    intro a memberA b memberB
    rw [List.mem_singleton.mp memberA, List.mem_singleton.mp memberB])
  rw [MergerTerm.func] at equal
  exact ((mergerComp_eq_zero _ _ _ _ _ _).mp (Except.ok.inj equal)).2 zero

end Nfql
