import Nfql.GroupFields

set_option autoImplicit false

/- When the fields saved as common to a group really are. -/
namespace Nfql

open GreedyRuns

/-- The clauses by which records are grouped: one without terms if none is given. -/
def Branch.groupingClauses (branch : Branch) : List (List GrouperTerm) :=
  match branch.grouperClauseset with
  | [] => [[]]
  | clauses => clauses

/-- Records agree on some fields. -/
def AgreeOn (fields : List Field) (a b : Record) : Prop :=
  ∀ field ∈ fields, field.read a = field.read b

theorem groupingClauses_given (branch : Branch) (given : branch.grouperClauseset ≠ []) :
    branch.groupingClauses = branch.grouperClauseset := by
  rw [Branch.groupingClauses]
  split
  · contradiction
  · rfl

section Grouped

variable (libc : Libc) (io : IoHandler) (groupaggregationsEnabled : Bool) (branch : Branch)
  (records : List RecordPtr) (result : GrouperResult)
  (success : grouper libc GrouperFuncs.generated io groupaggregationsEnabled branch
    (FilterResult.of records) = .ok result)

include success in
theorem grouper_members (group : Group) (member : group ∈ result.groupset) :
    group.members ≠ [] ∧ ∀ item ∈ group.members, item ∈ records := by
  obtain ⟨inside, -⟩ := grouper_group libc _ io groupaggregationsEnabled branch records result
    success group member
  exact ⟨groupRuns_nonempty libc _ branch records _ inside,
    groupRuns_subset libc _ branch records _ inside⟩

include success in
/-- Two records meet in some group exactly when they agree on some clause's fields. -/
theorem grouper_same_group
    (keys : ∀ clause ∈ branch.grouperClauseset, ∀ term ∈ clause, term.IsKey)
    (a b : RecordPtr) (memberA : a ∈ records) (memberB : b ∈ records) :
    (∃ group ∈ result.groupset, a ∈ group.members ∧ b ∈ group.members) ↔
      ∃ clause ∈ branch.groupingClauses,
        AgreeOn (clause.map GrouperTerm.key) a.record b.record := by
  by_cases given : branch.grouperClauseset = []
  · have partition := grouper_partition libc _ io groupaggregationsEnabled branch records result
      success
    have members := partition.single given (List.ne_nil_of_mem memberA)
    obtain ⟨group, same, whole⟩ := List.map_eq_singleton_iff.mp members
    constructor
    · intro _
      exact ⟨[], by rw [Branch.groupingClauses, given]; simp, by simp [AgreeOn]⟩
    · intro _
      exact ⟨group, by simp [same], by rwa [whole], by rwa [whole]⟩
  · obtain ⟨blocks, same, grouped⟩ := grouper_groupedBy libc io groupaggregationsEnabled branch
      records result success given
    simp only [groupingClauses_given branch given, same, List.mem_flatten, AgreeOn, List.mem_map,
      forall_exists_index, and_imp, forall_apply_eq_imp_iff₂]
    constructor
    · rintro ⟨group, ⟨block, inside, member⟩, together⟩
      obtain ⟨clause, memberClause, groupedBy⟩ := forall₂_right grouped block inside
      have classes := groupedBy (keys clause memberClause)
      exact ⟨clause, memberClause, (classes.same a memberA b memberB).mp ⟨group, member, together⟩⟩
    · rintro ⟨clause, memberClause, agree⟩
      obtain ⟨block, inside, groupedBy⟩ := forall₂_left grouped clause memberClause
      have classes := groupedBy (keys clause memberClause)
      obtain ⟨group, member, together⟩ := (classes.same a memberA b memberB).mpr agree
      exact ⟨group, ⟨block, inside, member⟩, together⟩

end Grouped

/-- Before aggregations, the named fields of the group record are those of the
group's first member. -/
theorem commonRecord_read (branch : Branch) (first : RecordPtr) (rest : List RecordPtr)
    (field : Field) (member : field ∈ branch.namedFields) :
    field.read (branch.commonRecord (first :: rest)) = field.read first.record :=
  copyFields_read first.record _ branch.namedFields field member

section Common

variable (libc : Libc) (io : IoHandler) (branch : Branch)

/-- Every named field of every group record holds the value of all members. -/
def CommonFields (result : GrouperResult) : Prop :=
  ∀ group ∈ result.groupset, ∀ member ∈ group.members,
    AgreeOn branch.namedFields group.record member.record

/-- The saved fields are common exactly when records that agree on a clause's fields
agree on all named fields. -/
theorem commonFields_iff (records : List RecordPtr) (result : GrouperResult)
    (success : grouper libc GrouperFuncs.generated io false branch (FilterResult.of records) =
      .ok result)
    (keys : ∀ clause ∈ branch.grouperClauseset, ∀ term ∈ clause, term.IsKey) :
    CommonFields branch result ↔
      ∀ clause ∈ branch.groupingClauses, ∀ a ∈ records, ∀ b ∈ records,
        AgreeOn (clause.map GrouperTerm.key) a.record b.record →
          AgreeOn branch.namedFields a.record b.record := by
  have meet := grouper_same_group libc io false branch records result success keys
  constructor
  · intro common clause memberClause a memberA b memberB agree
    obtain ⟨group, member, insideA, insideB⟩ :=
      (meet a b memberA memberB).mpr ⟨clause, memberClause, agree⟩
    intro field named
    rw [← common group member a insideA field named, common group member b insideB field named]
  · intro agree group member item inside field named
    obtain ⟨started, subset⟩ := grouper_members libc io false branch records result success group
      member
    obtain ⟨first, rest, members⟩ := List.exists_cons_of_ne_nil started
    have insideFirst : first ∈ group.members := by simp [members]
    obtain ⟨clause, memberClause, same⟩ := (meet first item (subset first insideFirst)
      (subset item inside)).mp ⟨group, member, insideFirst, inside⟩
    obtain ⟨-, cooked⟩ := grouper_group libc _ io false branch records result success group member
    rw [cooked.record, Branch.groupRecord, if_neg (by decide), members,
      commonRecord_read branch first rest field named]
    exact agree clause memberClause first (subset first insideFirst) item (subset item inside) same
      field named

/-- In every run the saved fields are common exactly when, for each clause, the
accepted records that agree on the clause's fields agree on all named fields. -/
theorem commonFields_trace_iff (branchset : List Branch) (trace : List Record) (data : IoData)
    (results : List (Option FilterResult))
    (filtered : readTrace true io branchset trace = .ok (data, results)) (position : Nat)
    (inQuery : branchset[position]? = some branch) (fresult : FilterResult)
    (ofBranch : results[position]? = some (some fresult)) (result : GrouperResult)
    (success : grouper libc GrouperFuncs.generated io false branch fresult = .ok result)
    (keys : ∀ clause ∈ branch.grouperClauseset, ∀ term ∈ clause, term.IsKey) :
    CommonFields branch result ↔
      ∀ clause ∈ branch.groupingClauses, ∀ a ∈ trace, branch.accepts a = true →
        ∀ b ∈ trace, branch.accepts b = true →
        AgreeOn (clause.map GrouperTerm.key) (copyRecord io.readGetRecordSize a)
            (copyRecord io.readGetRecordSize b) →
          AgreeOn branch.namedFields (copyRecord io.readGetRecordSize a)
            (copyRecord io.readGetRecordSize b) := by
  obtain ⟨-, -, rfl⟩ := readTrace_result io branchset trace data results filtered
  rw [List.getElem?_map, inQuery, Option.map_some, Option.some.injEq, Option.some.injEq] at ofBranch
  subst ofBranch
  have copies := mem_pointers branchset trace io.readGetRecordSize branch
    (List.mem_of_getElem? inQuery)
  rw [commonFields_iff libc io branch _ result success keys]
  constructor
  · intro agree clause member a memberA acceptsA b memberB acceptsB
    obtain ⟨left, insideLeft, sameLeft⟩ := (copies _).mpr ⟨a, memberA, acceptsA, rfl⟩
    obtain ⟨right, insideRight, sameRight⟩ := (copies _).mpr ⟨b, memberB, acceptsB, rfl⟩
    rw [← sameLeft, ← sameRight]
    exact agree clause member left insideLeft right insideRight
  · intro agree clause member left insideLeft right insideRight
    obtain ⟨a, memberA, acceptsA, sameA⟩ := (copies _).mp ⟨left, insideLeft, rfl⟩
    obtain ⟨b, memberB, acceptsB, sameB⟩ := (copies _).mp ⟨right, insideRight, rfl⟩
    rw [← sameA, ← sameB]
    exact agree clause member a memberA acceptsA b memberB acceptsB

end Common

/-- A filter for records whose first or whose second byte is 1. -/
def Branch.either : Branch where
  filterClauseset := [[⟨0, 1#64, 0#64, .eq, .w8⟩], [⟨1, 1#64, 0#64, .eq, .w8⟩]]
  grouperClauseset := []
  aggrClauseTermset := []
  groupfilterClauseset := []

/-- A record of two bytes. -/
def twoBytes (first second : BitVec 8) : Record := fun index =>
  if index = 0 then first else if index = 1 then second else 0#8

def IoHandler.twoBytes : IoHandler := ⟨2, fun _ => 0#64, fun _ => 0#64⟩

/-- A short trace passes through the filter and the grouper of a branch alone. -/
theorem run_alone (io : IoHandler) (branch : Branch) (trace : List Record)
    (short : trace.length < 2 ^ 31 - 1)
    (count : branch.grouperClauseset.length * trace.length < 2 ^ 32) :
    ∃ data result, readTrace true io [branch] trace = .ok (data, [some (FilterResult.of
        (branch.pointers (savedRecords io.readGetRecordSize [branch] trace)))]) ∧
      grouper Libc.insertion GrouperFuncs.generated io false branch (FilterResult.of
        (branch.pointers (savedRecords io.readGetRecordSize [branch] trace))) = .ok result := by
  have accepted := branch.acceptCount_le trace
  have length := pointers_length [branch] trace io.readGetRecordSize branch (by simp)
  obtain ⟨groups, grouped, -⟩ := grouper_ok Libc.insertion GrouperFuncs.generated io false branch
    (branch.pointers (savedRecords io.readGetRecordSize [branch] trace))
    (feasible_of_bounds _ _ _ _ _
      (by rw [length]; exact (Nat.mul_le_mul_left _ accepted).trans_lt count)
      (by rw [length, intMax]; omega))
  exact ⟨_, _, readTrace_short io [branch] trace (by omega), grouped⟩

/-- The same filter, and groups of equal first and second bytes. -/
def Branch.eitherKeys : Branch where
  filterClauseset := Branch.either.filterClauseset
  grouperClauseset := [[⟨0, 0, 0#64, .eq, .w8, .w8, .no⟩, ⟨1, 1, 0#64, .eq, .w8, .w8, .no⟩]]
  aggrClauseTermset := []
  groupfilterClauseset := []

set_option maxRecDepth 100000 in
/-- Two groups of two records, and a record that the filter rejects. -/
theorem commonFields_trace_keys : ∃ data fresult result,
    readTrace true IoHandler.twoBytes [Branch.eitherKeys]
        [twoBytes 1 0, twoBytes 0 1, twoBytes 2 2, twoBytes 1 0, twoBytes 0 1] =
      .ok (data, [some fresult]) ∧
    grouper Libc.insertion GrouperFuncs.generated IoHandler.twoBytes false Branch.eitherKeys
      fresult = .ok result ∧
    (result.groupset.map fun group => group.members.length) = [2, 2] ∧
    CommonFields Branch.eitherKeys result := by
  let trace := [twoBytes 1 0, twoBytes 0 1, twoBytes 2 2, twoBytes 1 0, twoBytes 0 1]
  have filtered := readTrace_short IoHandler.twoBytes [Branch.eitherKeys] trace (by decide)
  have evaluated : (grouper Libc.insertion GrouperFuncs.generated IoHandler.twoBytes false
      Branch.eitherKeys (FilterResult.of (Branch.eitherKeys.pointers
        (savedRecords 2 [Branch.eitherKeys] trace)))).toOption.map
          (fun result => result.groupset.map fun group => group.members.length) = some [2, 2] := by
    decide +kernel
  obtain ⟨result, grouped, sizes⟩ := ok_of_toOption evaluated
  have keys : ∀ clause ∈ Branch.eitherKeys.grouperClauseset, ∀ term ∈ clause, term.IsKey := by
    intro clause member term inside
    rw [List.mem_singleton.mp member] at inside
    rcases List.mem_cons.mp inside with rfl | later
    · exact ⟨rfl, rfl, rfl, rfl⟩
    · rw [List.mem_singleton.mp later]
      exact ⟨rfl, rfl, rfl, rfl⟩
  refine ⟨_, _, result, filtered, grouped, sizes, (commonFields_trace_iff Libc.insertion
    IoHandler.twoBytes Branch.eitherKeys [Branch.eitherKeys] trace _ _ filtered 0 rfl _ rfl result
    grouped keys).mpr fun clause member a _ _ b _ _ agree field named => ?_⟩
  have only : clause = [⟨0, 0, 0#64, .eq, .w8, .w8, .no⟩, ⟨1, 1, 0#64, .eq, .w8, .w8, .no⟩] :=
    List.mem_singleton.mp member
  subst only
  refine agree field ?_
  simpa [Branch.eitherKeys, Branch.either, Branch.namedFields, Branch.filterFields,
    Branch.grouperFields, GrouperTerm.fields, GrouperTerm.key, or_comm, or_left_comm] using named

/-- Two records that pass the filter by different clauses share a group, whose record
claims that both had the first one's bytes. -/
theorem commonFields_fail :
    ¬ ∀ (libc : Libc) (io : IoHandler) (branchset : List Branch) (trace : List Record)
      (data : IoData) (results : List (Option FilterResult)),
      readTrace true io branchset trace = .ok (data, results) →
      ∀ (position : Nat) (branch : Branch), branchset[position]? = some branch →
      ∀ (fresult : FilterResult), results[position]? = some (some fresult) →
      ∀ (result : GrouperResult),
      grouper libc GrouperFuncs.generated io false branch fresult = .ok result →
      (∀ clause ∈ branch.filterClauseset, ∀ term ∈ clause, term.op = .eq ∧ term.delta = 0#64) →
      (∀ clause ∈ branch.grouperClauseset, ∀ term ∈ clause, term.IsKey) →
      branch.namedFields.Pairwise Field.Apart → CommonFields branch result := by
  intro common
  let trace := [twoBytes 1 0, twoBytes 0 1]
  obtain ⟨data, result, filtered, grouped⟩ := run_alone IoHandler.twoBytes Branch.either
    trace (by decide) (by decide)
  have claimed := common Libc.insertion IoHandler.twoBytes [Branch.either] trace data _ filtered 0
    Branch.either rfl _ rfl result grouped (by decide) (by intro clause member; cases member)
    (by simp [Branch.either, Branch.namedFields, Branch.filterFields, Branch.grouperFields,
      Field.Apart, ByteMemory.Apart, Width.bytes])
  rw [commonFields_iff Libc.insertion IoHandler.twoBytes Branch.either _ result grouped
    (by intro clause member; cases member)] at claimed
  have copies := mem_pointers [Branch.either] trace 2 Branch.either (by simp)
  obtain ⟨left, insideLeft, sameLeft⟩ := (copies _).mpr ⟨twoBytes 1 0, by simp [trace], by decide, rfl⟩
  obtain ⟨right, insideRight, sameRight⟩ :=
    (copies _).mpr ⟨twoBytes 0 1, by simp [trace], by decide, rfl⟩
  have same := claimed [] (by simp [Branch.groupingClauses, Branch.either]) left insideLeft right
    insideRight (by simp [AgreeOn]) ⟨0, .w8⟩
    (by simp [Branch.namedFields, Branch.filterFields, Branch.either])
  rw [sameLeft, sameRight] at same
  exact absurd same (by decide)

end Nfql
