import Nfql.IgnoredAggregations

set_option autoImplicit false

/- What `RULE_IN` compares: a value of one group with the set another group was
aggregated to. -/
namespace Nfql

open ByteMemory

section Results

variable (libc : Libc) (branch : Branch) (members : List RecordPtr)

/-- The term aggregates its field to a set. -/
def AggrTerm.IsSet (term : AggrTerm) : Prop :=
  term.op.isSet (ifIgnoreAggrTerm branch term.fieldOffset) = true

/-- The term aggregates a common field to its single value. -/
def AggrTerm.IsSingle (term : AggrTerm) : Prop :=
  term.op = .static ∧ ifIgnoreAggrTerm branch term.fieldOffset = true

variable {libc branch members}

/-- A set's values are those of the members. -/
theorem mem_results (term : AggrTerm) (set : term.IsSet branch) (value : BitVec 64) :
    value ∈ term.results libc branch members ↔ value ∈ term.field.values members := by
  rw [AggrTerm.IsSet] at set
  rw [AggrTerm.results, aggrResults, if_pos set, mem_distinct, mem_sorted]

theorem single_results (term : AggrTerm) (single : term.IsSingle branch) (first : RecordPtr)
    (rest : List RecordPtr) :
    term.results libc branch (first :: rest) = [term.field.read first.record] := by
  rw [AggrTerm.results, single.1, single.2]
  rfl

/-- The group was cooked with aggregations: entry `j` of `aggrset` is the result of
term `j`, and the record is the one the terms leave. -/
structure Aggregated (libc : Libc) (branch : Branch) (group : Group) : Prop where
  nonempty : group.members ≠ []
  record : group.record = branch.groupRecord libc true group.members
  aggrset : group.aggrResult.aggrset =
    some (branch.aggrClauseTermset.map fun term => ⟨term.results libc branch group.members⟩)

theorem Aggregated.results {group : Group} (aggregated : Aggregated libc branch group)
    (term : AggrTerm) :
    ∃ value rest, term.results libc branch group.members = value :: rest := by
  apply List.exists_cons_of_ne_nil
  by_cases set : term.op.isSet (ifIgnoreAggrTerm branch term.fieldOffset) = true
  · obtain ⟨first, rest, members⟩ := List.exists_cons_of_ne_nil aggregated.nonempty
    rw [members]
    exact List.ne_nil_of_mem ((mem_results term set _).mpr List.mem_cons_self)
  · rw [AggrTerm.results, aggrResults, if_neg set]
    exact List.cons_ne_nil _ _

theorem cookGroup_aggregated (span : Span) (group : Group) (nonempty : members ≠ [])
    (cook : cookGroup libc true branch members span = .ok group) :
    group.members = members ∧ Aggregated libc branch group := by
  rw [cookGroup_common libc true branch members nonempty, if_pos rfl, grouperAggregations] at cook
  cases run : branch.aggrClauseTermset.foldlM (aggregateTerm libc branch members)
      ([], branch.commonRecord members) with
  | error fault =>
      rw [run] at cook
      cases cook
  | ok result =>
      rw [run] at cook
      cases cook
      rw [aggregations_result nonempty _ _ _ _ run]
      exact ⟨rfl, nonempty, rfl, rfl⟩

end Results

section Membership

variable (atype1 atype2 : Width) (libc : Libc) (branch1 branch2 : Branch) (group1 group2 : Group)
  (term1 term2 : AggrTerm)

/-- The first group's value is one of the second group's values. -/
def HasMember : Prop :=
  ∃ first ∈ group1.members.head?,
    term1.field.read first.record ∈ term2.field.values group2.members

/-- The call stays inside `aggrset`, and its answer is membership. -/
def DecidesMember : Prop :=
  ∃ answer, mergerIn atype1 atype2 group1 term1.fieldOffset group2 term2.fieldOffset 0#64 =
    .ok answer ∧ (answer = true ↔ HasMember group1 group2 term1 term2)

/-- A zero in either record is taken for a field without a single value. -/
def NoValue : Prop :=
  readField atype1 group1.record term1.fieldOffset = 0#64 ∨
    readField atype2 group2.record term2.fieldOffset = 0#64

/-- There are terms whose numbers are the two offsets. -/
def Numbered : Prop :=
  term1.fieldOffset < branch1.aggrClauseTermset.length ∧
    term2.fieldOffset < branch2.aggrClauseTermset.length

/-- The first result of the one is among the results of the other. -/
def NumberedMember : Prop :=
  ∃ other1 ∈ branch1.aggrClauseTermset[term1.fieldOffset]?,
    ∃ other2 ∈ branch2.aggrClauseTermset[term2.fieldOffset]?,
      ∃ value ∈ (other1.results libc branch1 group1.members).head?,
        value ∈ other2.results libc branch2 group2.members

/-- Giving up is right because there is no member, or the numbered terms stand in for
the two fields. -/
def StandsIn : Prop :=
  (NoValue atype1 atype2 group1 group2 term1 term2 ∧ ¬ HasMember group1 group2 term1 term2) ∨
    (¬ NoValue atype1 atype2 group1 group2 term1 term2 ∧ Numbered branch1 branch2 term1 term2 ∧
      (NumberedMember libc branch1 branch2 group1 group2 term1 term2 ↔
        HasMember group1 group2 term1 term2))

variable {atype1 atype2 libc branch1 branch2 group1 group2 term1 term2}

theorem mergerIn_noValue (none : NoValue atype1 atype2 group1 group2 term1 term2) :
    mergerIn atype1 atype2 group1 term1.fieldOffset group2 term2.fieldOffset 0#64 = .ok false :=
  if_pos none

/-- The loop of the comparator searches for the value. -/
theorem any_eq_iff (value1 : BitVec 64) (values2 : List (BitVec 64)) :
    (values2.any fun value2 => compareDelta .eq value1 value2 0#64) = true ↔ value1 ∈ values2 := by
  simp only [List.any_eq_true, compareDelta_eq_zero, exists_eq_right']

/-- Past the guard an offset is a number of a term, or the access is out of bounds. -/
theorem mergerIn_outside (aggregated1 : Aggregated libc branch1 group1)
    (aggregated2 : Aggregated libc branch2 group2)
    (value : ¬ NoValue atype1 atype2 group1 group2 term1 term2)
    (outside : ¬ Numbered branch1 branch2 term1 term2) :
    mergerIn atype1 atype2 group1 term1.fieldOffset group2 term2.fieldOffset 0#64 =
      .error .outOfBounds := by
  rw [mergerIn, if_neg (show ¬ (_ ∨ _) from value), aggregated1.aggrset, aggregated2.aggrset]
  dsimp only
  rw [List.getElem?_map, List.getElem?_map]
  cases found2 : branch2.aggrClauseTermset[term2.fieldOffset]? with
  | none => rfl
  | some other2 =>
      obtain ⟨value2, rest2, results2⟩ := aggregated2.results other2
      have inside2 := (List.getElem?_eq_some_iff.mp found2).1
      have outside1 : branch1.aggrClauseTermset[term1.fieldOffset]? = none := by
        rw [List.getElem?_eq_none_iff, ← Nat.not_lt]
        exact fun inside1 => outside ⟨inside1, inside2⟩
      simp only [Option.map_some, results2, outside1, Option.map_none]

/-- With such terms it compares their results. -/
theorem mergerIn_numbered (aggregated1 : Aggregated libc branch1 group1)
    (aggregated2 : Aggregated libc branch2 group2)
    (value : ¬ NoValue atype1 atype2 group1 group2 term1 term2)
    (numbered : Numbered branch1 branch2 term1 term2) :
    ∃ answer, mergerIn atype1 atype2 group1 term1.fieldOffset group2 term2.fieldOffset 0#64 =
      .ok answer ∧
        (answer = true ↔ NumberedMember libc branch1 branch2 group1 group2 term1 term2) := by
  obtain ⟨other1, found1⟩ : ∃ other1, branch1.aggrClauseTermset[term1.fieldOffset]? = some other1 :=
    ⟨_, List.getElem?_eq_getElem numbered.1⟩
  obtain ⟨other2, found2⟩ : ∃ other2, branch2.aggrClauseTermset[term2.fieldOffset]? = some other2 :=
    ⟨_, List.getElem?_eq_getElem numbered.2⟩
  obtain ⟨value1, rest1, results1⟩ := aggregated1.results other1
  obtain ⟨value2, rest2, results2⟩ := aggregated2.results other2
  rw [mergerIn, if_neg (show ¬ (_ ∨ _) from value), aggregated1.aggrset, aggregated2.aggrset]
  dsimp only
  rw [List.getElem?_map, List.getElem?_map, found1, found2]
  simp only [Option.map_some, results1, results2]
  refine ⟨_, rfl, ?_⟩
  rw [any_eq_iff, NumberedMember, found1, found2]
  simp only [Option.mem_def, Option.some.injEq, exists_eq_left', results1, results2,
    List.head?_cons]

/-- Where the two offsets number the terms themselves, this is the membership asked for. -/
theorem numberedMember_iff (aggregated1 : Aggregated libc branch1 group1)
    (own1 : branch1.aggrClauseTermset[term1.fieldOffset]? = some term1)
    (own2 : branch2.aggrClauseTermset[term2.fieldOffset]? = some term2)
    (single : term1.IsSingle branch1) (set : term2.IsSet branch2) :
    NumberedMember libc branch1 branch2 group1 group2 term1 term2 ↔
      HasMember group1 group2 term1 term2 := by
  obtain ⟨first, rest, members⟩ := List.exists_cons_of_ne_nil aggregated1.nonempty
  rw [NumberedMember, own1, own2, HasMember]
  simp only [Option.mem_def, Option.some.injEq, exists_eq_left', mem_results term2 set, members,
    single_results term1 single, List.head?_cons]

theorem decidesMember_iff (aggregated1 : Aggregated libc branch1 group1)
    (aggregated2 : Aggregated libc branch2 group2) :
    DecidesMember atype1 atype2 group1 group2 term1 term2 ↔
      StandsIn atype1 atype2 libc branch1 branch2 group1 group2 term1 term2 := by
  rw [DecidesMember, StandsIn]
  by_cases none : NoValue atype1 atype2 group1 group2 term1 term2
  · rw [mergerIn_noValue none]
    simp [none]
  by_cases numbered : Numbered branch1 branch2 term1 term2
  · obtain ⟨answer, run, exact⟩ := mergerIn_numbered aggregated1 aggregated2 none numbered
    rw [run]
    simp [none, numbered, exact]
  · rw [mergerIn_outside aggregated1 aggregated2 none numbered]
    simp [none, numbered]

/-- With terms numbered by their own offsets only the guard can be wrong. -/
theorem decidesMember_own_iff (aggregated1 : Aggregated libc branch1 group1)
    (aggregated2 : Aggregated libc branch2 group2)
    (own1 : branch1.aggrClauseTermset[term1.fieldOffset]? = some term1)
    (own2 : branch2.aggrClauseTermset[term2.fieldOffset]? = some term2)
    (single : term1.IsSingle branch1) (set : term2.IsSet branch2) :
    DecidesMember atype1 atype2 group1 group2 term1 term2 ↔
      (NoValue atype1 atype2 group1 group2 term1 term2 →
        ¬ HasMember group1 group2 term1 term2) := by
  have numbered : Numbered branch1 branch2 term1 term2 :=
    ⟨(List.getElem?_eq_some_iff.mp own1).1, (List.getElem?_eq_some_iff.mp own2).1⟩
  rw [decidesMember_iff aggregated1 aggregated2, StandsIn,
    numberedMember_iff aggregated1 own1 own2 single set]
  by_cases none : NoValue atype1 atype2 group1 group2 term1 term2
  · simp only [none, true_and, not_true_eq_false, false_and, or_false, forall_const]
  · simp only [none, numbered, not_false_eq_true, and_self, or_true, false_implies]

end Membership

section Apart

variable {libc : Libc} {branch : Branch} {group : Group}

/-- Nothing else touches the bytes of the set's field. -/
structure AggrTerm.Untouched (branch : Branch) (term : AggrTerm) : Prop where
  named : ∀ field ∈ branch.namedFields, field.Apart term.field
  terms : ∀ other ∈ branch.aggrClauseTermset, other.IsSet branch ∨ other.field.Apart term.field

/-- A set that is not single-valued writes nothing but zeros. -/
theorem byteAt_set (writer : AggrTerm) (set : writer.IsSet branch) (writes : writer.op ≠ .union)
    (members : List RecordPtr) (index : Nat) :
    writer.byteAt libc branch members index = 0#8 := by
  have value : (aggrValue libc writer.op (writer.field.values members)
      (ifIgnoreAggrTerm branch writer.fieldOffset)).getD 0#64 = 0#64 := by
    rw [AggrTerm.IsSet, AggrOp.isSet.eq_def] at set
    split at set
    · rename_i union
      exact absurd union writes
    · rename_i static
      rw [static, (Bool.not_eq_true' _).mp set]
      rfl
    · cases set
  rw [AggrTerm.byteAt, value, byteOf]
  simp

/-- So the group record stays zero there. -/
theorem untouched_zero (aggregated : Aggregated libc branch group) (term : AggrTerm)
    (untouched : term.Untouched branch) :
    readField term.fieldType group.record term.fieldOffset = 0#64 := by
  obtain ⟨first, rest, members⟩ := List.exists_cons_of_ne_nil aggregated.nonempty
  have zero : readField term.fieldType (fun _ => 0#8) term.fieldOffset = 0#64 := by
    rw [readField, load_zero]
  rw [← zero, readField_eq_iff, aggregated.record, Branch.groupRecord, if_pos rfl]
  intro index lower upper
  have outside (field : Field) (apart : field.Apart term.field) : ¬ field.covers index := by
    rintro ⟨below, above⟩
    simp only [Field.Apart, ByteMemory.Apart, AggrTerm.field] at apart
    omega
  rw [aggregated_byte]
  split
  · rw [members, Branch.commonRecord, copyFields_byte, if_neg]
    rintro ⟨field, named, covers⟩
    exact outside field (untouched.named field named) covers
  · rename_i writer last
    obtain ⟨isTerm, written⟩ := lastCovering_some last
    obtain ⟨writes, covers⟩ := of_decide_eq_true written
    rcases untouched.terms writer isTerm with set | apart
    · exact byteAt_set writer set writes _ _
    · exact absurd covers (outside _ apart)

/-- In an ordinary query the comparator never finds a member. -/
theorem mergerIn_untouched (atype1 : Width) (group1 : Group) (field1 : Nat)
    (aggregated : Aggregated libc branch group) (term : AggrTerm)
    (untouched : term.Untouched branch) :
    mergerIn atype1 term.fieldType group1 field1 group term.fieldOffset 0#64 = .ok false :=
  if_pos (.inr (untouched_zero aggregated term untouched))

end Apart

/-- For any two groups and terms, `RULE_IN` stays inside `aggrset` and decides membership
exactly when the terms that have the offsets for numbers stand in for the two. -/
theorem mergerIn_member_iff (libc : Libc) (branch1 branch2 : Branch)
    (members1 members2 : List RecordPtr) (span1 span2 : Span) (group1 group2 : Group)
    (nonempty1 : members1 ≠ []) (nonempty2 : members2 ≠ [])
    (cook1 : cookGroup libc true branch1 members1 span1 = .ok group1)
    (cook2 : cookGroup libc true branch2 members2 span2 = .ok group2)
    (atype1 atype2 : Width) (term1 term2 : AggrTerm) :
    DecidesMember atype1 atype2 group1 group2 term1 term2 ↔
      StandsIn atype1 atype2 libc branch1 branch2 group1 group2 term1 term2 :=
  decidesMember_iff (cookGroup_aggregated span1 group1 nonempty1 cook1).2
    (cookGroup_aggregated span2 group2 nonempty2 cook2).2

/-- The filter names byte 0, which the term then aggregates. -/
def Branch.commonTerm (op : AggrOp) : Branch :=
  ⟨[[⟨0, 5#64, 0#64, .eq, .w8⟩]], [], [⟨0, op, .w8⟩], []⟩

/-- Without a filter nothing is common. -/
def Branch.loneTerm (op : AggrOp) : Branch := ⟨[], [], [⟨0, op, .w8⟩], []⟩

/-- A group of one record, cooked. -/
theorem single_cooked (branch : Branch) (record : RecordPtr) :
    ∃ group, cookGroup Libc.insertion true branch [record]
      (Span.ofMembers IoHandler.empty [record]) = .ok group := by
  obtain ⟨group, cook, -⟩ := cookGroup_ok Libc.insertion IoHandler.empty true branch [record]
    (by simp) fun _ _ => by
      unfold intMax
      simp
  exact ⟨group, cook⟩

/-- The set of byte 1 is the second aggregation as well as the first; the maximum leaves a
value in the group record. -/
def Branch.twiceUnion : Branch :=
  ⟨[], [], [⟨1, .union, .w8⟩, ⟨1, .union, .w8⟩, ⟨1, .max, .w8⟩], []⟩

/-- Byte 1 is common, and repeated by both aggregations. -/
def Branch.twiceStatic : Branch :=
  ⟨[[⟨1, 5#64, 0#64, .eq, .w8⟩]], [], [⟨1, .static, .w8⟩, ⟨1, .static, .w8⟩], []⟩

set_option maxRecDepth 100000 in
/-- The value 5 is in the set of 7, 5 and 9. -/
theorem mergerIn_member_set : ∃ group1 group2,
    cookGroup Libc.insertion true Branch.twiceStatic [.ofByte 0 5#8, .ofByte 1 5#8]
      (Span.ofMembers IoHandler.empty [.ofByte 0 5#8, .ofByte 1 5#8]) = .ok group1 ∧
    cookGroup Libc.insertion true Branch.twiceUnion [.ofByte 0 7#8, .ofByte 1 5#8, .ofByte 2 9#8]
      (Span.ofMembers IoHandler.empty [.ofByte 0 7#8, .ofByte 1 5#8, .ofByte 2 9#8]) =
        .ok group2 ∧
    HasMember group1 group2 ⟨1, .static, .w8⟩ ⟨1, .union, .w8⟩ ∧
    DecidesMember .w8 .w8 group1 group2 ⟨1, .static, .w8⟩ ⟨1, .union, .w8⟩ := by
  obtain ⟨group1, cook1, record1⟩ := ok_of_toOption (show (cookGroup Libc.insertion true
    Branch.twiceStatic [.ofByte 0 5#8, .ofByte 1 5#8] (Span.ofMembers IoHandler.empty
      [.ofByte 0 5#8, .ofByte 1 5#8])).toOption.map (fun group => readField .w8 group.record 1) =
        some 5#64 by decide +kernel)
  obtain ⟨group2, cook2, record2⟩ := ok_of_toOption (show (cookGroup Libc.insertion true
    Branch.twiceUnion [.ofByte 0 7#8, .ofByte 1 5#8, .ofByte 2 9#8] (Span.ofMembers IoHandler.empty
      [.ofByte 0 7#8, .ofByte 1 5#8, .ofByte 2 9#8])).toOption.map
        (fun group => readField .w8 group.record 1) = some 7#64 by decide +kernel)
  obtain ⟨members1, -⟩ := cookGroup_aggregated _ group1 (by simp) cook1
  obtain ⟨members2, -⟩ := cookGroup_aggregated _ group2 (by simp) cook2
  have inside : HasMember group1 group2 ⟨1, .static, .w8⟩ ⟨1, .union, .w8⟩ := by
    unfold HasMember
    rw [members1, members2]
    exact ⟨_, rfl, by decide⟩
  refine ⟨group1, group2, cook1, cook2, inside, (mergerIn_member_iff _ _ _ _ _ _ _ _ _ (by simp)
    (by simp) cook1 cook2 _ _ _ _).mpr (.inr ⟨?_, ⟨by decide, by decide⟩, iff_of_true ?_ inside⟩)⟩
  · unfold NoValue
    rw [record1, record2]
    decide
  · unfold NumberedMember
    rw [members1, members2]
    exact ⟨_, rfl, _, rfl, 5#64, by decide +kernel, by decide +kernel⟩

/-- The union of the single value 5 does not contain 5. -/
theorem mergerIn_member_fail :
    ¬ ∀ (libc : Libc) (branch1 branch2 : Branch) (members1 members2 : List RecordPtr)
      (span1 span2 : Span) (group1 group2 : Group) (term1 term2 : AggrTerm),
      members1 ≠ [] → members2 ≠ [] →
      cookGroup libc true branch1 members1 span1 = .ok group1 →
      cookGroup libc true branch2 members2 span2 = .ok group2 →
      term1 ∈ branch1.aggrClauseTermset → term1.IsSingle branch1 →
      term2 ∈ branch2.aggrClauseTermset → term2.IsSet branch2 →
      DecidesMember term1.fieldType term2.fieldType group1 group2 term1 term2 := by
  intro decides
  obtain ⟨group1, cook1⟩ := single_cooked (Branch.commonTerm .static) (.ofByte 0 5#8)
  obtain ⟨group2, cook2⟩ := single_cooked (Branch.loneTerm .union) (.ofByte 1 5#8)
  obtain ⟨members1, -⟩ := cookGroup_aggregated _ group1 (by simp) cook1
  obtain ⟨members2, aggregated⟩ := cookGroup_aggregated _ group2 (by simp) cook2
  obtain ⟨answer, run, exact⟩ := decides _ _ _ _ _ _ _ group1 group2 ⟨0, .static, .w8⟩
    ⟨0, .union, .w8⟩ (by simp) (by simp) cook1 cook2 (by simp [Branch.commonTerm]) ⟨rfl, rfl⟩
    (by simp [Branch.loneTerm]) rfl
  rw [mergerIn_untouched _ _ _ aggregated ⟨0, .union, .w8⟩
    ⟨by simp [Branch.namedFields, Branch.filterFields, Branch.grouperFields, Branch.loneTerm],
      fun other isTerm => .inl (by
        rw [List.mem_singleton.mp isTerm]
        rfl)⟩] at run
  cases run
  refine absurd (exact.mpr ⟨.ofByte 0 5#8, ?_, ?_⟩) Bool.false_ne_true
  · rw [members1]
    rfl
  · rw [members2]
    decide

end Nfql
