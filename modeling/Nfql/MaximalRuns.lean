import Nfql.GrouperPartition

set_option autoImplicit false

/- The groups of a clause are the maximal runs of its greedy scan. -/
namespace Nfql

open GreedyRuns

/-- The position of the member whose field 1 is compared with the member at `index`. -/
def DeltaType.position (optype : DeltaType) (index : Nat) : Nat :=
  match optype with
  | .rel => index - 1
  | .abs | .no => 0

/-- How a term compares the values of its two fields. -/
def GrouperTerm.compare (term : GrouperTerm) (value1 value2 : BitVec 64) : Bool :=
  match term.optype with
  | .no => compareNo term.op value1 value2
  | .abs | .rel => compareDelta term.op value1 value2 term.delta

/-- A term's verdict on a record as member `index` of a group: field 1 is read from an
earlier member, field 2 from the record. -/
def GrouperTerm.Decides (term : GrouperTerm) (members : List RecordPtr) (index : Nat)
    (record2 : Record) (verdict : Bool) : Prop :=
  ∃ member, members[term.optype.position index]? = some member ∧
    term.compare (readField term.field1Type member.record term.fieldOffset1)
      (readField term.field2Type record2 term.fieldOffset2) = verdict

/-- Each member passed all terms when it joined the members before it, and no group
could be continued with the head of the next. -/
structure MaximalGroups (clause : List GrouperTerm) (records : List RecordPtr)
    (groups : List Group) : Prop where
  members : (groups.flatMap Group.members).Perm records
  joined : ∀ group ∈ groups, ∀ index item, 0 < index → group.members[index]? = some item →
    ∀ term ∈ clause, term.Decides group.members index item.record true
  cut : ∀ index group later, groups[index]? = some group → groups[index + 1]? = some later →
    ∃ item, later.members.head? = some item ∧
      ∃ term ∈ clause, term.Decides group.members group.members.length item.record false

section Positions

variable (term : GrouperTerm) (members : List RecordPtr) (index : Nat)

theorem groupMember_take (optype : DeltaType) (started : 0 < index)
    (inside : index ≤ members.length) :
    groupMember optype (members.take index) = members[optype.position index]? := by
  cases optype with
  | rel =>
      rw [groupMember, List.getLast?_eq_getElem?, List.length_take, Nat.min_eq_left inside,
        List.getElem?_take, if_pos (by omega)]
      rfl
  | abs | no =>
      rw [groupMember, List.head?_take, if_neg (by omega), List.head?_eq_getElem?]
      rfl

theorem func_compare (member : RecordPtr) (record2 : Record)
    (chosen : groupMember term.optype members = some member) :
    term.func members record2 =
      term.compare (readField term.field1Type member.record term.fieldOffset1)
        (readField term.field2Type record2 term.fieldOffset2) := by
  rw [GrouperTerm.func, chosen]
  rfl

/-- The comparator of a group that has `index` members decides by these positions. -/
theorem decides_func (started : 0 < index) (inside : index ≤ members.length) (record2 : Record)
    (verdict : Bool) :
    term.Decides members index record2 verdict ↔
      term.func (members.take index) record2 = verdict := by
  have earlier : term.optype.position index < members.length := by
    cases term.optype <;> simp only [DeltaType.position] <;> omega
  have chosen : groupMember term.optype (members.take index) =
      some members[term.optype.position index] := by
    rw [groupMember_take members index _ started inside, List.getElem?_eq_getElem earlier]
  rw [GrouperTerm.Decides, func_compare term _ _ record2 chosen, List.getElem?_eq_getElem earlier]
  simp only [Option.some.injEq, exists_eq_left']

end Positions

section Clause

variable (clause : List GrouperTerm)

theorem maximal_joined {groups : List (List RecordPtr)}
    (maximal : Maximal (clauseAccepts GrouperFuncs.generated clause) groups)
    (members : List RecordPtr) (member : members ∈ groups) (index : Nat) (item : RecordPtr)
    (started : 0 < index) (found : members[index]? = some item) :
    ∀ term ∈ clause, term.Decides members index item.record true := by
  obtain ⟨inside, rfl⟩ := List.getElem?_eq_some_iff.mp found
  have whole : members = members.take index ++ members[index] :: members.drop (index + 1) := by
    rw [← List.drop_eq_getElem_cons inside, List.take_append_drop]
  have accepted := maximal.joined members member _ _ _ whole (by
    rw [← List.length_pos_iff, List.length_take]
    omega)
  intro term inClause
  rw [decides_func term members index started (Nat.le_of_lt inside)]
  exact List.all_eq_true.mp accepted term inClause

theorem maximal_cut {groups : List (List RecordPtr)}
    (maximal : Maximal (clauseAccepts GrouperFuncs.generated clause) groups)
    (nonempty : ∀ members ∈ groups, members ≠ []) (index : Nat) (members later : List RecordPtr)
    (found : groups[index]? = some members) (next : groups[index + 1]? = some later) :
    ∃ item, later.head? = some item ∧
      ∃ term ∈ clause, term.Decides members members.length item.record false := by
  obtain ⟨inside, rfl⟩ := List.getElem?_eq_some_iff.mp found
  obtain ⟨insideNext, rfl⟩ := List.getElem?_eq_some_iff.mp next
  obtain ⟨item, rest, same⟩ :=
    List.exists_cons_of_ne_nil (nonempty _ (List.getElem_mem insideNext))
  have head : groups[index + 1].head? = some item := by rw [same, List.head?_cons]
  have rejected := List.isChain_iff_getElem.mp maximal.cut index insideNext item head
  rw [clauseAccepts, List.all_eq_false] at rejected
  obtain ⟨term, inClause, failed⟩ := rejected
  have started := List.length_pos_iff.mpr (nonempty _ (List.getElem_mem inside))
  refine ⟨item, head, term, inClause, ?_⟩
  rw [decides_func term _ _ started (Nat.le_refl _), List.take_length]
  exact Bool.eq_false_iff.mpr failed

theorem maximalGroups (records sorted : List RecordPtr) (perm : sorted.Perm records)
    (groups : List Group) (cooked : groups.map Group.members =
      runs (clauseAccepts GrouperFuncs.generated clause) sorted) :
    MaximalGroups clause records groups := by
  have maximal := runs_maximal (clauseAccepts GrouperFuncs.generated clause) sorted
  have nonempty := runs_ne_nil (clauseAccepts GrouperFuncs.generated clause) sorted
  rw [← cooked] at maximal nonempty
  refine ⟨?_, ?_, ?_⟩
  · rwa [List.flatMap_def, cooked, runs_flatten]
  · intro group member
    exact maximal_joined clause maximal group.members (List.mem_map_of_mem member)
  · intro index group later found next
    apply maximal_cut clause maximal nonempty index
    · rw [List.getElem?_map, found, Option.map_some]
    · rw [List.getElem?_map, next, Option.map_some]

end Clause

section Grouper

variable (libc : Libc) (io : IoHandler) (groupaggregationsEnabled : Bool) (branch : Branch)
  (records : List RecordPtr)

/-- For each of its clauses the grouper makes the maximal runs of a greedy scan. -/
theorem grouper_maximal (given : branch.grouperClauseset ≠ []) (result : GrouperResult)
    (success : grouper libc GrouperFuncs.generated io groupaggregationsEnabled branch
      (FilterResult.of records) = .ok result) :
    (∃ blocks : List (List Group), result.groupset = blocks.flatten ∧
      List.Forall₂ (fun clause groups => MaximalGroups clause records groups)
        branch.grouperClauseset blocks) ∧
      ∀ (term : GrouperTerm) (members : List RecordPtr) (index : Nat) (record2 : Record)
        (verdict : Bool), 0 < index → index ≤ members.length →
        (term.Decides members index record2 verdict ↔
          term.func (members.take index) record2 = verdict) := by
  constructor
  · obtain ⟨blocks, same, each⟩ := grouper_eachClause libc _ io groupaggregationsEnabled branch
      records (P := fun clause members => ∀ groups : List Group,
        groups.map Group.members = members → MaximalGroups clause records groups)
      (fun clause _ current perm => maximalGroups clause records _
        ((libc.qsortR.perm _ current).trans perm)) given result success
    exact ⟨blocks, same, each.imp fun clause groups holds => holds groups rfl⟩
  · intro term members index record2 verdict started inside
    exact decides_func term members index started inside record2 verdict

end Grouper

/-- A branch that groups by one clause and does nothing else. -/
def Branch.byClause (clause : List GrouperTerm) : Branch := ⟨[], [clause], [], []⟩

/-- `RULE_EQ` with `RULE_REL` and delta 1 on the first byte. -/
def GrouperTerm.nextByte : GrouperTerm := ⟨0, 0, 1#64, .eq, .w8, .w8, .rel⟩

/-- A record with the same value in all bytes. -/
def RecordPtr.ofByte (index : Nat) (value : BitVec 8) : RecordPtr := ⟨index, fun _ => value⟩

theorem byClause_run (clause : List GrouperTerm) (records : List RecordPtr)
    (few : records.length < 2 ^ 32) :
    ∃ result, grouper Libc.insertion GrouperFuncs.generated IoHandler.empty false
      (Branch.byClause clause) (FilterResult.of records) = .ok result := by
  obtain ⟨groups, run, -⟩ := grouper_ok Libc.insertion GrouperFuncs.generated IoHandler.empty false
    (Branch.byClause clause) records (singleClause_feasible Libc.insertion _ false
      (Branch.byClause clause) records clause rfl few (by simp))
  exact ⟨_, run⟩

theorem byClause_members (clause : List GrouperTerm) (records : List RecordPtr)
    (result : GrouperResult)
    (success : grouper Libc.insertion GrouperFuncs.generated IoHandler.empty false
      (Branch.byClause clause) (FilterResult.of records) = .ok result) :
    result.groupset.map Group.members = runs (clauseAccepts GrouperFuncs.generated clause)
      (Libc.insertion.qsortR.run (qsortComp GrouperFuncs.generated clause) records) := by
  rw [cooked_members _ _ _ _ _ _ (grouper_cooked _ _ _ _ _ _ result success).2,
    groupRuns_clauses _ _ _ _ (List.cons_ne_nil _ _), Branch.byClause, clauseRuns, sortings,
    List.zipWith_cons_cons, List.flatten_cons, sortings, List.zipWith_nil_left, List.flatten_nil,
    List.append_nil]

theorem grouper_maximal_bytes :
    ∃ result blocks,
      grouper Libc.insertion GrouperFuncs.generated IoHandler.empty false
        (Branch.byClause [GrouperTerm.nextByte])
        (FilterResult.of [.ofByte 0 4#8, .ofByte 1 1#8, .ofByte 2 2#8]) =
          .ok result ∧
      result.groupset = List.flatten blocks ∧
      List.Forall₂ (fun clause groups => MaximalGroups clause
        [.ofByte 0 4#8, .ofByte 1 1#8, .ofByte 2 2#8] groups)
        [[GrouperTerm.nextByte]] blocks := by
  obtain ⟨result, run⟩ := byClause_run [GrouperTerm.nextByte]
    [.ofByte 0 4#8, .ofByte 1 1#8, .ofByte 2 2#8] (by decide)
  obtain ⟨⟨blocks, same, each⟩, -⟩ := grouper_maximal Libc.insertion IoHandler.empty false
    (Branch.byClause [GrouperTerm.nextByte]) _ (by simp [Branch.byClause]) result run
  exact ⟨result, blocks, run, same, each⟩

end Nfql
