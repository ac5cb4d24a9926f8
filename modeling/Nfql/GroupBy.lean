import Nfql.GrouperPartition

set_option autoImplicit false

/- Grouping by equality of fields is GROUP BY. -/
namespace Nfql

open GreedyRuns ThreeWay

/-- A term that compares a field with itself for equality. -/
structure GrouperTerm.IsKey (term : GrouperTerm) : Prop where
  op : term.op = .eq
  delta : term.delta = 0#64
  offset : term.fieldOffset1 = term.fieldOffset2
  width : term.field1Type = term.field2Type

/-- A term that compares a field with itself and leaves its delta no say. -/
structure GrouperTerm.IsEquality (term : GrouperTerm) : Prop where
  op : term.op = .eq
  exact : term.delta = 0#64 ∨ term.optype = .no
  offset : term.fieldOffset1 = term.fieldOffset2
  width : term.field1Type = term.field2Type

theorem GrouperTerm.IsKey.isEquality {term : GrouperTerm} (isKey : term.IsKey) :
    term.IsEquality := ⟨isKey.op, .inl isKey.delta, isKey.offset, isKey.width⟩

/-- The field of a term that compares a field with itself. -/
def GrouperTerm.key (term : GrouperTerm) : Field := ⟨term.fieldOffset2, term.field2Type⟩

/-- The values of a clause's fields in a record. -/
def keyTuple (clause : List GrouperTerm) (item : RecordPtr) : List Nat :=
  clause.map fun term => (term.key.read item.record).toNat

theorem keyTuple_eq_iff (clause : List GrouperTerm) (a b : RecordPtr) :
    keyTuple clause a = keyTuple clause b ↔
      ∀ term ∈ clause, term.key.read a.record = term.key.read b.record := by
  rw [keyTuple, keyTuple, List.map_inj_left]
  constructor
  · intro same term member
    exact BitVec.eq_of_toNat_eq (same term member)
  · intro same term member
    rw [same term member]

/-- Sorting for a clause orders by its key tuple, lexicographically. -/
theorem qsortComp_byKey (clause : List GrouperTerm) :
    ByKey (qsortComp GrouperFuncs.generated clause) (keyTuple clause) := by
  induction clause with
  | nil =>
      constructor
      · intro a b
        simp [qsortComp, keyTuple]
      · intro a b
        simp [qsortComp, keyTuple]
  | cons term rest ih =>
      have byFirst : ∀ a b : RecordPtr, term.qsortComp a.record b.record =
          compareNat (term.key.read a.record).toNat (term.key.read b.record).toNat :=
        fun _ _ => rfl
      exact ByKey.cons byFirst ih

theorem keyTuple_append (first rest : List GrouperTerm) (item : RecordPtr) :
    keyTuple (first ++ rest) item = keyTuple first item ++ keyTuple rest item :=
  List.map_append

/-- Sorted for a clause means sorted by its first fields, then by the rest. -/
theorem sorted_tuples (first rest : List GrouperTerm) (libc : Libc) (records : List RecordPtr) :
    (libc.qsortR.run (qsortComp GrouperFuncs.generated (first ++ rest)) records).Pairwise
      fun a b => keyTuple first a < keyTuple first b ∨
        keyTuple first a = keyTuple first b ∧ keyTuple rest a ≤ keyTuple rest b := by
  have byKey := qsortComp_byKey (first ++ rest)
  refine (libc.qsortR.sorted _ records byKey.consistent).imp ?_
  intro a b ordered
  have notGreater := mt (byKey.pos a b).mpr (Int.not_lt.mpr ordered)
  rw [keyTuple_append, keyTuple_append] at notGreater
  rcases lex_trichotomy (keyTuple first a) (keyTuple first b) with less | same | greater
  · exact .inl less
  · refine .inr ⟨same, not_lt.mp fun less => notGreater ?_⟩
    rw [same]
    exact List.Lex.append_left _ less _
  · refine absurd (lex_append greater ?_ _ _) notGreater
    simp only [keyTuple, List.length_map]

theorem groupMember_mem (optype : DeltaType) (members : List RecordPtr) (nonempty : members ≠ []) :
    ∃ member ∈ members, groupMember optype members = some member := by
  obtain ⟨first, rest, rfl⟩ := List.exists_cons_of_ne_nil nonempty
  cases optype with
  | rel =>
      exact ⟨_, List.getLast_mem nonempty, List.getLast?_eq_some_getLast nonempty⟩
  | abs | no => exact ⟨first, by simp, rfl⟩

theorem IsEquality_func (term : GrouperTerm) (equality : term.IsEquality)
    (members : List RecordPtr) (record : Record) (nonempty : members ≠ []) :
    ∃ member ∈ members, (term.func members record = true ↔
      term.key.read member.record = term.key.read record) := by
  obtain ⟨member, inside, chosen⟩ := groupMember_mem term.optype members nonempty
  refine ⟨member, inside, ?_⟩
  simp only [GrouperTerm.func, chosen, equality.op, equality.offset, equality.width,
    GrouperTerm.key, Field.read]
  cases optype : term.optype with
  | no => exact compareNo_eq _ _
  | abs | rel =>
      have zero : term.delta = 0#64 := equality.exact.resolve_right (by simp [optype])
      simp only [zero, compareDelta_eq_zero]

/-- Members that share a key accept exactly the records with that key. -/
theorem clauseAccepts_keyed (clause : List GrouperTerm)
    (equalities : ∀ term ∈ clause, term.IsEquality) :
    Keyed (clauseAccepts GrouperFuncs.generated clause) (keyTuple clause) := by
  intro members item value nonempty shared
  have first : ∀ member ∈ members, (keyTuple clause item = value ↔
      ∀ term ∈ clause, term.key.read member.record = term.key.read item.record) := by
    intro member inside
    rw [← shared member inside, keyTuple_eq_iff]
    constructor <;> exact fun same term inside => (same term inside).symm
  have agree : ∀ a ∈ members, ∀ b ∈ members, ∀ term ∈ clause,
      term.key.read a.record = term.key.read b.record := by
    intro a memberA b memberB
    rw [← keyTuple_eq_iff, shared a memberA, shared b memberB]
  obtain ⟨head, rest, rfl⟩ := List.exists_cons_of_ne_nil nonempty
  rw [first head (by simp), clauseAccepts, List.all_eq_true]
  constructor
  · intro accepted term inside
    obtain ⟨member, memberIn, decided⟩ :=
      IsEquality_func term (equalities term inside) _ item.record nonempty
    rw [agree head (by simp) member memberIn term inside]
    exact decided.mp (accepted term inside)
  · intro same term inside
    obtain ⟨member, memberIn, decided⟩ :=
      IsEquality_func term (equalities term inside) _ item.record nonempty
    exact decided.mpr ((agree member memberIn head (by simp) term inside).trans (same term inside))

/-- The runs of a key clause are the classes of records with equal key tuples. -/
theorem runs_keyClasses (libc : Libc) (clause : List GrouperTerm)
    (keys : ∀ term ∈ clause, term.IsKey) (records : List RecordPtr) :
    Classes (keyTuple clause) (runs (clauseAccepts GrouperFuncs.generated clause)
      (libc.qsortR.run (qsortComp GrouperFuncs.generated clause) records)) := by
  have byKey := qsortComp_byKey clause
  apply runs_classes (clauseAccepts_keyed clause fun term member => (keys term member).isEquality)
  refine (libc.qsortR.sorted _ records byKey.consistent).imp ?_
  intro a b ordered
  exact not_lt.mp (mt (byKey.pos a b).mpr (by omega))

/-- What `GROUP BY` makes of the records: the classes of those that agree on all
the clause's fields, in increasing order of the key. -/
structure GroupedBy (clause : List GrouperTerm) (records : List RecordPtr)
    (groups : List Group) : Prop where
  nonempty : ∀ group ∈ groups, group.members ≠ []
  members : (groups.flatMap Group.members).Perm records
  same : ∀ a ∈ records, ∀ b ∈ records,
    (∃ group ∈ groups, a ∈ group.members ∧ b ∈ group.members) ↔
      ∀ term ∈ clause, term.key.read a.record = term.key.read b.record
  numGroups : groups.length = (records.map (keyTuple clause)).dedup.length
  increasing : groups.Pairwise fun group later =>
    ∀ a ∈ group.members, ∀ b ∈ later.members, keyTuple clause a < keyTuple clause b

theorem groupedBy_of_classes (clause : List GrouperTerm) (records : List RecordPtr)
    (groups : List Group) (classes : Classes (keyTuple clause) (groups.map Group.members))
    (perm : (groups.map Group.members).flatten.Perm records) :
    GroupedBy clause records groups := by
  refine ⟨?_, ?_, ?_, ?_, ?_⟩
  · intro group member
    exact classes.nonempty _ (List.mem_map_of_mem member)
  · rwa [List.flatMap_def]
  · intro a memberA b memberB
    rw [← keyTuple_eq_iff, ← classes.same_group a b (perm.mem_iff.mpr memberA)
      (perm.mem_iff.mpr memberB)]
    simp only [List.mem_map, exists_exists_and_eq_and]
  · have count := classes.length_eq
    rw [List.length_map] at count
    rw [count]
    exact (List.Perm.dedup (perm.map (keyTuple clause))).length_eq
  · exact List.pairwise_map.mp classes.increasing

section Clause

variable (libc : Libc) (io : IoHandler) (groupaggregationsEnabled : Bool) (branch : Branch)
  (records : List RecordPtr)

/-- The block of groups that the grouper makes for a key clause is its `GROUP BY`. -/
theorem grouper_groupedBy (result : GrouperResult)
    (success : grouper libc GrouperFuncs.generated io groupaggregationsEnabled branch
      (FilterResult.of records) = .ok result) (given : branch.grouperClauseset ≠ []) :
    ∃ blocks : List (List Group), result.groupset = blocks.flatten ∧
      List.Forall₂ (fun clause groups => (∀ term ∈ clause, term.IsKey) →
        GroupedBy clause records groups) branch.grouperClauseset blocks := by
  have each : ∀ clause ∈ branch.grouperClauseset, ∀ current : List RecordPtr,
      current.Perm records → (∀ term ∈ clause, term.IsKey) → ∀ groups : List Group,
        groups.map Group.members = runs (clauseAccepts GrouperFuncs.generated clause)
          (libc.qsortR.run (qsortComp GrouperFuncs.generated clause) current) →
        GroupedBy clause records groups := by
    intro clause _ current perm keys groups members
    apply groupedBy_of_classes
    · rw [members]
      exact runs_keyClasses libc clause keys current
    · rw [members, runs_flatten]
      exact (libc.qsortR.perm _ current).trans perm
  obtain ⟨blocks, same, cooked⟩ := grouper_eachClause libc _ io groupaggregationsEnabled branch
    records (P := fun clause members => (∀ term ∈ clause, term.IsKey) → ∀ groups : List Group,
      groups.map Group.members = members → GroupedBy clause records groups) each given result success
  exact ⟨blocks, same, cooked.imp fun clause groups holds keys => holds keys groups rfl⟩

/-- For each key clause the grouper makes the groups of its `GROUP BY`. A single
clause never makes too many groups, so that only an aggregation can stop the run. -/
theorem grouper_groupBy :
    (∀ result, grouper libc GrouperFuncs.generated io groupaggregationsEnabled branch
        (FilterResult.of records) = .ok result → branch.grouperClauseset ≠ [] →
      ∃ blocks : List (List Group), result.groupset = blocks.flatten ∧
        List.Forall₂ (fun clause groups => (∀ term ∈ clause, term.IsKey) →
          GroupedBy clause records groups) branch.grouperClauseset blocks) ∧
      ∀ clause, branch.grouperClauseset = [clause] → records.length < 2 ^ 32 →
        (groupaggregationsEnabled = true → records.length ≤ intMax) →
        ∃ result, grouper libc GrouperFuncs.generated io groupaggregationsEnabled branch
          (FilterResult.of records) = .ok result := by
  constructor
  · exact grouper_groupedBy libc io groupaggregationsEnabled branch records
  · intro clause only count inside
    obtain ⟨groups, run, -⟩ := grouper_ok libc _ io groupaggregationsEnabled branch records
      (singleClause_feasible libc _ groupaggregationsEnabled branch records clause only count inside)
    exact ⟨_, run⟩

end Clause

end Nfql
