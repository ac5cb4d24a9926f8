import Nfql.ChainClusters
import Nfql.ExactComparators
import Nfql.GroupBy
import Nfql.MaximalRuns

set_option autoImplicit false

/- Grouping by keys and a relative delta is single-linkage clustering, but for the
windows that wrap. -/
namespace Nfql

open ChainClusters GreedyRuns ThreeWay DeltaWindow

/-- A `RULE_EQ` term that compares a field with itself in the member before. -/
structure GrouperTerm.IsRelative (term : GrouperTerm) : Prop where
  op : term.op = .eq
  optype : term.optype = .rel
  offset : term.fieldOffset1 = term.fieldOffset2
  width : term.field1Type = term.field2Type

/-- The value a term's field has in a record. -/
def GrouperTerm.value (term : GrouperTerm) (item : RecordPtr) : Nat :=
  (term.key.read item.record).toNat

/-- Records share a group exactly if they agree on the keys and are linked by a chain of
records with those keys, in which values of the last term's field differ by its delta
at most. -/
def ChainClustered (keys : List GrouperTerm) (term : GrouperTerm) (records : List RecordPtr)
    (groups : List Group) : Prop :=
  Clusters (keyTuple keys) term.value term.delta.toNat records (groups.map Group.members)

/-- The window of width `2 * delta` around `value` reaches below neither zero nor, past
the end of the 64-bit range, the other value. -/
def windowFits (delta other value : Nat) : Prop :=
  delta ≤ value ∧ (value + delta < 2 ^ 64 ∨ other + 2 ^ 64 ≤ value + delta)

/-- Whenever two records with the same keys are next to each other in value, and near
enough to be linked, the window around the greater value fits. -/
def WindowsFit (keys : List GrouperTerm) (term : GrouperTerm) (records : List RecordPtr) : Prop :=
  NeighboursFit (keyTuple keys) term.value term.delta.toNat (windowFits term.delta.toNat) records

section Clause

variable (keys : List GrouperTerm) (term : GrouperTerm)

/-- Sorted for the clause means sorted by the keys, then by the last field. -/
theorem sorted_before (libc : Libc) (records : List RecordPtr) :
    (libc.qsortR.run (qsortComp GrouperFuncs.generated (keys ++ [term])) records).Pairwise
      (Before (keyTuple keys) term.value) := by
  refine (sorted_tuples keys [term] libc records).imp ?_
  rintro a b (less | ⟨same, le⟩)
  · exact .inl less
  · refine .inr ⟨same, Nat.not_lt.mp fun less => ?_⟩
    exact not_lt.mpr le (List.Lex.rel less)

theorem relative_func (relative : term.IsRelative) (members : List RecordPtr) (a : RecordPtr)
    (last : members.getLast? = some a) (record2 : Record) :
    term.func members record2 =
      compareDelta .eq (term.key.read a.record) (term.key.read record2) term.delta := by
  simp only [GrouperTerm.func, groupMember, relative.optype, last, relative.op, relative.offset,
    relative.width, GrouperTerm.key, Field.read]

/-- A sorted pair passes the comparator when it is near and its window fits. -/
theorem compare_link (a b : RecordPtr) (le : term.value a ≤ term.value b) :
    compareDelta .eq (term.key.read a.record) (term.key.read b.record) term.delta = true ↔
      term.value b ≤ term.value a + term.delta.toNat ∧
        windowFits term.delta.toNat (term.value a) (term.value b) := by
  have delta_lt := term.delta.isLt
  rw [compareDelta_eq_iff, SubFits, AddFits, windowFits]
  simp only [GrouperTerm.value] at le ⊢
  omega

/-- What the clause accepts after a group of records with the same keys. -/
theorem clauseAccepts_link (isKey : ∀ key ∈ keys, key.IsKey) (relative : term.IsRelative)
    (members : List RecordPtr) (a b : RecordPtr) (last : members.getLast? = some a)
    (shared : ∀ member ∈ members, keyTuple keys member = keyTuple keys a)
    (before : Before (keyTuple keys) term.value a b) :
    clauseAccepts GrouperFuncs.generated (keys ++ [term]) members b = true ↔
      Link (keyTuple keys) term.value term.delta.toNat (windowFits term.delta.toNat) a b := by
  have started : members ≠ [] := by
    rintro rfl
    cases last
  have byKeys := clauseAccepts_keyed keys (fun key member => (isKey key member).isEquality) members
    b _ started shared
  have byTerm : GrouperFuncs.generated.func term members b.record =
      compareDelta .eq (term.key.read a.record) (term.key.read b.record) term.delta :=
    relative_func term relative members a last b.record
  rw [clauseAccepts, List.all_append, Bool.and_eq_true, ← clauseAccepts, byKeys, List.all_cons,
    List.all_nil, Bool.and_true, byTerm, Link]
  constructor
  · rintro ⟨same, accepted⟩
    exact ⟨same.symm, (compare_link term a b (before.le same.symm)).mp accepted⟩
  · rintro ⟨same, near⟩
    exact ⟨same.symm, (compare_link term a b (before.le same)).mpr near⟩

/-- No run mixes records with different keys. -/
theorem runs_sameKeys (isKey : ∀ key ∈ keys, key.IsKey) (sorted : List RecordPtr) :
    ∀ group ∈ runs (clauseAccepts GrouperFuncs.generated (keys ++ [term])) sorted,
      ∀ a ∈ group, ∀ b ∈ group, keyTuple keys a = keyTuple keys b := by
  apply (runs_maximal (clauseAccepts GrouperFuncs.generated (keys ++ [term])) sorted).constant
  intro group item value started shared accepted
  rw [clauseAccepts, List.all_append, Bool.and_eq_true, ← clauseAccepts] at accepted
  exact (clauseAccepts_keyed keys (fun key member => (isKey key member).isEquality) group item
    value started shared).mp accepted.1

/-- The runs of the clause cut wherever neighbours are not linked. -/
theorem runs_link (isKey : ∀ key ∈ keys, key.IsKey) (relative : term.IsRelative)
    (sorted : List RecordPtr) (order : sorted.Pairwise (Before (keyTuple keys) term.value)) :
    LinkRuns (Link (keyTuple keys) term.value term.delta.toNat (windowFits term.delta.toNat))
      (runs (clauseAccepts GrouperFuncs.generated (keys ++ [term])) sorted) := by
  have maximal := runs_maximal (clauseAccepts GrouperFuncs.generated (keys ++ [term])) sorted
  have nonempty := runs_ne_nil (clauseAccepts GrouperFuncs.generated (keys ++ [term])) sorted
  have flat := runs_flatten (clauseAccepts GrouperFuncs.generated (keys ++ [term])) sorted
  have constant := runs_sameKeys keys term isKey sorted
  rw [← flat] at order
  refine ⟨nonempty, ?_, ?_⟩
  · intro group member
    rw [List.isChain_iff_forall_rel_of_append_cons_cons]
    intro a b front back same
    have inner := order.sublist (List.sublist_flatten_of_mem member)
    rw [same] at inner
    have before : Before (keyTuple keys) term.value a b :=
      (List.pairwise_cons.mp (List.pairwise_append.mp inner).2.1).1 b (by simp)
    rw [← clauseAccepts_link keys term isKey relative (front ++ [a]) a b (by simp) ?_ before]
    · exact maximal.joined group member (front ++ [a]) b back (by simp [same]) (by simp)
    · intro other inside
      have inGroup : other ∈ group := by
        rw [same]
        simp only [List.mem_append, List.mem_singleton] at inside
        rcases inside with early | rfl <;> simp [*]
      exact constant group member other inGroup a (by simp [same])
  · rw [List.isChain_iff_forall_rel_of_append_cons_cons]
    intro group later front back same a last b head linked
    have memberGroup :
        group ∈ runs (clauseAccepts GrouperFuncs.generated (keys ++ [term])) sorted := by
      simp [same]
    have inside : a ∈ group := List.mem_of_getLast? last
    have insideB : b ∈ later := List.mem_of_mem_head? head
    have before : Before (keyTuple keys) term.value a b := by
      rw [same, List.flatten_append, List.flatten_cons, List.flatten_cons] at order
      have both := (List.pairwise_append.mp order).2.1
      exact (List.pairwise_append.mp both).2.2 a inside b (by simp [insideB])
    have accepted := (clauseAccepts_link keys term isKey relative group a b last
      (fun other member => constant group memberGroup other member a inside) before).mpr linked
    have rejected := List.isChain_iff_forall_rel_of_append_cons_cons.mp maximal.cut same b head
    rw [accepted] at rejected
    cases rejected

/-- The groups of the clause are the clusters of the records, in whatever order these
were handed over, exactly when all windows fit. -/
theorem chainClustered_iff (isKey : ∀ key ∈ keys, key.IsKey) (relative : term.IsRelative)
    (libc : Libc) (records current : List RecordPtr) (perm : current.Perm records)
    (distinct : records.Nodup) (groups : List Group)
    (cooked : groups.map Group.members = runs (clauseAccepts GrouperFuncs.generated (keys ++ [term]))
      (libc.qsortR.run (qsortComp GrouperFuncs.generated (keys ++ [term])) current)) :
    ChainClustered keys term records groups ↔ WindowsFit keys term records := by
  have sorted := (libc.qsortR.perm (qsortComp GrouperFuncs.generated (keys ++ [term]))
    current).trans perm
  have order := sorted_before keys term libc current
  have linked := runs_link keys term isKey relative _ order
  have flat := runs_flatten (clauseAccepts GrouperFuncs.generated (keys ++ [term]))
    (libc.qsortR.run (qsortComp GrouperFuncs.generated (keys ++ [term])) current)
  have clustered := clusters_iff linked (by rwa [flat])
    (by rw [flat]; exact sorted.nodup_iff.mpr distinct)
  rw [flat] at clustered
  rw [ChainClustered, WindowsFit, cooked, ← clusters_congr fun a => sorted.mem_iff,
    ← neighboursFit_congr fun a => sorted.mem_iff]
  exact clustered

end Clause

section Grouper

variable (libc : Libc) (io : IoHandler) (groupaggregationsEnabled : Bool) (branch : Branch)
  (records : List RecordPtr)

/-- For each of its clauses of this form the grouper makes the chain clusters of the
filtered records, of which the filter keeps no two alike, exactly if all windows fit. -/
theorem grouper_chains_iff (distinct : records.Nodup) (given : branch.grouperClauseset ≠ [])
    (result : GrouperResult)
    (success : grouper libc GrouperFuncs.generated io groupaggregationsEnabled branch
      (FilterResult.of records) = .ok result) :
    ∃ blocks : List (List Group), result.groupset = blocks.flatten ∧
      List.Forall₂ (fun clause groups => ∀ keys term, clause = keys ++ [term] →
        (∀ key ∈ keys, key.IsKey) → term.IsRelative →
        (ChainClustered keys term records groups ↔ WindowsFit keys term records))
        branch.grouperClauseset blocks := by
  obtain ⟨blocks, same, each⟩ := grouper_eachClause libc _ io groupaggregationsEnabled branch
    records (P := fun clause members => ∀ groups : List Group, groups.map Group.members = members →
      ∀ keys term, clause = keys ++ [term] → (∀ key ∈ keys, key.IsKey) → term.IsRelative →
        (ChainClustered keys term records groups ↔ WindowsFit keys term records))
    (by
      rintro _ - current perm groups cooked keys term rfl isKey relative
      exact chainClustered_iff keys term isKey relative libc records current perm distinct groups
        cooked) given result success
  exact ⟨blocks, same, each.imp fun clause groups holds => holds groups rfl⟩

end Grouper

theorem nextByte_relative : GrouperTerm.nextByte.IsRelative := ⟨rfl, rfl, rfl, rfl⟩

theorem grouper_chains_bytes :
    ∃ result,
      grouper Libc.insertion GrouperFuncs.generated IoHandler.empty false
        (Branch.byClause [GrouperTerm.nextByte])
        (FilterResult.of [.ofByte 0 4#8, .ofByte 1 1#8, .ofByte 2 2#8]) = .ok result ∧
      (ChainClustered [] GrouperTerm.nextByte [.ofByte 0 4#8, .ofByte 1 1#8, .ofByte 2 2#8]
          result.groupset ↔
        WindowsFit [] GrouperTerm.nextByte [.ofByte 0 4#8, .ofByte 1 1#8, .ofByte 2 2#8]) := by
  obtain ⟨result, run⟩ := byClause_run [GrouperTerm.nextByte]
    [.ofByte 0 4#8, .ofByte 1 1#8, .ofByte 2 2#8] (by decide)
  have distinct : List.Nodup [RecordPtr.ofByte 0 4#8, .ofByte 1 1#8, .ofByte 2 2#8] :=
    List.Nodup.of_map RecordPtr.index (by decide)
  obtain ⟨blocks, same, each⟩ := grouper_chains_iff Libc.insertion IoHandler.empty false
    (Branch.byClause [GrouperTerm.nextByte]) _ distinct (by simp [Branch.byClause]) result run
  rw [Branch.byClause, List.forall₂_cons_left_iff] at each
  obtain ⟨groups, rest, holds, none, rfl⟩ := each
  rw [List.forall₂_nil_left_iff.mp none, List.flatten_singleton] at same
  refine ⟨result, run, ?_⟩
  rw [same]
  exact holds [] _ rfl (by simp) nextByte_relative

/-- A delta above the values: 3 and 4 are not grouped with delta 5. -/
theorem grouper_chains_wrap :
    ¬ ∀ (libc : Libc) (io : IoHandler) (keys : List GrouperTerm) (term : GrouperTerm)
      (records : List RecordPtr) (result : GrouperResult), (∀ key ∈ keys, key.IsKey) →
      term.IsRelative → records.Nodup →
      grouper libc GrouperFuncs.generated io false (Branch.byClause (keys ++ [term]))
        (FilterResult.of records) = .ok result →
      ChainClustered keys term records result.groupset := by
  intro clustered
  let records : List RecordPtr := [.ofByte 0 3#8, .ofByte 1 4#8]
  let term : GrouperTerm := ⟨0, 0, 5#64, .eq, .w8, .w8, .rel⟩
  have relative : term.IsRelative := ⟨rfl, rfl, rfl, rfl⟩
  have distinct : records.Nodup := List.Nodup.of_map RecordPtr.index (by decide)
  obtain ⟨result, run⟩ := byClause_run [term] records (by decide)
  have fits := (chainClustered_iff [] term (by simp) relative Libc.insertion records records
    (List.Perm.refl _) distinct result.groupset (byClause_members [term] records result run)).mp
    (clustered Libc.insertion IoHandler.empty [] term records result (by simp) relative distinct run)
  have window := fits (.ofByte 0 3#8) (by simp [records]) (.ofByte 1 4#8) (by simp [records])
    (by simp [RecordPtr.ofByte]) rfl (by decide) (by decide) (by simp [records])
  exact absurd window.1 (by decide)

end Nfql
