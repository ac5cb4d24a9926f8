import Nfql.Engine
import Nfql.FoldAggregations
import Nfql.GroupOrder
import Nfql.RelationalQueries

set_option autoImplicit false

/- What a query means, apart from how the engine evaluates it: a query over one table,
whose groups have values of their own. -/
namespace Nfql

open GreedyRuns RelationalQueries

section Meaning

/-- The operators that commute, over the values of a group; the others have no value
that the group alone determines. -/
def AggrOp.over (op : AggrOp) (values : Multiset (BitVec 64)) : Option (BitVec 64) :=
  match op with
  | .sum => some (BitVec.ofNat 64 (values.map BitVec.toNat).sum)
  | .count => some (BitVec.ofNat 64 values.card)
  | .or => some (values.fold (· ||| ·) 0#64)
  | .xor => some (values.fold (· ^^^ ·) 0#64)
  | .static | .union | .min | .max | .median | .mean | .stddev | .prod | .and => none

/-- The aggregations that say something new about a group. -/
def Branch.totals (branch : Branch) : List AggrTerm :=
  branch.aggrClauseTermset.filter fun term => term.op ≠ .static

/-- The value of a field of a group: that of an aggregation, cut to the field's width and
zero if aggregations are off, or the one that all rows share. -/
def Branch.cell (branch : Branch) (groupaggregationsEnabled : Bool) (field : Field)
    (rows : Multiset Record) : BitVec 64 :=
  match branch.totals.find? fun term => term.field = field with
  | some term =>
      if groupaggregationsEnabled then
        BitVec.ofNat 64
          (((term.op.over (rows.map field.read)).getD 0#64).toNat % 2 ^ field.width.bits)
      else 0#64
  | none => BitVec.ofNat 64 (rows.map fun row => (field.read row).toNat).sup

/-- The only grouper clause. A branch without one makes a single group. -/
def Branch.keyClause (branch : Branch) : List GrouperTerm := branch.grouperClauseset.headD []

/-- The fields of the group record that mean something: the keys and the totals. -/
def Branch.valueFields (branch : Branch) : List Field :=
  branch.keyClause.map GrouperTerm.key ++ branch.totals.map AggrTerm.field

def Branch.selection (branch : Branch) (io : IoHandler) (groupaggregationsEnabled : Bool) :
    Selection Record Record (List Nat) where
  accepts := branch.accepts
  project := copyRecord io.readGetRecordSize
  key row := branch.keyClause.map fun term => (term.key.read row).toNat
  having rows := Clauses.dnf (fun term : GroupfilterTerm =>
    compareDelta term.op (branch.cell groupaggregationsEnabled ⟨term.field, term.fieldType⟩ rows)
      term.value term.delta) branch.groupfilterClauseset

/-- A zero stands for no value. -/
def CompOp.joins (op : CompOp) (value1 value2 : BitVec 64) : Bool :=
  decide (value1 ≠ 0#64) && decide (value2 ≠ 0#64) && compareNo op value1 value2

/-- A merger term on the groups of a tuple. -/
def MergerTerm.meets (branchset : List Branch) (groupaggregationsEnabled : Bool)
    (tuple : List (Multiset Record)) (term : MergerTerm branchset.length) : Bool :=
  match term.op, tuple[term.branch1.val]?, tuple[term.branch2.val]? with
  | .comp op, some rows1, some rows2 =>
      op.joins
        ((branchset.get term.branch1).cell groupaggregationsEnabled ⟨term.field1, term.field1Type⟩
          rows1)
        ((branchset.get term.branch2).cell groupaggregationsEnabled ⟨term.field2, term.field2Type⟩
          rows2)
  | _, _, _ => false

/-- Only the first clause of the merger has a say. -/
def Flowquery.query (fquery : Flowquery) (io : IoHandler) (groupaggregationsEnabled : Bool) :
    RelationalQueries.Query Record Record (List Nat) where
  selections := fquery.branchset.map fun branch => branch.selection io groupaggregationsEnabled
  joins tuple := (fquery.mergerClauseset.headD []).all
    (MergerTerm.meets fquery.branchset groupaggregationsEnabled tuple)

/-- A branch that groups by keys, if at all, and whose aggregations are totals of fields
of their own or repeat a named field; its group filter looks at keys and totals. -/
structure Branch.Declarative (branch : Branch) : Prop where
  single : branch.grouperClauseset.length ≤ 1
  keys : ∀ term ∈ branch.keyClause, term.IsKey
  statics : ∀ term ∈ branch.aggrClauseTermset, term.op = .static → term.field ∈ branch.namedFields
  commutes : ∀ term ∈ branch.totals, term.op.Commutes
  unnamed : ∀ term ∈ branch.totals, ∀ field ∈ branch.namedFields, term.field.Apart field
  apart : branch.totals.Pairwise fun term other => term.field.Apart other.field
  groupfilter : ∀ terms ∈ branch.groupfilterClauseset, ∀ term ∈ terms,
    Field.mk term.field term.fieldType ∈ branch.valueFields

/-- The queries that mean something apart from their evaluation: such branches, and a
merger that compares keys and totals. -/
structure Flowquery.Declarative (fquery : Flowquery) : Prop where
  branches : ∀ branch ∈ fquery.branchset, branch.Declarative
  comparisons : ∀ terms ∈ fquery.mergerClauseset, ∀ term ∈ terms, ∃ op, term.op = .comp op
  fields1 : ∀ terms ∈ fquery.mergerClauseset, ∀ term ∈ terms,
    Field.mk term.field1 term.field1Type ∈ (fquery.branchset.get term.branch1).valueFields
  fields2 : ∀ terms ∈ fquery.mergerClauseset, ∀ term ∈ terms,
    Field.mk term.field2 term.field2Type ∈ (fquery.branchset.get term.branch2).valueFields

end Meaning

def Group.rows (group : Group) : Multiset Record := (group.members.map RecordPtr.record : List Record)

def Stream.rows (stream : Stream) : Multiset Record :=
  (stream.recordset.map RecordPtr.record : List Record)

section Cells

theorem compareDelta_zero (op : CompOp) (lhs rhs : BitVec 64) :
    compareDelta op lhs rhs 0#64 = compareNo op lhs rhs := by
  cases op with
  | eq => rw [Bool.eq_iff_iff, compareDelta_eq_zero, compareNo_eq]
  | ne =>
      simp only [compareDelta, compareNo, BitVec.sub_zero, BitVec.add_zero]
      rw [Bool.eq_iff_iff, Bool.or_eq_true, decide_eq_true_iff, decide_eq_true_iff,
        decide_eq_true_iff]
      bv_omega
  | lt | le | gt | ge => simp only [compareDelta, compareNo, BitVec.sub_zero, BitVec.add_zero]

/-- The folds of the code over a list are those over its values in any order. -/
theorem aggrValue_over (libc : Libc) (op : AggrOp) (commutes : op.Commutes)
    (values : List (BitVec 64)) (common : Bool) :
    aggrValue libc op values common = op.over values := by
  rcases commutes with rfl | rfl | rfl | rfl
  · show some (values.foldl (· + ·) 0#64) = some (BitVec.ofNat 64 _)
    congr 1
    apply BitVec.eq_of_toNat_eq
    rw [foldl_add_toNat, BitVec.toNat_ofNat, BitVec.toNat_ofNat, Multiset.map_coe,
      Multiset.sum_coe, Nat.zero_mod, Nat.zero_add]
  · rfl
  · show some (values.foldl (· ||| ·) 0#64) = some (Multiset.fold _ _ (values : Multiset _))
    rw [Multiset.coe_fold_l]
  · show some (values.foldl (· ^^^ ·) 0#64) = some (Multiset.fold _ _ (values : Multiset _))
    rw [Multiset.coe_fold_l]

theorem Field.notApart_self (field : Field) : ¬ field.Apart field := by
  have positive : 0 < field.width.bytes := by cases field.width <;> decide
  unfold Field.Apart ByteMemory.Apart
  omega

theorem field_zero (field : Field) : field.read (fun _ => 0#8) = 0#64 := by
  rw [Field.read, readField, ByteMemory.load_zero]

section Fields

variable (branch : Branch) (declarative : branch.Declarative)

theorem named_common (field : Field) (named : field ∈ branch.namedFields) :
    ifIgnoreAggrTerm branch field.offset = true := by
  rw [ifIgnoreAggrTerm, Bool.or_eq_true, List.any_eq_true, List.any_eq_true]
  rcases List.mem_append.mp named with filter | grouper
  · obtain ⟨clause, inBranch, inClause⟩ := List.mem_flatMap.mp filter
    obtain ⟨term, member, rfl⟩ := List.mem_map.mp inClause
    exact .inl ⟨clause, inBranch, List.any_eq_true.mpr ⟨term, member, decide_eq_true rfl⟩⟩
  · obtain ⟨clause, inBranch, inClause⟩ := List.mem_flatMap.mp grouper
    obtain ⟨term, member, named⟩ := List.mem_flatMap.mp inClause
    refine .inr ⟨clause, inBranch, List.any_eq_true.mpr ⟨term, member, ?_⟩⟩
    rw [Bool.or_eq_true, decide_eq_true_iff, decide_eq_true_iff]
    rw [GrouperTerm.fields] at named
    split at named
    · rcases List.mem_cons.mp named with rfl | named
      · exact .inl rfl
      · rw [List.mem_singleton.mp named]
        exact .inr rfl
    · rw [List.mem_singleton.mp named]
      exact .inr rfl

include declarative

theorem keyed_named (term : GrouperTerm) (member : term ∈ branch.keyClause) :
    term.key ∈ branch.namedFields := by
  have isKey := declarative.keys term member
  have fields : term.fields = [term.key] := by
    rw [GrouperTerm.fields, if_neg (not_not.mpr isKey.offset), GrouperTerm.key, isKey.width]
  apply List.mem_append_right
  rw [Branch.keyClause] at member
  cases clauses : branch.grouperClauseset with
  | nil =>
      rw [clauses] at member
      cases member
  | cons clause rest =>
      rw [clauses] at member
      rw [Branch.grouperFields, clauses]
      refine List.mem_flatMap.mpr ⟨clause, by simp, List.mem_flatMap.mpr ⟨term, member, ?_⟩⟩
      rw [fields]
      exact List.mem_singleton_self _

/-- No aggregation changes a named field of the group record: it stays the first member's. -/
theorem aggregations_named (libc : Libc) (first : RecordPtr) (rest : List RecordPtr)
    (terms : List AggrTerm) (inBranch : ∀ term ∈ terms, term ∈ branch.aggrClauseTermset)
    (record : Record) (common : ∀ field ∈ branch.namedFields,
      field.read record = field.read first.record) :
    ∀ field ∈ branch.namedFields,
      field.read (terms.foldl (AggrTerm.apply libc branch (first :: rest)) record) =
        field.read first.record := by
  induction terms generalizing record with
  | nil => exact common
  | cons term later ih =>
      rw [List.foldl_cons]
      refine ih (fun other member => inBranch other (by simp [member])) _ fun field named => ?_
      have member := inBranch term (by simp)
      by_cases static : term.op = .static
      · have inNamed := declarative.statics term member static
        have value : aggrValue libc term.op
            (fieldValues term.fieldType (first :: rest) term.fieldOffset)
            (ifIgnoreAggrTerm branch term.fieldOffset) = some (term.field.read first.record) := by
          have same : ifIgnoreAggrTerm branch term.fieldOffset = true :=
            named_common branch term.field inNamed
          rw [static, same]
          rfl
        rw [AggrTerm.apply, value]
        refine (readField_eq_iff _ _ _ _).mpr fun index lower upper => ?_
        have kept := (readField_eq_iff _ _ _ _).mp (common field named) index lower upper
        show writeField term.field.width record term.field.offset _ index = _
        rw [writeField_read_byte]
        split
        · rfl
        · exact kept
      · have total : term ∈ branch.totals := List.mem_filter.mpr ⟨member, by simpa using static⟩
        rw [AggrTerm.apply, recordWith_apart field term.field record _
          (declarative.unnamed term total field named)]
        exact common field named

end Fields

variable (branch : Branch) (declarative : branch.Declarative) (libc : Libc)
  (groupaggregationsEnabled : Bool) (members : List RecordPtr)

include declarative

/-- A named field of the group record is the first member's, with or without aggregations. -/
theorem groupRecord_named (nonempty : members ≠ []) (field : Field)
    (named : field ∈ branch.namedFields) :
    ∃ first ∈ members, field.read (branch.groupRecord libc groupaggregationsEnabled members) =
      field.read first.record := by
  obtain ⟨first, rest, rfl⟩ := List.exists_cons_of_ne_nil nonempty
  have common : ∀ field ∈ branch.namedFields,
      field.read (branch.commonRecord (first :: rest)) = field.read first.record :=
    fun field named => copyFields_read _ _ _ _ named
  refine ⟨first, by simp, ?_⟩
  unfold Branch.groupRecord
  split
  · exact aggregations_named branch declarative libc first rest branch.aggrClauseTermset
      (fun _ member => member) _ common field named
  · exact common field named

/-- The group record has the group's totals. -/
theorem groupRecord_total (term : AggrTerm) (member : term ∈ branch.totals) :
    term.field.read (branch.groupRecord libc groupaggregationsEnabled members) =
      if groupaggregationsEnabled then
        BitVec.ofNat 64 (((term.op.over (Multiset.map term.field.read
          (members.map RecordPtr.record : List Record))).getD 0#64).toNat % 2 ^ term.field.width.bits)
      else 0#64 := by
  obtain ⟨inBranch, moving⟩ := List.mem_filter.mp member
  cases groupaggregationsEnabled with
  | false =>
      show term.field.read (branch.commonRecord members) = 0#64
      rw [commonRecord_apart branch members term.field (declarative.unnamed term member), field_zero]
  | true =>
      obtain ⟨before, after, whole⟩ := List.append_of_mem inBranch
      have totals : branch.totals = before.filter (fun term => term.op ≠ .static) ++
          term :: after.filter (fun term => term.op ≠ .static) := by
        rw [Branch.totals, whole, List.filter_append]
        exact congrArg _ (List.filter_cons_of_pos moving)
      have apart := declarative.apart
      rw [totals, List.pairwise_append] at apart
      have later : ∀ other ∈ after, other.field.Apart term.field := by
        intro other inside
        by_cases static : other.op = .static
        · have inside : other ∈ branch.aggrClauseTermset := by
            rw [whole]
            simp [inside]
          exact (declarative.unnamed term member _ (declarative.statics other inside static)).symm
        · have total : other ∈ after.filter fun term => term.op ≠ .static :=
            List.mem_filter.mpr ⟨inside, by simpa using static⟩
          exact ((List.pairwise_cons.mp apart.2.1).1 other total).symm
      have commutes := declarative.commutes term member
      obtain ⟨value, written⟩ := aggrValue_commutes libc term.op commutes
        (fieldValues term.fieldType members term.fieldOffset)
        (ifIgnoreAggrTerm branch term.fieldOffset)
      have total : term.op.over (Multiset.map term.field.read
          (members.map RecordPtr.record : List Record)) = some value := by
        rw [← written, aggrValue_over libc term.op commutes, Multiset.map_coe, List.map_map]
        rfl
      have read := aggregations_read libc branch members before after term
        (branch.commonRecord members) value written later
      rw [← whole] at read
      rw [total, Option.getD_some, if_pos rfl]
      apply BitVec.eq_of_toNat_eq
      rw [BitVec.toNat_ofNat]
      refine read.trans (Nat.mod_eq_of_lt ?_).symm
      exact lt_of_lt_of_le (Nat.mod_lt _ (Nat.two_pow_pos _)) term.fieldType.pow_bits_le

/-- The group record has the values of its group in all fields that mean something. -/
theorem groupRecord_cell (nonempty : members ≠ [])
    (shared : ∀ a ∈ members, ∀ b ∈ members,
      keyTuple branch.keyClause a = keyTuple branch.keyClause b)
    (field : Field) (member : field ∈ branch.valueFields) :
    field.read (branch.groupRecord libc groupaggregationsEnabled members) =
      branch.cell groupaggregationsEnabled field (members.map RecordPtr.record : List Record) := by
  unfold Branch.cell
  cases found : branch.totals.find? fun term => term.field = field with
  | some term =>
      have matched : decide (term.field = field) = true :=
        List.find?_some (p := fun term : AggrTerm => decide (term.field = field)) found
      have same := of_decide_eq_true matched
      subst same
      exact groupRecord_total branch declarative libc groupaggregationsEnabled members term
        (List.mem_of_find?_eq_some found)
  | none =>
      rw [List.find?_eq_none] at found
      rcases List.mem_append.mp member with key | aggregated
      · obtain ⟨term, inClause, rfl⟩ := List.mem_map.mp key
        obtain ⟨first, inside, read⟩ := groupRecord_named branch declarative libc
          groupaggregationsEnabled members nonempty term.key
            (keyed_named branch declarative term inClause)
        have same : ∀ row ∈ (members.map RecordPtr.record : List Record),
            (term.key.read row).toNat = (term.key.read first.record).toNat := by
          intro row member
          obtain ⟨other, inside', rfl⟩ := List.mem_map.mp member
          rw [(keyTuple_eq_iff _ other first).mp (shared other inside' first inside) term inClause]
        have value := shared_value (fun row => (term.key.read row).toNat)
          (members.map RecordPtr.record : List Record) first.record
          (Multiset.mem_coe.mpr (List.mem_map_of_mem inside)) same
        show _ = BitVec.ofNat 64 _
        rw [read, value, BitVec.ofNat_toNat, BitVec.setWidth_eq]
      · obtain ⟨term, inBranch, rfl⟩ := List.mem_map.mp aggregated
        exact absurd (decide_eq_true rfl) (found term inBranch)

end Cells

section Groups

variable (branch : Branch) (declarative : branch.Declarative) (libc : Libc)
  (records : List RecordPtr)

include declarative

/-- The groups in the making are the classes of the records by their keys. -/
theorem groupRuns_listed :
    Classes (keyTuple branch.keyClause)
        (branch.groupRuns libc GrouperFuncs.generated records) ∧
      (branch.groupRuns libc GrouperFuncs.generated records).flatten.Perm records := by
  have single := declarative.single
  have keys := declarative.keys
  rw [Branch.keyClause] at keys ⊢
  cases clauses : branch.grouperClauseset with
  | nil =>
      rw [groupRuns_single libc _ branch records clauses, List.headD_nil]
      have keyed : Keyed (fun _ _ => true) (keyTuple []) :=
        clauseAccepts_keyed [] fun term member => absurd member List.not_mem_nil
      refine ⟨runs_classes keyed records (List.pairwise_of_forall fun _ _ => le_refl _), ?_⟩
      rw [runs_flatten]
  | cons clause rest =>
      rw [clauses] at single keys
      have alone : rest = [] := List.eq_nil_of_length_eq_zero (by
        rw [List.length_cons] at single
        omega)
      subst alone
      have runs_keyed : branch.groupRuns libc GrouperFuncs.generated records =
          runs (clauseAccepts GrouperFuncs.generated clause)
            (libc.qsortR.run (qsortComp GrouperFuncs.generated clause) records) := by
        rw [groupRuns_clauses libc _ branch records (by rw [clauses]; simp), clauses, clauseRuns,
          sortings, List.zipWith_cons_cons, List.flatten_cons]
        exact List.append_nil _
      rw [runs_keyed, List.headD_cons, runs_flatten]
      exact ⟨runs_keyClasses libc clause keys records, libc.qsortR.perm _ records⟩

end Groups

end Nfql
