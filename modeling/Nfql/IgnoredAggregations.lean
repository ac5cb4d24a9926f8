import Mathlib.Data.List.Induction
import Nfql.CommonFields
import Nfql.GroupFrame
import Nfql.OperatorBytes

set_option autoImplicit false

/- What aggregations do to the fields that are saved as common to a group. -/
namespace Nfql

open ByteMemory ThreeWay

section Kept

variable (libc : Libc) (branch : Branch) (members : List RecordPtr)

/-- The group record that `grouper` hands to `grouper_aggregations`. -/
def storeCommon : Except Fault Record := do
  let aggrRecord ← saveFilterFields libc branch.filterClauseset members fun _ => 0#8
  saveGrouperFields libc branch.grouperClauseset members aggrRecord

/-- After each turn for a term on a common field, the field holds the value stored before
the first turn. -/
def CommonKept : Prop :=
  ∀ stored, storeCommon libc branch members = .ok stored →
    ∀ before term after, branch.aggrClauseTermset = before ++ term :: after →
    ∀ field ∈ branch.namedFields, field.offset = term.fieldOffset →
    ∀ aggrset record, (before ++ [term]).foldlM (aggregateTerm libc branch members) ([], stored) =
      .ok (aggrset, record) → field.read record = field.read stored

/-- The term writes this byte of the group record. -/
def AggrTerm.writes (index : Nat) (term : AggrTerm) : Bool :=
  decide (term.op ≠ .union ∧ term.field.covers index)

/-- The term makes of the members' values one with the first member's byte there. -/
def AggrTerm.Repeats (term : AggrTerm) (index : Nat) : Prop :=
  match term.field.values members with
  | [] => True
  | first :: rest => term.op.Repeats libc (ifIgnoreAggrTerm branch term.fieldOffset)
      (index - term.fieldOffset) first rest

/-- When a term on a common field is done, each byte of the field was last written by a
term that repeats the first member's byte, if by any. No term is done behind a loop that
overflows its `int`. -/
def Branch.KeepsCommon : Prop :=
  ∀ before term after, branch.aggrClauseTermset = before ++ term :: after →
    ((∃ other ∈ before ++ [term],
      other.op.loops (ifIgnoreAggrTerm branch other.fieldOffset) = true) →
        members.length ≤ intMax) →
    ∀ field ∈ branch.namedFields, field.offset = term.fieldOffset →
    ∀ index, field.covers index →
    ∀ writer ∈ lastCovering (AggrTerm.writes index) (before ++ [term]),
      writer.Repeats libc branch members index

/-- The byte that the term writes there. -/
def AggrTerm.byteAt (term : AggrTerm) (index : Nat) : BitVec 8 :=
  byteOf ((aggrValue libc term.op (term.field.values members)
    (ifIgnoreAggrTerm branch term.fieldOffset)).getD 0#64) (index - term.fieldOffset)

variable {libc branch members}

theorem storeCommon_ok (nonempty : members ≠ []) :
    storeCommon libc branch members = .ok (branch.commonRecord members) := by
  obtain ⟨first, rest, rfl⟩ := List.exists_cons_of_ne_nil nonempty
  rw [storeCommon, saveFilterFields_ok, ok_bind, saveGrouperFields_ok, ← copyFields_append]
  rfl

/-- Aggregations that return have built the record and the results described by the model. -/
theorem aggregations_result (nonempty : members ≠ []) (terms : List AggrTerm)
    (aggrset : List Aggr) (record : Record) (result : List Aggr × Record)
    (run : terms.foldlM (aggregateTerm libc branch members) (aggrset, record) = .ok result) :
    result = (aggrset ++ terms.map fun term => ⟨term.results libc branch members⟩,
      terms.foldl (AggrTerm.apply libc branch members) record) := by
  rw [aggregations_ok libc branch members terms aggrset record (aggregations_inside nonempty run)
    nonempty] at run
  cases run
  rfl

theorem aggrValue_some {libc : Libc} (op : AggrOp) (values : List (BitVec 64)) (common : Bool)
    (writes : op ≠ .union) : ∃ value, aggrValue libc op values common = some value := by
  cases op with
  | union => exact absurd rfl writes
  | static | count | min | max | median | mean | stddev | xor | sum | prod | and | or =>
      exact ⟨_, rfl⟩

theorem writeField_byte (field : Field) (record : Record) (value : BitVec 64) (index : Nat)
    (covers : field.covers index) :
    writeField field.width record field.offset value index = byteOf value (index - field.offset) :=
  store_inside record field.offset field.width.bytes value.toNat index covers.1 covers.2

theorem apply_byte (term : AggrTerm) (record : Record) (index : Nat) :
    term.apply libc branch members record index =
      if term.writes index then term.byteAt libc branch members index else record index := by
  by_cases covers : term.field.covers index
  · by_cases union : term.op = .union
    · rw [AggrTerm.apply, AggrTerm.writes, union, if_neg (by simp)]
      rfl
    · have writes : term.writes index = true := decide_eq_true ⟨union, covers⟩
      obtain ⟨value, same⟩ := aggrValue_some term.op (term.field.values members)
        (ifIgnoreAggrTerm branch term.fieldOffset) union
      rw [if_pos writes, AggrTerm.byteAt, same, Option.getD_some]
      change recordWith term.field record (aggrValue libc term.op (term.field.values members) _) _ = _
      rw [same]
      exact writeField_byte term.field record value index covers
  · rw [AggrTerm.apply, recordWith_byte _ _ _ _ covers, AggrTerm.writes, if_neg (by simp [covers])]

/-- A byte is what the last term to write it left there. -/
theorem aggregated_byte (terms : List AggrTerm) (record : Record) (index : Nat) :
    terms.foldl (AggrTerm.apply libc branch members) record index =
      match lastCovering (AggrTerm.writes index) terms with
      | none => record index
      | some writer => writer.byteAt libc branch members index := by
  induction terms using List.reverseRecOn with
  | nil => rfl
  | append_singleton terms term ih =>
      rw [List.foldl_append, List.foldl_cons, List.foldl_nil, apply_byte, lastCovering_snoc]
      split
      · rfl
      · exact ih

/-- What a term writes is the first member's byte exactly if the term repeats it. -/
theorem byteAt_iff (term : AggrTerm) (first : RecordPtr) (rest : List RecordPtr) (index : Nat)
    (writes : term.writes index = true)
    (few : term.op.loops (ifIgnoreAggrTerm branch term.fieldOffset) = true →
      (first :: rest).length ≤ intMax) :
    term.byteAt libc branch (first :: rest) index = first.record index ↔
      term.Repeats libc branch (first :: rest) index := by
  obtain ⟨union, covers⟩ := of_decide_eq_true writes
  have lower := covers.1
  have upper := covers.2
  simp only [AggrTerm.field] at lower upper
  have bytes : term.fieldType.bytes ≤ 8 := by cases term.fieldType <;> decide
  have byte := writeField_byte term.field first.record (term.field.read first.record) index covers
  rw [writeField_read_byte, if_pos covers] at byte
  have length : (term.field.values rest).length + 1 = (first :: rest).length := by
    rw [values_length, List.length_cons]
  rw [byte]
  refine repeats_iff libc term.op _ (index - term.fieldOffset) (term.field.read first.record)
    (term.field.values rest) union (by omega) fun loops => ?_
  rw [length]
  exact few loops

theorem commonRecord_byte (first : RecordPtr) (rest : List RecordPtr) (field : Field)
    (named : field ∈ branch.namedFields) (index : Nat) (covers : field.covers index) :
    branch.commonRecord (first :: rest) index = first.record index := by
  rw [Branch.commonRecord, copyFields_byte, if_pos ⟨field, named, covers⟩]

/-- For every group: its aggregations leave the common fields alone exactly when each byte
of such a field is last written by a term that repeats the first member's. -/
theorem commonKept_iff (libc : Libc) (branch : Branch) (members : List RecordPtr)
    (nonempty : members ≠ []) :
    CommonKept libc branch members ↔ branch.KeepsCommon libc members := by
  obtain ⟨first, rest, rfl⟩ := List.exists_cons_of_ne_nil nonempty
  constructor
  · intro kept before term after terms few field named offset index covers writer last
    have run := aggregations_ok libc branch (first :: rest) (before ++ [term]) []
      (branch.commonRecord (first :: rest)) few nonempty
    have same := kept _ (storeCommon_ok nonempty) before term after terms field named offset _ _ run
    have byte := (readField_eq_iff _ _ _ _).mp same index covers.1 covers.2
    rw [aggregated_byte, last, commonRecord_byte first rest field named index covers] at byte
    have found := lastCovering_some last
    exact (byteAt_iff writer first rest index found.2 fun loops =>
      few ⟨writer, found.1, loops⟩).mp byte
  · intro keeps stored store before term after terms field named offset aggrset record run
    have few := aggregations_inside nonempty run
    rw [storeCommon_ok nonempty] at store
    cases store
    rw [(Prod.mk.inj (aggregations_result nonempty _ _ _ _ run)).2]
    refine (readField_eq_iff _ _ _ _).mpr fun index lower upper => ?_
    rw [aggregated_byte]
    split
    · rfl
    · rename_i writer last
      have found := lastCovering_some last
      have byte := (byteAt_iff writer first rest index found.2 fun loops =>
        few ⟨writer, found.1, loops⟩).mpr
          (keeps before term after terms few field named offset index ⟨lower, upper⟩ writer last)
      rw [byte]
      exact (commonRecord_byte first rest field named index ⟨lower, upper⟩).symm

end Kept

section Operators

/-- The term writes the first member's value in every group: it is one of the few that look
at the flag, or at the first member alone. -/
def AggrTerm.Copies (branch : Branch) (term : AggrTerm) : Prop :=
  match term.op with
  | .static => ifIgnoreAggrTerm branch term.fieldOffset = true
  | .union | .min | .max => True
  | _ => False

variable {libc : Libc} {branch : Branch} {members : List RecordPtr}

theorem AggrTerm.Copies.repeats {term : AggrTerm} (copies : term.Copies branch) (index : Nat) :
    term.Repeats libc branch members index := by
  rw [AggrTerm.Repeats]
  split
  · trivial
  · rw [AggrTerm.Copies] at copies
    cases op : term.op with
    | static =>
        rw [op] at copies
        exact .inl copies
    | union | min | max => trivial
    | count | median | mean | stddev | xor | sum | prod | and | or =>
        rw [op] at copies
        exact copies.elim

/-- It is enough that the terms repeat the bytes they write in common fields. -/
theorem keepsCommon_of_each
    (each : ∀ term ∈ branch.aggrClauseTermset, ∀ field ∈ branch.namedFields, ∀ index,
      field.covers index → term.writes index = true → term.Repeats libc branch members index) :
    branch.KeepsCommon libc members := by
  intro before term after terms _ field named _ index covers writer last
  obtain ⟨inside, writes⟩ := lastCovering_some last
  have isTerm : writer ∈ branch.aggrClauseTermset := by
    rw [terms]
    simp only [List.mem_append, List.mem_cons, List.not_mem_nil, or_false] at inside ⊢
    tauto
  exact each writer isTerm field named index covers writes

/-- Where fields at different offsets do not overlap, a query whose terms on common offsets
copy the first member's value keeps the common fields of all groups. -/
theorem keepsCommon_of_copies
    (apart : ∀ term ∈ branch.aggrClauseTermset, ∀ field ∈ branch.namedFields,
      field.offset = term.fieldOffset ∨ term.field.Apart field)
    (copies : ∀ term ∈ branch.aggrClauseTermset,
      (∃ field ∈ branch.namedFields, field.offset = term.fieldOffset) → term.Copies branch) :
    branch.KeepsCommon libc members := by
  refine keepsCommon_of_each fun term isTerm field named index covers writes => ?_
  rcases apart term isTerm field named with same | separate
  · exact (copies term isTerm ⟨field, named, same⟩).repeats index
  · exfalso
    have written := (of_decide_eq_true writes).2
    simp only [Field.Apart, ByteMemory.Apart] at separate
    have upper := written.2
    have lower := written.1
    have := covers.1
    have := covers.2
    omega

end Operators

/-- Flows with 5 in byte 0, and aggregations of that byte that keep it. -/
def Branch.kept : Branch where
  filterClauseset := [[⟨0, 5#64, 0#64, .eq, .w8⟩]]
  grouperClauseset := []
  aggrClauseTermset := [⟨0, .or, .w8⟩, ⟨0, .median, .w8⟩, ⟨1, .sum, .w8⟩, ⟨0, .mean, .w8⟩]
  groupfilterClauseset := []

/-- A disjunction, a median and a mean of equal values are that value. -/
theorem commonKept_equal : CommonKept Libc.insertion Branch.kept
    [⟨0, twoBytes 5#8 1#8⟩, ⟨1, twoBytes 5#8 2#8⟩, ⟨2, twoBytes 5#8 3#8⟩] := by
  refine (commonKept_iff Libc.insertion Branch.kept _ (by simp)).mpr
    (keepsCommon_of_each fun term isTerm field named index covers writes => ?_)
  have only : field = ⟨0, .w8⟩ := by simpa [Branch.kept, Branch.namedFields,
    Branch.filterFields, Branch.grouperFields] using named
  subst only
  obtain rfl : index = 0 := by
    have upper := covers.2
    simp only [Width.bytes] at upper
    omega
  have terms : term ∈ [AggrTerm.mk 0 .or .w8, ⟨0, .median, .w8⟩, ⟨1, .sum, .w8⟩,
    ⟨0, .mean, .w8⟩] := isTerm
  have values : (Field.mk 0 .w8).values [⟨0, twoBytes 5#8 1#8⟩, ⟨1, twoBytes 5#8 2#8⟩,
      ⟨2, twoBytes 5#8 3#8⟩] = 5#64 :: List.replicate 2 5#64 := by
    decide
  simp only [List.mem_cons, List.not_mem_nil, or_false] at terms
  rcases terms with rfl | rfl | rfl | rfl
  · rw [AggrTerm.Repeats, AggrTerm.field, values]
    exact (repeats_shared_iff _ _ _ 0 _ _ (by decide)).mpr trivial
  · rw [AggrTerm.Repeats, AggrTerm.field, values]
    exact (repeats_shared_iff _ _ _ 0 _ _ (by decide)).mpr trivial
  · exact absurd writes (by decide)
  · rw [AggrTerm.Repeats, AggrTerm.field, values]
    exact (repeats_shared_iff _ _ _ 0 _ _ (by decide)).mpr trivial

/-- A sum over the filtered field itself: of two ones it leaves a two. -/
theorem commonKept_fail :
    ¬ ∀ (libc : Libc) (branch : Branch) (members : List RecordPtr), members ≠ [] →
      CommonKept libc branch members := by
  intro kept
  let branch : Branch := ⟨[[⟨0, 1#64, 0#64, .eq, .w8⟩]], [], [⟨0, .sum, .w8⟩], []⟩
  let members : List RecordPtr := [.ofByte 0 1#8, .ofByte 1 1#8]
  have run := aggregations_ok Libc.insertion branch members [⟨0, .sum, .w8⟩] []
    (branch.commonRecord members) (by decide) (by simp [members])
  have same := kept Libc.insertion branch members (by simp [members]) _
    (storeCommon_ok (by simp [members])) [] ⟨0, .sum, .w8⟩ [] rfl ⟨0, .w8⟩
    (by simp [Branch.namedFields, Branch.filterFields, branch]) rfl _ _ run
  exact absurd same (by decide)

end Nfql
