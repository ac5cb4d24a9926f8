import Nfql.GroupFields
import Nfql.MaximalRuns

set_option autoImplicit false

/- Which bytes of a group record are written. -/
namespace Nfql

open GreedyRuns

section Frame

variable (libc : Libc) (branch : Branch) (members : List RecordPtr)

/-- The fields that a grouper term names, each with its own datatype. -/
def GrouperTerm.declaredFields (term : GrouperTerm) : List Field :=
  [⟨term.fieldOffset1, term.field1Type⟩, ⟨term.fieldOffset2, term.field2Type⟩]

/-- The fields that the terms of a branch name. -/
def Branch.declaredFields : List Field :=
  branch.filterFields ++
    branch.grouperClauseset.flatMap (fun clause => clause.flatMap GrouperTerm.declaredFields) ++
    branch.aggrClauseTermset.map AggrTerm.field

def Branch.Declared (index : Nat) : Prop := ∃ field ∈ branch.declaredFields, field.covers index

/-- All bytes outside the named fields are zero. -/
def Branch.Framed (record : Record) : Prop :=
  ∀ index, ¬ branch.Declared index → record index = 0#8

/-- A byte that no term names, but to which a grouper term's second field is saved, since
its function is the one for the first field's datatype. -/
def Branch.Spilled (index : Nat) : Prop :=
  ¬ branch.Declared index ∧ ∃ clause ∈ branch.grouperClauseset, ∃ term ∈ clause,
    Field.covers ⟨term.fieldOffset2, term.field1Type⟩ index

instance (index : Nat) : Decidable (branch.Declared index) :=
  inferInstanceAs (Decidable (∃ field ∈ branch.declaredFields, field.covers index))

instance (index : Nat) : Decidable (branch.Spilled index) := inferInstanceAs (Decidable (_ ∧ _))

variable {branch}

theorem recordWith_byte (field : Field) (record : Record) (value : Option (BitVec 64)) (index : Nat)
    (outside : ¬ field.covers index) : recordWith field record value index = record index := by
  cases value with
  | none => rfl
  | some value =>
      apply ByteMemory.store_outside
      simp only [Field.covers] at outside
      omega

/-- Aggregations write only to their own fields. -/
theorem aggregations_byte (terms : List AggrTerm) (record : Record) (index : Nat)
    (outside : ∀ term ∈ terms, ¬ term.field.covers index) :
    terms.foldl (AggrTerm.apply libc branch members) record index = record index := by
  induction terms generalizing record with
  | nil => rfl
  | cons term rest ih =>
      obtain ⟨here, others⟩ := List.forall_mem_cons.mp outside
      rw [List.foldl_cons, ih _ others]
      exact recordWith_byte term.field record _ index here

theorem groupRecord_outside (groupaggregationsEnabled : Bool) (index : Nat)
    (outside : ¬ branch.Declared index) :
    branch.groupRecord libc groupaggregationsEnabled members index =
      branch.commonRecord members index := by
  cases groupaggregationsEnabled with
  | false => rfl
  | true =>
      apply aggregations_byte
      intro term isTerm covers
      exact outside ⟨term.field,
        List.mem_append_right _ (List.mem_map.mpr ⟨term, isTerm, rfl⟩), covers⟩

/-- The fields saved for a grouper term are its first, and its second at the first's width. -/
theorem mem_fields (term : GrouperTerm) (field : Field) (member : field ∈ term.fields) :
    field ∈ term.declaredFields ∨ field = ⟨term.fieldOffset2, term.field1Type⟩ := by
  rw [GrouperTerm.fields] at member
  split at member
  · rcases List.mem_cons.mp member with rfl | later
    · exact .inl List.mem_cons_self
    · exact .inr (List.mem_singleton.mp later)
  · exact .inr (List.mem_singleton.mp member)

theorem second_mem_fields (term : GrouperTerm) :
    ⟨term.fieldOffset2, term.field1Type⟩ ∈ term.fields := by
  rw [GrouperTerm.fields]
  split <;> simp

/-- A byte that no term names is saved exactly if it is spilled. -/
theorem named_iff_spilled (index : Nat) (outside : ¬ branch.Declared index) :
    (∃ field ∈ branch.namedFields, field.covers index) ↔ branch.Spilled index := by
  constructor
  · rintro ⟨field, member, covers⟩
    refine ⟨outside, ?_⟩
    rcases List.mem_append.mp member with filtered | grouped
    · exact absurd ⟨field, List.mem_append_left _ (List.mem_append_left _ filtered), covers⟩ outside
    · obtain ⟨clause, isClause, grouped⟩ := List.mem_flatMap.mp grouped
      obtain ⟨term, isTerm, saved⟩ := List.mem_flatMap.mp grouped
      rcases mem_fields term field saved with declared | rfl
      · refine absurd ⟨field, List.mem_append_left _ (List.mem_append_right _ ?_), covers⟩ outside
        exact List.mem_flatMap.mpr ⟨clause, isClause, List.mem_flatMap.mpr ⟨term, isTerm, declared⟩⟩
      · exact ⟨clause, isClause, term, isTerm, covers⟩
  · rintro ⟨-, clause, isClause, term, isTerm, covers⟩
    refine ⟨_, List.mem_append_right _ ?_, covers⟩
    exact List.mem_flatMap.mpr
      ⟨clause, isClause, List.mem_flatMap.mpr ⟨term, isTerm, second_mem_fields term⟩⟩

theorem groupRecord_spilled (groupaggregationsEnabled : Bool) (first : RecordPtr)
    (rest : List RecordPtr) (index : Nat) (spilled : branch.Spilled index) :
    branch.groupRecord libc groupaggregationsEnabled (first :: rest) index = first.record index := by
  rw [groupRecord_outside libc _ groupaggregationsEnabled index spilled.1, Branch.commonRecord,
    copyFields_byte, if_pos ((named_iff_spilled index spilled.1).mpr spilled)]

/-- The record is framed exactly if the first member has zeros in the spilled bytes. -/
theorem groupRecord_framed_iff (groupaggregationsEnabled : Bool) (first : RecordPtr)
    (rest : List RecordPtr) :
    branch.Framed (branch.groupRecord libc groupaggregationsEnabled (first :: rest)) ↔
      ∀ index, branch.Spilled index → first.record index = 0#8 := by
  constructor
  · intro framed index spilled
    rw [← groupRecord_spilled libc groupaggregationsEnabled first rest index spilled]
    exact framed index spilled.1
  · intro zero index outside
    by_cases spilled : branch.Spilled index
    · rw [groupRecord_spilled libc groupaggregationsEnabled first rest index spilled]
      exact zero index spilled
    · rw [groupRecord_outside libc _ groupaggregationsEnabled index outside, Branch.commonRecord,
        copyFields_byte, if_neg (mt (named_iff_spilled index outside).mp spilled)]

/-- Nothing is spilled where no term's first field is wider than its second. -/
theorem not_spilled (narrow : ∀ clause ∈ branch.grouperClauseset, ∀ term ∈ clause,
    term.field1Type.bytes ≤ term.field2Type.bytes) (index : Nat) : ¬ branch.Spilled index := by
  rintro ⟨outside, clause, isClause, term, isTerm, covers⟩
  have width := narrow clause isClause term isTerm
  refine outside ⟨⟨term.fieldOffset2, term.field2Type⟩,
    List.mem_append_left _ (List.mem_append_right _ ?_), covers.1, ?_⟩
  · exact List.mem_flatMap.mpr
      ⟨clause, isClause, List.mem_flatMap.mpr ⟨term, isTerm, by simp [GrouperTerm.declaredFields]⟩⟩
  · have upper := covers.2
    simp only at upper ⊢
    omega

end Frame

/-- In every run, the bytes of a group record that no term names are zero exactly if the
group's first member has zeros in the spilled ones among them. -/
theorem grouper_frame_iff (libc : Libc) (funcs : GrouperFuncs) (io : IoHandler)
    (groupaggregationsEnabled : Bool) (branch : Branch) (records : List RecordPtr)
    (result : GrouperResult)
    (success : grouper libc funcs io groupaggregationsEnabled branch (FilterResult.of records) =
      .ok result) :
    ∀ group ∈ result.groupset, branch.Framed group.record ↔
      ∀ first ∈ group.members.head?, ∀ index, branch.Spilled index → first.record index = 0#8 := by
  intro group member
  obtain ⟨isRun, cooked⟩ := grouper_group libc funcs io groupaggregationsEnabled branch records
    result success group member
  obtain ⟨first, rest, members⟩ :=
    List.exists_cons_of_ne_nil (groupRuns_nonempty libc funcs branch records _ isRun)
  rw [cooked.record, members, groupRecord_framed_iff]
  simp only [List.head?_cons, Option.mem_def, Option.some.injEq, forall_eq']

/-- Two bytes are compared with one. -/
def GrouperTerm.wideNarrow : GrouperTerm := ⟨0, 4, 0#64, .eq, .w16, .w8, .abs⟩

/-- A single record makes a single group. -/
theorem wideNarrow_run (record : RecordPtr) : ∃ result, ∃ group ∈ result.groupset,
    group.members = [record] ∧ grouper Libc.insertion GrouperFuncs.generated IoHandler.empty false
      (Branch.byClause [GrouperTerm.wideNarrow]) (FilterResult.of [record]) = .ok result := by
  obtain ⟨result, run⟩ := byClause_run [GrouperTerm.wideNarrow] [record] (by simp)
  have members := byClause_members [GrouperTerm.wideNarrow] [record] result run
  have single : result.groupset.map Group.members = [[record]] := members.trans rfl
  obtain ⟨group, same, whole⟩ := List.map_eq_singleton_iff.mp single
  exact ⟨result, group, by simp [same], whole, run⟩

theorem grouper_frame_bytes : ∃ result, ∃ group ∈ result.groupset,
    grouper Libc.insertion GrouperFuncs.generated IoHandler.empty false
      (Branch.byClause [GrouperTerm.wideNarrow]) (FilterResult.of [.ofByte 0 7#8]) = .ok result ∧
    ((Branch.byClause [GrouperTerm.wideNarrow]).Framed group.record ↔
      ∀ first ∈ group.members.head?, ∀ index,
        (Branch.byClause [GrouperTerm.wideNarrow]).Spilled index → first.record index = 0#8) := by
  obtain ⟨result, group, member, -, run⟩ := wideNarrow_run (.ofByte 0 7#8)
  exact ⟨result, group, member, run, grouper_frame_iff _ _ _ _ _ _ result run group member⟩

/-- The second field is byte 4 alone, but byte 5 is saved with it. -/
theorem grouper_frame_fail :
    ¬ ∀ (libc : Libc) (funcs : GrouperFuncs) (io : IoHandler) (groupaggregationsEnabled : Bool)
      (branch : Branch) (records : List RecordPtr) (result : GrouperResult),
      grouper libc funcs io groupaggregationsEnabled branch (FilterResult.of records) = .ok result →
      ∀ group ∈ result.groupset, branch.Framed group.record := by
  intro framed
  obtain ⟨result, group, member, members, run⟩ := wideNarrow_run (.ofByte 0 7#8)
  have zeros := framed _ _ _ _ _ _ result run group member
  obtain ⟨-, cooked⟩ := grouper_group _ _ _ _ _ _ result run group member
  rw [cooked.record, members, groupRecord_framed_iff] at zeros
  have spilled : (Branch.byClause [GrouperTerm.wideNarrow]).Spilled 5 := by decide
  exact absurd (zeros 5 spilled) (by decide)

end Nfql
