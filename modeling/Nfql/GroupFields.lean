import Nfql.GroupBy
import Nfql.GroupFilter

set_option autoImplicit false

/- Which of the group record's fields can be trusted. -/
namespace Nfql

open GreedyRuns

theorem Field.read_eq_toNat (field : Field) (record record' : Record) :
    field.read record = field.read record' ↔
      (field.read record).toNat = (field.read record').toNat :=
  BitVec.toNat_inj.symm

theorem recordWith_apart (field other : Field) (record : Record) (value : Option (BitVec 64))
    (apart : other.Apart field) : field.read (recordWith other record value) = field.read record := by
  cases value with
  | none => rfl
  | some value => exact readField_writeField_apart _ _ _ _ _ _ apart

section Aggregated

variable (libc : Libc) (branch : Branch) (members : List RecordPtr) (field : Field)

/-- Aggregations of other fields leave a field alone. -/
theorem aggregations_apart (terms : List AggrTerm) (record : Record)
    (apart : ∀ term ∈ terms, term.field.Apart field) :
    field.read (terms.foldl (AggrTerm.apply libc branch members) record) = field.read record := by
  induction terms generalizing record with
  | nil => rfl
  | cons term rest ih =>
      rw [List.foldl_cons, ih _ fun other member => apart other (by simp [member])]
      exact recordWith_apart field term.field record _ (apart term (by simp))

/-- What an aggregation wrote is read back, cut to the field's width. -/
theorem aggregations_read (before after : List AggrTerm) (term : AggrTerm) (record : Record)
    (value : BitVec 64)
    (written : aggrValue libc term.op (fieldValues term.fieldType members term.fieldOffset)
      (ifIgnoreAggrTerm branch term.fieldOffset) = some value)
    (apart : ∀ other ∈ after, other.field.Apart term.field) :
    (term.field.read ((before ++ term :: after).foldl (AggrTerm.apply libc branch members)
      record)).toNat = value.toNat % 2 ^ term.fieldType.bits := by
  rw [List.foldl_append, List.foldl_cons, aggregations_apart libc branch members _ _ _ apart,
    AggrTerm.apply, written]
  exact readField_writeField _ _ _ _

end Aggregated

section Grouped

variable (libc : Libc) (funcs : GrouperFuncs) (io : IoHandler) (groupaggregationsEnabled : Bool)
  (branch : Branch) (records : List RecordPtr) (result : GrouperResult)
  (success : grouper libc funcs io groupaggregationsEnabled branch (FilterResult.of records) =
    .ok result)

include success in
/-- Every group of a result is cooked from its members, which are one of the runs. -/
theorem grouper_group (group : Group) (member : group ∈ result.groupset) :
    group.members ∈ branch.groupRuns libc funcs records ∧
      Cooked libc io groupaggregationsEnabled branch group.members group := by
  obtain ⟨-, cooked⟩ := grouper_cooked libc funcs io groupaggregationsEnabled branch records result
    success
  obtain ⟨members, inside, cooked⟩ := forall₂_right cooked group member
  rw [cooked.members]
  exact ⟨inside, cooked⟩

end Grouped

end Nfql
