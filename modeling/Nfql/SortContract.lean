import Nfql.AssignFuncs
import Nfql.GroupBy

set_option autoImplicit false

/- The grouper's sort comparator meets the contract of `qsort_r`. -/
namespace Nfql

open ThreeWay

/-- What `qsort_comp` promises for a clause: a total preorder on the records, decided
by the first term on whose second field they differ. -/
structure QsortContract (clause : List GrouperTerm) : Prop where
  gtype : ∀ term ∈ clause, getGtype (Rule.s2 term.field2Type).value = some term.field2Type
  opposite : ∀ a b, (qsortComp GrouperFuncs.generated clause a b).sign =
    -(qsortComp GrouperFuncs.generated clause b a).sign
  trans : ∀ a b c, qsortComp GrouperFuncs.generated clause a b ≤ 0 →
    qsortComp GrouperFuncs.generated clause b c ≤ 0 →
    qsortComp GrouperFuncs.generated clause a c ≤ 0
  total : ∀ a b, qsortComp GrouperFuncs.generated clause a b ≤ 0 ∨
    qsortComp GrouperFuncs.generated clause b a ≤ 0
  tie : ∀ a b, qsortComp GrouperFuncs.generated clause a b = 0 ↔
    ∀ term ∈ clause, term.key.read a.record = term.key.read b.record
  first : ∀ before term after, clause = before ++ term :: after → ∀ a b,
    (∀ other ∈ before, other.key.read a.record = other.key.read b.record) →
    term.key.read a.record ≠ term.key.read b.record →
      (qsortComp GrouperFuncs.generated clause a b < 0 ↔
        term.key.read a.record < term.key.read b.record) ∧
      (0 < qsortComp GrouperFuncs.generated clause a b ↔
        term.key.read b.record < term.key.read a.record)

/-- A term's comparison is that of the values its second field has in the records. -/
theorem GrouperTerm.qsortComp_eq (term : GrouperTerm) (record1 record2 : Record) :
    term.qsortComp record1 record2 =
      compareNat (term.key.read record1).toNat (term.key.read record2).toNat := rfl

theorem GrouperTerm.qsortComp_zero (term : GrouperTerm) (record1 record2 : Record) :
    term.qsortComp record1 record2 = 0 ↔ term.key.read record1 = term.key.read record2 := by
  rw [qsortComp_eq, compareNat_zero, BitVec.toNat_inj]

/-- Terms on which the records agree have no say. -/
theorem qsortComp_skip (before rest : List GrouperTerm) (a b : RecordPtr)
    (agree : ∀ term ∈ before, term.key.read a.record = term.key.read b.record) :
    qsortComp GrouperFuncs.generated (before ++ rest) a b =
      qsortComp GrouperFuncs.generated rest a b := by
  induction before with
  | nil => rfl
  | cons term before ih =>
      have tie : GrouperFuncs.generated.qsortComp term a.record b.record = 0 :=
        (term.qsortComp_zero a.record b.record).mpr (agree term (by simp))
      rw [List.cons_append, qsortComp, if_neg (not_not_intro tie)]
      exact ih fun other inside => agree other (by simp [inside])

/-- The first term on which they differ decides. -/
theorem qsortComp_decided (term : GrouperTerm) (after : List GrouperTerm) (a b : RecordPtr)
    (differ : term.key.read a.record ≠ term.key.read b.record) :
    qsortComp GrouperFuncs.generated (term :: after) a b = term.qsortComp a.record b.record := by
  have decided : GrouperFuncs.generated.qsortComp term a.record b.record ≠ 0 :=
    mt (term.qsortComp_zero a.record b.record).mp differ
  rw [qsortComp, if_pos decided]
  rfl

theorem getGtype_field2 (width : Width) : getGtype (Rule.s2 width).value = some width := by
  cases width <;> rfl

/-- Chaining the terms of a clause keeps the contract, whatever their number, offsets
and widths. -/
theorem qsortComp_contract (clause : List GrouperTerm) : QsortContract clause := by
  have byKey := qsortComp_byKey clause
  have consistent := byKey.consistent
  refine ⟨?_, consistent.opposite, consistent.trans, consistent.total, ?_, ?_⟩
  · intro term _
    exact getGtype_field2 term.field2Type
  · intro a b
    rw [byKey.zero, keyTuple_eq_iff]
  · rintro before term after rfl a b agree differ
    rw [qsortComp_skip before _ a b agree, qsortComp_decided term after a b differ,
      term.qsortComp_eq, compareNat_neg, compareNat_pos]
    exact ⟨BitVec.lt_def.symm, BitVec.lt_def.symm⟩

end Nfql
