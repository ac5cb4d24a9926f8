import Mathlib.Order.Nat
import Nfql.AllenAlgebra
import Nfql.AssignFuncs
import Nfql.Comparators

set_option autoImplicit false

/- The merger's interval operators. -/
namespace Nfql

open AllenAlgebra

section Intervals

/-- The relation that an operator is named after. -/
def AllenOp.relation : AllenOp → Relation
  | .bf => .before
  | .af => .after
  | .m => .meets
  | .mi => .metBy
  | .o => .overlaps
  | .oi => .overlappedBy
  | .s => .starts
  | .si => .startedBy
  | .d => .during
  | .di => .contains
  | .f => .finishes
  | .fi => .finishedBy
  | .eq => .equals

def AllenOp.inverse : AllenOp → AllenOp
  | .bf => .af
  | .af => .bf
  | .m => .mi
  | .mi => .m
  | .o => .oi
  | .oi => .o
  | .s => .si
  | .si => .s
  | .d => .di
  | .di => .d
  | .f => .fi
  | .fi => .f
  | .eq => .eq

theorem AllenOp.relation_bijective : Function.Bijective AllenOp.relation := by
  constructor
  · intro op other
    cases op <;> cases other <;> decide
  · intro relation
    cases relation with
    | before => exact ⟨.bf, rfl⟩
    | after => exact ⟨.af, rfl⟩
    | meets => exact ⟨.m, rfl⟩
    | metBy => exact ⟨.mi, rfl⟩
    | overlaps => exact ⟨.o, rfl⟩
    | overlappedBy => exact ⟨.oi, rfl⟩
    | starts => exact ⟨.s, rfl⟩
    | startedBy => exact ⟨.si, rfl⟩
    | during => exact ⟨.d, rfl⟩
    | contains => exact ⟨.di, rfl⟩
    | finishes => exact ⟨.f, rfl⟩
    | finishedBy => exact ⟨.fi, rfl⟩
    | equals => exact ⟨.eq, rfl⟩

theorem AllenOp.relation_inverse (op : AllenOp) : op.inverse.relation = op.relation.inverse := by
  cases op <;> rfl

/-- The time from the minimum start to the maximum end of the members, if it is not empty. -/
def Group.interval (group : Group)
    (proper : group.aggrResult.aggrRecord.startTsMsec.toNat <
      group.aggrResult.aggrRecord.endTsMsec.toNat) : TimeInterval Nat :=
  ⟨_, _, proper⟩

/-- The term is assigned a function that is true of the groups exactly if the operator's
relation holds of their intervals. -/
def AllenDecided (numBranches : Nat) (op : AllenOp) (term : Prepared.MergerTerm)
    (group1 group2 : Group) : Prop :=
  ∃ assigned, Prepared.MergerTerm.assigned numBranches term = some assigned ∧
    ∀ proper1 proper2, assigned.func group1 group2 0#64 = .ok true ↔
      op.relation.Holds (group1.interval proper1) (group2.interval proper2)

/-- A term with an interval operator on two fields of the given datatypes. -/
def Prepared.MergerTerm.allen (term : Prepared.MergerTerm) (op : AllenOp) (atype1 atype2 : Width) :
    Prepared.MergerTerm :=
  { term with
    op := (Rule.allen op).value
    field1Type := (Rule.s1 atype1).value
    field2Type := (Rule.s2 atype2).value }

end Intervals

section Functions

variable (group1 group2 : Group) (field1 field2 : Nat)

/-- Of the exchanged groups the inverse is true. -/
theorem mergerAllen_inverse (op : AllenOp) :
    mergerAllen op.inverse group2 field2 group1 field1 =
      mergerAllen op group1 field1 group2 field2 := by
  cases op <;> simp only [AllenOp.inverse, mergerAllen, eq_comm, Bool.and_comm]

theorem mergerAllen_lt
    (less : readField .w32 group1.record field1 < readField .w32 group2.record field2)
    (op : AllenOp) : mergerAllen op group1 field1 group2 field2 = true ↔ op = .bf := by
  cases op <;> simp [mergerAllen] <;> bv_omega

theorem mergerAllen_gt
    (greater : readField .w32 group2.record field2 < readField .w32 group1.record field1)
    (op : AllenOp) : mergerAllen op group1 field1 group2 field2 = true ↔ op = .af := by
  rw [← mergerAllen_inverse, mergerAllen_lt _ _ _ _ greater]
  cases op <;> decide

theorem relation_unique (op other : AllenOp) (first second : TimeInterval Nat)
    (holds : op.relation.Holds first second) (holds' : other.relation.Holds first second) :
    op = other :=
  AllenOp.relation_bijective.1 (Relation.unique _ _ first second holds holds')

/-- The functions compare one field of each group. Even called directly they decide the
relations only of intervals that do not touch, and whose fields lie in the same order. -/
theorem mergerAllen_iff (first second : TimeInterval Nat) :
    (∀ op : AllenOp, mergerAllen op group1 field1 group2 field2 = true ↔
      op.relation.Holds first second) ↔
    (Relation.before.Holds first second ∧
      readField .w32 group1.record field1 < readField .w32 group2.record field2) ∨
    (Relation.after.Holds first second ∧
      readField .w32 group2.record field2 < readField .w32 group1.record field1) := by
  constructor
  · intro decided
    rcases lt_trichotomy (readField .w32 group1.record field1).toNat
      (readField .w32 group2.record field2).toNat with less | same | greater
    · exact .inl ⟨(decided .bf).mp ((mergerAllen_lt _ _ _ _ less .bf).mpr rfl), less⟩
    · have same := BitVec.eq_of_toNat_eq same
      have meets := (decided .m).mp (by simp [mergerAllen, same])
      have metBy := (decided .mi).mp (by simp [mergerAllen, same])
      exact absurd (relation_unique .m .mi first second meets metBy) (by decide)
    · exact .inr ⟨(decided .af).mp ((mergerAllen_gt _ _ _ _ greater .af).mpr rfl), greater⟩
  · rintro (⟨before, less⟩ | ⟨after, greater⟩) op
    · rw [mergerAllen_lt _ _ _ _ less]
      constructor
      · rintro rfl
        exact before
      · exact fun holds => relation_unique op .bf first second holds before
    · rw [mergerAllen_gt _ _ _ _ greater]
      constructor
      · rintro rfl
        exact after
      · exact fun holds => relation_unique op .af first second holds after

/-- In the same cases exactly one function is true, and it is the one of the relation. -/
theorem mergerAllen_once_iff (first second : TimeInterval Nat) :
    (∃ op : AllenOp, op.relation.Holds first second ∧
      ∀ other, mergerAllen other group1 field1 group2 field2 = true ↔ other = op) ↔
    (Relation.before.Holds first second ∧
      readField .w32 group1.record field1 < readField .w32 group2.record field2) ∨
    (Relation.after.Holds first second ∧
      readField .w32 group2.record field2 < readField .w32 group1.record field1) := by
  rw [← mergerAllen_iff, ← decides_iff_once AllenOp.relation AllenOp.relation_bijective]

/-- So functions that decide one order decide the other. -/
theorem mergerAllen_exchanged (op : AllenOp) (first second : TimeInterval Nat)
    (decided : mergerAllen op group1 field1 group2 field2 = true ↔
      op.relation.Holds first second) :
    mergerAllen op.inverse group2 field2 group1 field1 = true ↔
      op.inverse.relation.Holds second first := by
  rw [mergerAllen_inverse, decided, AllenOp.relation_inverse, Relation.inverse_holds]

end Functions

/-- The cases of the interval operators lack the datatypes that every term carries. -/
theorem allen_unassigned (numBranches : Nat) (op : AllenOp) (term : Prepared.MergerTerm) :
    Prepared.MergerTerm.assigned numBranches (term.allen op .w32 .w32) = none := by
  have missing : mergerCases.lookup
      ((Rule.allen op).value ||| (Rule.s1 .w32).value ||| (Rule.s2 .w32).value) = none := by
    cases op <;> decide +kernel
  rw [Prepared.MergerTerm.assigned, assignMergerFunc, Prepared.MergerTerm.allen, missing]

/-- So a term on two 32-bit fields decides nothing, whatever the groups. -/
theorem allen_undecided (numBranches : Nat) (op : AllenOp) (term : Prepared.MergerTerm)
    (group1 group2 : Group) :
    ¬ AllenDecided numBranches op (term.allen op .w32 .w32) group1 group2 := by
  rintro ⟨assigned, found, -⟩
  rw [allen_unassigned] at found
  cases found

/-- A group of one record, with the given times. -/
def Group.spanning (startTs endTs : BitVec 64) : Group :=
  ⟨[⟨0, fun _ => 0#8⟩], ⟨⟨fun _ => 0#8, startTs, endTs⟩, none⟩⟩

/-- The interval from 1 to 2 is before the one from 3 to 4, but nothing says so. -/
theorem allen_fail :
    ¬ ∀ (numBranches : Nat) (term : Prepared.MergerTerm) (group1 group2 : Group),
      group1.aggrResult.aggrRecord.startTsMsec.toNat <
        group1.aggrResult.aggrRecord.endTsMsec.toNat →
      group2.aggrResult.aggrRecord.startTsMsec.toNat <
        group2.aggrResult.aggrRecord.endTsMsec.toNat →
      ∀ op : AllenOp, AllenDecided numBranches op (term.allen op .w32 .w32) group1 group2 := by
  intro decided
  obtain ⟨assigned, found, -⟩ := decided 2 ⟨0, 0, 1, 0, 0, 0, 0, 0, 0⟩ (Group.spanning 1#64 2#64)
    (Group.spanning 3#64 4#64) (by decide) (by decide) .bf
  rw [allen_unassigned] at found
  cases found

end Nfql
