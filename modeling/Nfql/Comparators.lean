import Nfql.Pipeline

set_option autoImplicit false

/- The comparators that scripts/generate-functions.py writes into auto-comps.c. -/
namespace Nfql

/-- The comparison all generated comparators with a delta share. Narrow operands
are promoted by the 64-bit delta, so every sum and difference is a `uint64_t`. -/
def compareDelta (op : CompOp) (lhs rhs delta : BitVec 64) : Bool :=
  match op with
  | .eq => decide (rhs - delta ≤ lhs) && decide (lhs ≤ rhs + delta)
  | .ne => decide (lhs < rhs - delta) || decide (rhs + delta < lhs)
  | .lt => decide (lhs < rhs + delta)
  | .le => decide (lhs ≤ rhs + delta)
  | .gt => decide (rhs - delta < lhs)
  | .ge => decide (rhs - delta ≤ lhs)

/-- The comparison without a delta, for `RULE_NO` grouper terms. -/
def compareNo (op : CompOp) (lhs rhs : BitVec 64) : Bool :=
  match op with
  | .eq => decide (lhs = rhs)
  | .ne => decide (lhs ≠ rhs)
  | .lt => decide (lhs < rhs)
  | .le => decide (lhs ≤ rhs)
  | .gt => decide (rhs < lhs)
  | .ge => decide (rhs ≤ lhs)

/-- `filter_<op>_<atype>`. -/
def FilterTerm.func (term : FilterTerm) (record : Record) : Bool :=
  compareDelta term.op (readField term.fieldType record term.fieldOffset) term.value term.delta

/-- The member whose field 1 a grouper comparator reads: `members[num_members-1]`
for a relative delta, `members[0]` otherwise. -/
def groupMember (optype : DeltaType) (members : List RecordPtr) : Option RecordPtr :=
  match optype with
  | .rel => members.getLast?
  | .abs | .no => members.head?

/-- `grouper_<op>_<atype1>_<atype2>_<dtype>`. -/
def GrouperTerm.func (term : GrouperTerm) (members : List RecordPtr) (record2 : Record) : Bool :=
  match groupMember term.optype members with
  -- never taken: a group is created around its first member
  | none => false
  | some member =>
      let rec1 := readField term.field1Type member.record term.fieldOffset1
      let rec2 := readField term.field2Type record2 term.fieldOffset2
      match term.optype with
      | .no => compareNo term.op rec1 rec2
      | .abs | .rel => compareDelta term.op rec1 rec2 term.delta

/-- `gfilter_<op>_<atype>`. -/
def GroupfilterTerm.func (term : GroupfilterTerm) (group : Group) : Bool :=
  compareDelta term.op (readField term.fieldType group.record term.field) term.value term.delta

/-- `merger_<op>_<atype1>_<atype2>` for the six comparisons: a zero field is taken
for one that is not single-valued, and never matches. -/
def mergerComp (op : CompOp) (atype1 atype2 : Width) (group1 : Group) (field1 : Nat)
    (group2 : Group) (field2 : Nat) (delta : BitVec 64) : Bool :=
  let value1 := readField atype1 group1.record field1
  let value2 := readField atype2 group2.record field2
  if value1 = 0#64 ∨ value2 = 0#64 then false else compareDelta op value1 value2 delta

/-- `merger_in_<atype1>_<atype2>`, which indexes `aggrset` with the field offsets. -/
def mergerIn (atype1 atype2 : Width) (group1 : Group) (field1 : Nat) (group2 : Group)
    (field2 : Nat) (delta : BitVec 64) : Except Fault Bool :=
  if readField atype1 group1.record field1 = 0#64 ∨
      readField atype2 group2.record field2 = 0#64 then .ok false
  else
    match group2.aggrResult.aggrset with
    | none => .error .nullPointer
    | some aggrset2 =>
        match aggrset2[field2]? with
        | none => .error .outOfBounds
        | some aggr2 =>
            match aggr2.values with
            | [] => .ok false
            | values2 =>
                match group1.aggrResult.aggrset with
                | none => .error .nullPointer
                | some aggrset1 =>
                    match aggrset1[field1]? with
                    | none => .error .outOfBounds
                    | some aggr1 =>
                        match aggr1.values with
                        | [] => .error .outOfBounds
                        | value1 :: _ =>
                            .ok (values2.any fun value2 => compareDelta .eq value1 value2 delta)

/-- `merger_allen_<op>`: both fields are read as 32-bit values. -/
def mergerAllen (op : AllenOp) (group1 : Group) (field1 : Nat) (group2 : Group)
    (field2 : Nat) : Bool :=
  let t1 := readField .w32 group1.record field1
  let t2 := readField .w32 group2.record field2
  match op with
  | .bf => decide (t1 < t2)
  | .af => decide (t2 < t1)
  | .m => decide (t1 = t2)
  | .mi => decide (t1 = t2)
  | .o => decide (t1 < t2) && decide (t2 < t1)
  | .oi => decide (t2 < t1) && decide (t1 < t2)
  | .s => decide (t1 = t2) && decide (t1 < t2)
  | .si => decide (t1 = t2) && decide (t2 < t1)
  | .d => decide (t2 < t1) && decide (t1 < t2)
  | .di => decide (t1 < t2) && decide (t2 < t1)
  | .f => decide (t1 = t2) && decide (t2 < t1)
  | .fi => decide (t1 = t2) && decide (t1 < t2)
  | .eq => decide (t1 = t2) && decide (t1 = t2)

/-- `term->func(...)` as `merger` calls it, with the delta it passes. -/
def MergerTerm.func {numBranches : Nat} (term : MergerTerm numBranches) (group1 group2 : Group)
    (delta : BitVec 64) : Except Fault Bool :=
  match term.op with
  | .comp op => .ok
      (mergerComp op term.field1Type term.field2Type group1 term.field1 group2 term.field2 delta)
  | .isIn => mergerIn term.field1Type term.field2Type group1 term.field1 group2 term.field2 delta
  | .allen op => .ok (mergerAllen op group1 term.field1 group2 term.field2)

theorem compareNo_eq (lhs rhs : BitVec 64) : compareNo .eq lhs rhs = true ↔ lhs = rhs := by
  simp [compareNo]

/-- With delta 0 the two-sided `RULE_EQ` test is equality. -/
theorem compareDelta_eq_zero (lhs rhs : BitVec 64) :
    compareDelta .eq lhs rhs 0#64 = true ↔ lhs = rhs := by
  simp only [compareDelta, BitVec.sub_zero, BitVec.add_zero, Bool.and_eq_true, decide_eq_true_eq]
  constructor
  · rintro ⟨lower, upper⟩
    exact BitVec.le_antisymm upper lower
  · rintro rfl
    exact ⟨BitVec.le_refl _, BitVec.le_refl _⟩

theorem compareDelta_gt_zero (lhs rhs : BitVec 64) :
    compareDelta .gt lhs rhs 0#64 = true ↔ rhs.toNat < lhs.toNat := by
  simp only [compareDelta, BitVec.sub_zero, decide_eq_true_eq, BitVec.lt_def]

/-- The zero guard makes `RULE_EQ` with delta 0 equality of non-zero values. -/
theorem mergerComp_eq_zero (atype1 atype2 : Width) (group1 : Group) (field1 : Nat)
    (group2 : Group) (field2 : Nat) :
    mergerComp .eq atype1 atype2 group1 field1 group2 field2 0#64 = true ↔
      readField atype1 group1.record field1 = readField atype2 group2.record field2 ∧
        readField atype1 group1.record field1 ≠ 0#64 := by
  simp only [mergerComp]
  split
  · rename_i zero
    constructor
    · intro impossible
      cases impossible
    · rintro ⟨same, positive⟩
      rcases zero with zero | zero
      · exact absurd zero positive
      · exact absurd (same.trans zero) positive
  · rename_i positive
    rw [compareDelta_eq_zero]
    exact ⟨fun same => ⟨same, fun zero => positive (.inl zero)⟩, fun same => same.1⟩

end Nfql
