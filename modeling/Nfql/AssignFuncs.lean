import Mathlib.Data.List.Forall2
import Nfql.PrepareFlowquery

set_option autoImplicit false

/- The `assign_*_func` functions that scripts/generate-functions.py writes into
auto-assign.c: a `switch` without default on the numbers of a term. -/
namespace Nfql

section Operators

/-- The operators and types, in the order of the generator's loops. -/
def CompOp.all : List CompOp := [.eq, .ne, .gt, .lt, .le, .ge]

def Width.all : List Width := [.w8, .w16, .w32, .w64]

def DeltaType.all : List DeltaType := [.abs, .rel, .no]

def AggrOp.all : List AggrOp :=
  [.static, .count, .union, .min, .max, .median, .mean, .stddev, .xor, .sum, .prod, .and, .or]

def AllenOp.all : List AllenOp :=
  [.bf, .af, .m, .mi, .o, .oi, .s, .si, .d, .di, .f, .fi, .eq]

/-- The operators of the generated two-field merger functions. -/
def MergerOp.fieldwise : List MergerOp := CompOp.all.map MergerOp.comp ++ [.isIn]

/-- The `RULE_*` constant of a merger operator. -/
def MergerOp.rule : MergerOp → Rule
  | .comp op => .comp op
  | .isIn => .isIn
  | .allen op => .allen op

end Operators

section Switches

/-- The cases of a `switch` that assigns a function: labels and functions. -/
abbrev Switch (φ : Type) := List (BitVec 64 × φ)

/-- `case <op> | <atype>:` for all operators and datatypes of one field. -/
def oneFieldCases {ω : Type} (ops : List ω) (rule : ω → Rule) : Switch (ω × Width) :=
  ops.flatMap fun op => Width.all.map fun atype =>
    ((rule op).value ||| (Rule.s1 atype).value, (op, atype))

/-- `filter_<op>_<atype>`. -/
def filterCases : Switch (CompOp × Width) := oneFieldCases CompOp.all Rule.comp

/-- `aggr_<op>_<atype>`. -/
def aggrCases : Switch (AggrOp × Width) := oneFieldCases AggrOp.all Rule.aggr

/-- `gfilter_<op>_<atype>`. -/
def gfilterCases : Switch (CompOp × Width) := oneFieldCases CompOp.all Rule.comp

/-- `grouper_<op>_<atype1>_<atype2>_<dtype>`. -/
def grouperCases : Switch (CompOp × Width × Width × DeltaType) :=
  CompOp.all.flatMap fun op => Width.all.flatMap fun atype1 => Width.all.flatMap fun atype2 =>
    DeltaType.all.map fun dtype =>
      ((Rule.comp op).value ||| (Rule.s1 atype1).value ||| (Rule.s2 atype2).value |||
        (Rule.delta dtype).value, (op, atype1, atype2, dtype))

/-- `merger_<op>_<atype1>_<atype2>` and `merger_allen_<op>`, which have no datatypes. -/
def mergerCases : Switch (MergerOp × Width × Width) :=
  (MergerOp.fieldwise.flatMap fun op => Width.all.flatMap fun atype1 =>
    Width.all.map fun atype2 =>
      (op.rule.value ||| (Rule.s1 atype1).value ||| (Rule.s2 atype2).value,
        (op, atype1, atype2))) ++
  AllenOp.all.map fun op => ((Rule.allen op).value, (.allen op, .w32, .w32))

/-- `aggr_static_<atype>`, the same for filter and for grouper terms. -/
def aggrFptrCases : Switch Width := Width.all.map fun atype => ((Rule.s1 atype).value, atype)

/-- `comp_<atype>`, the sort comparators of `get_gtype`. -/
def gtypeCases : Switch Width := Width.all.map fun atype => ((Rule.s2 atype).value, atype)

end Switches

section Terms

/-- The function that `term->func` is set to; `none` if it stays NULL. -/
def assignFilterFunc (term : Prepared.FilterTerm) : Option (CompOp × Width) :=
  filterCases.lookup (term.op ||| term.fieldType)

def assignGrouperFunc (term : Prepared.GrouperTerm) :
    Option (CompOp × Width × Width × DeltaType) :=
  grouperCases.lookup (term.op ||| term.field1Type ||| term.field2Type ||| term.optype)

def assignAggrFunc (term : Prepared.AggrTerm) : Option (AggrOp × Width) :=
  aggrCases.lookup (term.op ||| term.fieldType)

def assignGroupfilterFunc (term : Prepared.GroupfilterTerm) : Option (CompOp × Width) :=
  gfilterCases.lookup (term.op ||| term.fieldType)

def assignMergerFunc (term : Prepared.MergerTerm) : Option (MergerOp × Width × Width) :=
  mergerCases.lookup (term.op ||| term.field1Type ||| term.field2Type)

/-- The merger term as it is called; `none` if it lacks a function or a branch. -/
def Prepared.MergerTerm.assigned (numBranches : Nat) (term : Prepared.MergerTerm) :
    Option (Nfql.MergerTerm numBranches) :=
  match assignMergerFunc term with
  | none => none
  | some (op, atype1, atype2) =>
      if inside : term.branch1 < numBranches ∧ term.branch2 < numBranches then
        some ⟨⟨term.branch1, inside.1⟩, term.field1, ⟨term.branch2, inside.2⟩, term.field2, op,
          atype1, atype2, term.delta⟩
      else none

/-- `get_aggr_fptr(ifgrouper, op)`; `none` for NULL. -/
def getAggrFptr (op : BitVec 64) : Option Width := aggrFptrCases.lookup op

/-- `get_gtype(op)->qsort_comp`; `none` if it stays NULL. -/
def getGtype (op : BitVec 64) : Option Width := gtypeCases.lookup op

/-- A filter term as it is called; `none` if it lacks a function, or if its functions do
not agree on the datatype. -/
def Prepared.FilterTerm.assigned (term : Prepared.FilterTerm) : Option Nfql.FilterTerm :=
  match assignFilterFunc term, getAggrFptr term.fieldType with
  | some (op, atype), some width =>
      if width = atype then some ⟨term.fieldOffset, term.value, term.delta, op, atype⟩ else none
  | _, _ => none

/-- A grouper term also has a sort comparator, for its second field. -/
def Prepared.GrouperTerm.assigned (term : Prepared.GrouperTerm) : Option Nfql.GrouperTerm :=
  match assignGrouperFunc term, getAggrFptr term.field1Type, getGtype term.field2Type with
  | some (op, atype1, atype2, dtype), some width1, some width2 =>
      if width1 = atype1 ∧ width2 = atype2 then
        some ⟨term.fieldOffset1, term.fieldOffset2, term.delta, op, atype1, atype2, dtype⟩
      else none
  | _, _, _ => none

def Prepared.AggrTerm.assigned (term : Prepared.AggrTerm) : Option Nfql.AggrTerm :=
  (assignAggrFunc term).map fun (op, atype) => ⟨term.fieldOffset, op, atype⟩

def Prepared.GroupfilterTerm.assigned (term : Prepared.GroupfilterTerm) :
    Option Nfql.GroupfilterTerm :=
  (assignGroupfilterFunc term).map fun (op, atype) =>
    ⟨term.fieldOffset, term.value, term.delta, op, atype⟩

/-- The branch as it is run: every term has its functions. -/
structure Prepared.Branch.Assigned (branch : Prepared.Branch) (run : Nfql.Branch) : Prop where
  filter : List.Forall₂ (List.Forall₂ fun term assigned =>
    Prepared.FilterTerm.assigned term = some assigned) branch.filterClauseset run.filterClauseset
  grouper : List.Forall₂ (List.Forall₂ fun term assigned =>
    Prepared.GrouperTerm.assigned term = some assigned)
      branch.grouperClauseset run.grouperClauseset
  aggregation : List.Forall₂ (fun term assigned => Prepared.AggrTerm.assigned term = some assigned)
    branch.aggrClauseTermset run.aggrClauseTermset
  groupfilter : List.Forall₂ (List.Forall₂ fun term assigned =>
    Prepared.GroupfilterTerm.assigned term = some assigned)
      branch.groupfilterClauseset run.groupfilterClauseset

/-- The flowquery as it is run. -/
structure Prepared.Flowquery.Assigned (fquery : Prepared.Flowquery) (run : Nfql.Flowquery) :
    Prop where
  branchset : List.Forall₂ Prepared.Branch.Assigned fquery.branchset run.branchset
  merger : List.Forall₂ (List.Forall₂ fun term assigned =>
    Prepared.MergerTerm.assigned run.branchset.length term = some assigned)
      fquery.mergerClauseset run.mergerClauseset

end Terms

section Labels

/-- The labels made of some high bits and some low bits. -/
def combined (bases lows : List (BitVec 64)) : List (BitVec 64) :=
  bases.flatMap fun high => lows.map fun low => high ||| low

theorem mem_combined (bases lows : List (BitVec 64)) (word : BitVec 64) :
    word ∈ combined bases lows ↔ ∃ high ∈ bases, ∃ low ∈ lows, high ||| low = word := by
  simp only [combined, List.mem_flatMap, List.mem_map]

/-- When the low bits take all values, a word is a label exactly if its high bits are. -/
theorem mem_combined_iff (mask : BitVec 64) (bases lows : List (BitVec 64))
    (base : bases.all fun high => high &&& mask == 0#64)
    (code : lows.all fun low => low &&& mask == low)
    (full : ∀ word : BitVec 64, word &&& mask ∈ lows) (word : BitVec 64) :
    word ∈ combined bases lows ↔ word &&& ~~~mask ∈ bases := by
  rw [mem_combined]
  constructor
  · rintro ⟨high, isBase, low, isLow, rfl⟩
    have cleared : (high ||| low) &&& ~~~mask = high := by
      apply BitVec.eq_of_getLsbD_eq
      intro index inside
      have highBit := congrArg (fun word => word.getLsbD index)
        (beq_iff_eq.mp (List.all_eq_true.mp base high isBase))
      have lowBit := congrArg (fun word => word.getLsbD index)
        (beq_iff_eq.mp (List.all_eq_true.mp code low isLow))
      simp only [BitVec.getLsbD_and, BitVec.getLsbD_zero] at highBit lowBit
      simp only [BitVec.getLsbD_or, BitVec.getLsbD_and, BitVec.getLsbD_not, inside, decide_true,
        Bool.true_and]
      cases marked : mask.getLsbD index <;> simp_all
    rwa [cleared]
  · intro isBase
    refine ⟨_, isBase, _, full word, ?_⟩
    apply BitVec.eq_of_getLsbD_eq
    intro index inside
    simp only [BitVec.getLsbD_or, BitVec.getLsbD_and, BitVec.getLsbD_not, inside, decide_true,
      Bool.true_and]
    cases word.getLsbD index <;> cases mask.getLsbD index <;> rfl

/-- The datatype bits of one field, and of two. -/
def oneField : BitVec 64 := (Rule.s1 .w64).value

def twoFields : BitVec 64 := (Rule.s1 .w64).value ||| (Rule.s2 .w64).value

/-- What those bits can be. -/
def oneFieldCodes : List (BitVec 64) := Width.all.map fun atype => (Rule.s1 atype).value

def twoFieldCodes : List (BitVec 64) :=
  combined oneFieldCodes (Width.all.map fun atype => (Rule.s2 atype).value)

private theorem codes_full (mask : BitVec 64) (codes : List (BitVec 64)) (narrow : mask.toNat < 16)
    (listed : ∀ code < 16, BitVec.ofNat 64 code &&& mask ∈ codes) (word : BitVec 64) :
    word &&& mask ∈ codes := by
  have small : (word &&& mask).toNat < 16 := by
    rw [BitVec.toNat_and]
    exact lt_of_le_of_lt Nat.and_le_right narrow
  have listed := listed _ small
  rwa [BitVec.ofNat_toNat, BitVec.setWidth_eq, BitVec.and_assoc, BitVec.and_self] at listed

theorem mem_oneField_iff (bases : List (BitVec 64))
    (base : bases.all fun high => high &&& oneField == 0#64) (word : BitVec 64) :
    word ∈ combined bases oneFieldCodes ↔ word &&& ~~~oneField ∈ bases :=
  mem_combined_iff oneField bases _ base (by decide +kernel)
    (codes_full _ _ (by decide +kernel) (by decide +kernel)) word

theorem mem_twoFields_iff (bases : List (BitVec 64))
    (base : bases.all fun high => high &&& twoFields == 0#64) (word : BitVec 64) :
    word ∈ combined bases twoFieldCodes ↔ word &&& ~~~twoFields ∈ bases :=
  mem_combined_iff twoFields bases _ base (by decide +kernel)
    (codes_full _ _ (by decide +kernel) (by decide +kernel)) word

variable {φ : Type} (cases : Switch φ)

def Switch.labels : List (BitVec 64) := cases.map Prod.fst

/-- A function is assigned exactly if the word is one of the labels. -/
theorem assigned_iff (word : BitVec 64) :
    (cases.lookup word).isSome = true ↔ word ∈ cases.labels := by
  rw [List.lookup_isSome_iff, Switch.labels, List.mem_map]
  constructor
  · rintro ⟨assigned, isCase, same⟩
    exact ⟨assigned, isCase, (beq_iff_eq.mp same).symm⟩
  · rintro ⟨assigned, isCase, same⟩
    exact ⟨assigned, isCase, beq_iff_eq.mpr same.symm⟩

end Labels

section Assigned

variable (word : BitVec 64)

theorem filterCases_iff : (filterCases.lookup word).isSome = true ↔
    word &&& ~~~oneField ∈ CompOp.all.map fun op => (Rule.comp op).value := by
  have labels : filterCases.labels =
      combined (CompOp.all.map fun op => (Rule.comp op).value) oneFieldCodes := by decide +kernel
  rw [assigned_iff, labels, mem_oneField_iff _ (by decide +kernel)]

theorem aggrCases_iff : (aggrCases.lookup word).isSome = true ↔
    word &&& ~~~oneField ∈ AggrOp.all.map fun op => (Rule.aggr op).value := by
  have labels : aggrCases.labels =
      combined (AggrOp.all.map fun op => (Rule.aggr op).value) oneFieldCodes := by decide +kernel
  rw [assigned_iff, labels, mem_oneField_iff _ (by decide +kernel)]

/-- The operator and the delta type of a grouper comparator. -/
def grouperBases : List (BitVec 64) :=
  combined (CompOp.all.map fun op => (Rule.comp op).value)
    (DeltaType.all.map fun dtype => (Rule.delta dtype).value)

theorem grouperCases_iff : (grouperCases.lookup word).isSome = true ↔
    word &&& ~~~twoFields ∈ grouperBases := by
  rw [assigned_iff, ← mem_twoFields_iff _ (by decide +kernel), mem_combined]
  simp only [Switch.labels, grouperCases, grouperBases, twoFieldCodes, oneFieldCodes, mem_combined,
    List.mem_map, List.mem_flatMap]
  constructor
  · rintro ⟨_, ⟨op, isOp, atype1, isType1, atype2, isType2, dtype, isDelta, rfl⟩, rfl⟩
    refine ⟨_, ⟨_, ⟨op, isOp, rfl⟩, _, ⟨dtype, isDelta, rfl⟩, rfl⟩,
      _, ⟨_, ⟨atype1, isType1, rfl⟩, _, ⟨atype2, isType2, rfl⟩, rfl⟩, ?_⟩
    ac_rfl
  · rintro ⟨_, ⟨_, ⟨op, isOp, rfl⟩, _, ⟨dtype, isDelta, rfl⟩, rfl⟩,
      _, ⟨_, ⟨atype1, isType1, rfl⟩, _, ⟨atype2, isType2, rfl⟩, rfl⟩, rfl⟩
    refine ⟨_, ⟨op, isOp, atype1, isType1, atype2, isType2, dtype, isDelta, rfl⟩, ?_⟩
    ac_rfl

theorem mergerCases_iff : (mergerCases.lookup word).isSome = true ↔
    word &&& ~~~twoFields ∈ (MergerOp.fieldwise.map fun op => op.rule.value) ∨
      word ∈ AllenOp.all.map fun op => (Rule.allen op).value := by
  have labels : mergerCases.labels =
      combined (MergerOp.fieldwise.map fun op => op.rule.value) twoFieldCodes ++
        AllenOp.all.map fun op => (Rule.allen op).value := by decide +kernel
  rw [assigned_iff, labels, List.mem_append, mem_twoFields_iff _ (by decide +kernel)]

theorem gtypeCases_iff : (gtypeCases.lookup word).isSome = true ↔
    word ∈ Width.all.map fun atype => (Rule.s2 atype).value := by
  rw [assigned_iff]
  exact Iff.rfl

end Assigned

end Nfql
