import Nfql.PrepareFlowquery
import Nfql.QueryStages

set_option autoImplicit false

/- When the terms of a flowquery say what the rules of the query say. -/
namespace Nfql

open JsonC Outcomes

section Carried

variable (offset : String → Option Nat)

/-- The term names the rule's field, and has its value, delta, operator and datatype. -/
structure FilterRule.CarriedBy (rule : FilterRule) (term : Prepared.FilterTerm) : Prop where
  field : offset rule.name = some term.fieldOffset
  value : (term.value.toNat : Int) = rule.value
  delta : (term.delta.toNat : Int) = rule.delta
  op : term.op = rule.op.value
  fieldType : term.fieldType = rule.datatype.value

structure GrouperRule.CarriedBy (rule : GrouperRule) (term : Prepared.GrouperTerm) : Prop where
  field1 : offset rule.field1Name = some term.fieldOffset1
  field2 : offset rule.field2Name = some term.fieldOffset2
  delta : (term.delta.toNat : Int) = rule.delta
  op : term.op = rule.opName.value
  field1Type : term.field1Type = rule.field1Type.value
  field2Type : term.field2Type = rule.field2Type.value
  optype : term.optype = rule.opType.value

structure AggregationRule.CarriedBy (rule : AggregationRule) (term : Prepared.AggrTerm) :
    Prop where
  field : offset rule.name = some term.fieldOffset
  op : term.op = rule.op.value
  fieldType : term.fieldType = rule.datatype.value

structure MergerRule.CarriedBy (rule : MergerRule) (term : Prepared.MergerTerm) : Prop where
  branch1 : (term.branch1 : Int) = rule.branch1Id
  field1 : offset rule.field1Name = some term.field1
  branch2 : (term.branch2 : Int) = rule.branch2Id
  field2 : offset rule.field2Name = some term.field2
  op : term.op = rule.opName.value
  field1Type : term.field1Type = rule.field1Type.value
  field2Type : term.field2Type = rule.field2Type.value
  optype : term.optype = rule.opType.value
  delta : (term.delta.toNat : Int) = rule.delta

end Carried

section Integers

/-- The integers of a rule that its term copies. -/
def FilterRule.integers (rule : FilterRule) : List Int := [rule.value, rule.delta]

def GrouperRule.integers (rule : GrouperRule) : List Int := [rule.delta]

/-- A merger rule states no delta and two branches of the query. -/
structure MergerRule.Plain (conversion : IntConversion) (numBranches : Nat) (rule : MergerRule) :
    Prop where
  delta : rule.delta = 0
  kept1 : conversion.Keeps rule.branch1Id
  branch1 : rule.branch1Id < numBranches
  kept2 : conversion.Keeps rule.branch2Id
  branch2 : rule.branch2Id < numBranches

end Integers

section Terms

variable {σ : Type} (reader : QueryReader σ) (offset : String → Option Nat)

/-- The field is known to the reader of the trace. -/
def Known (name : String) : Prop := (offset name).isSome = true

theorem parsedInt_iff (value : Int) :
    ((parsedInt reader value).toNat : Int) = value ↔ reader.library.conversion.Keeps value :=
  keeps_iff reader.library.conversion value

theorem checkedEnum_name (rule : Rule) (message : String) :
    checkedEnum rule.name message = .ok rule.value := by
  rw [checkedEnum, getEnum_name, if_neg rule.value_ne_minusOne]

theorem checkedOffset_yields (name message : String) (P : Nat → Prop) :
    Yields (checkedOffset offset name message) P ↔ ∃ found, offset name = some found ∧ P found := by
  unfold checkedOffset
  cases known : offset name with
  | none => simp [yields_error]
  | some found => simp [yields_ok]

theorem known_iff (name : String) : Known offset name ↔ ∃ found, offset name = some found :=
  Option.isSome_iff_exists

theorem prepareFilterTerm_yields (rule : FilterRule) :
    Yields (prepareFilterTerm offset (rule.parsed reader)) (rule.CarriedBy offset) ↔
      (∀ name ∈ rule.names, Known offset name) ∧
        ∀ value ∈ rule.integers, reader.library.conversion.Keeps value := by
  unfold prepareFilterTerm FilterRule.parsed FilterRule.names FilterRule.integers
  simp only [yields_bind, checkedOffset_yields, checkedEnum_name, yields_ok, List.forall_mem_cons,
    List.not_mem_nil, IsEmpty.forall_iff, implies_true, and_true, known_iff, ← parsedInt_iff]
  constructor
  · rintro ⟨found, known, carried⟩
    exact ⟨⟨found, known⟩, carried.value, carried.delta⟩
  · rintro ⟨⟨found, known⟩, value, delta⟩
    exact ⟨found, known, known, value, delta, rfl, rfl⟩

theorem prepareGrouperTerm_yields (rule : GrouperRule) :
    Yields (prepareGrouperTerm offset (rule.parsed reader)) (rule.CarriedBy offset) ↔
      (∀ name ∈ rule.names, Known offset name) ∧
        ∀ value ∈ rule.integers, reader.library.conversion.Keeps value := by
  unfold prepareGrouperTerm GrouperRule.parsed GrouperRule.names GrouperRule.integers
  simp only [yields_bind, checkedOffset_yields, checkedEnum_name, yields_ok, getEnum_name,
    if_neg (Rule.value_ne_minusOne _), List.forall_mem_cons, List.not_mem_nil, IsEmpty.forall_iff,
    implies_true, and_true, known_iff, ← parsedInt_iff]
  constructor
  · rintro ⟨found1, known1, found2, known2, carried⟩
    exact ⟨⟨⟨found1, known1⟩, ⟨found2, known2⟩⟩, carried.delta⟩
  · rintro ⟨⟨⟨found1, known1⟩, ⟨found2, known2⟩⟩, delta⟩
    exact ⟨found1, known1, found2, known2, known1, known2, delta, rfl, rfl, rfl, rfl⟩

theorem prepareAggrTerm_yields (rule : AggregationRule) :
    Yields (prepareAggrTerm offset rule.parsed) (rule.CarriedBy offset) ↔
      ∀ name ∈ rule.names, Known offset name := by
  unfold prepareAggrTerm AggregationRule.parsed AggregationRule.names
  simp only [yields_bind, checkedOffset_yields, checkedEnum_name, yields_ok, List.forall_mem_cons,
    List.not_mem_nil, IsEmpty.forall_iff, implies_true, and_true, known_iff]
  constructor
  · rintro ⟨found, known, _⟩
    exact ⟨found, known⟩
  · rintro ⟨found, known⟩
    exact ⟨found, known, known, rfl, rfl⟩

theorem branchAt_yields (numBranches : Nat) (id : BitVec 64) (P : Nat → Prop) :
    Yields (branchAt numBranches id) P ↔ id.toNat < numBranches ∧ P id.toNat := by
  unfold branchAt
  split
  · rename_i inside
    rw [yields_ok, and_iff_right inside]
  · rename_i outside
    exact iff_of_false (yields_error _ _) fun holds => outside holds.1

theorem prepareMergerTerm_yields (numBranches : Nat) (rule : MergerRule) :
    Yields (prepareMergerTerm offset numBranches (rule.parsed reader)) (rule.CarriedBy offset) ↔
      (∀ name ∈ rule.names, Known offset name) ∧
        rule.Plain reader.library.conversion numBranches := by
  unfold prepareMergerTerm MergerRule.parsed MergerRule.names
  simp only [yields_bind, checkedOffset_yields, checkedEnum_name, yields_ok, branchAt_yields,
    List.forall_mem_cons, List.not_mem_nil, IsEmpty.forall_iff, implies_true, and_true, known_iff]
  constructor
  · rintro ⟨found1, known1, found2, known2, inside1, inside2, carried⟩
    have branch1 : ((parsedInt reader rule.branch1Id).toNat : Int) = rule.branch1Id :=
      carried.branch1
    have branch2 : ((parsedInt reader rule.branch2Id).toNat : Int) = rule.branch2Id :=
      carried.branch2
    refine ⟨⟨⟨found1, known1⟩, ⟨found2, known2⟩⟩, carried.delta.symm, ?_, ?_, ?_, ?_⟩
    · exact (parsedInt_iff reader _).mp branch1
    · omega
    · exact (parsedInt_iff reader _).mp branch2
    · omega
  · rintro ⟨⟨⟨found1, known1⟩, ⟨found2, known2⟩⟩, plain⟩
    have branch1 := (parsedInt_iff reader _).mpr plain.kept1
    have branch2 := (parsedInt_iff reader _).mpr plain.kept2
    have inside1 := plain.branch1
    have inside2 := plain.branch2
    refine ⟨found1, known1, found2, known2, by omega, by omega, branch1, known1, branch2, known2,
      rfl, rfl, rfl, rfl, plain.delta.symm⟩

end Terms

end Nfql
