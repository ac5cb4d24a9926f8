import Nfql.IpfixRegister
import Nfql.RecordBounds
import Nfql.ScriptAnswers

set_option autoImplicit false

/- Scripts over information elements: the template leaves every element a place of its
own, so that no total lies over another field. -/
namespace Nfql

section Elements

/-- The datatype is not wider than the information element of that name. -/
def NamedField.Narrow (field : NamedField) : Prop :=
  (field.width.bytes : Int) ≤ ipfixIeTypeSizeof (getIpfixType field.name)

instance (field : NamedField) : Decidable field.Narrow :=
  inferInstanceAs (Decidable ((field.width.bytes : Int) ≤ _))

/-- The fields of the branch are information elements, and its totals are elements of
their own. -/
structure BranchScript.OfElements (branch : BranchScript) : Prop where
  named : ∀ field ∈ branch.namedFields, field.Narrow
  totals : ∀ total ∈ branch.totals, total.field.Narrow
  unnamed : ∀ total ∈ branch.totals, ∀ field ∈ branch.namedFields, total.field.name ≠ field.name
  distinct : branch.totals.Pairwise fun total other => total.field.name ≠ other.field.name

theorem NamedField.Narrow.fixed {field : NamedField} (narrow : field.Narrow) :
    FixedSize field.name := by
  have positive : 0 < field.width.bytes := by cases field.width <;> decide
  unfold NamedField.Narrow at narrow
  unfold FixedSize
  omega

theorem mem_keys (branch : BranchScript) (key : Key) :
    key ∈ branch.keys ↔ ∃ clause ∈ branch.grouper.toList, key ∈ clause := by
  unfold BranchScript.keys
  cases branch.grouper with
  | none => simp
  | some clause => simp

/-- The names in the rules of a branch are those of its named fields and its totals. -/
theorem branchNames_iff (branch : BranchScript) (P : String → Prop) :
    (∀ name ∈ branch.rules.names, P name) ↔
      (∀ field ∈ branch.namedFields, P field.name) ∧ ∀ total ∈ branch.totals, P total.field.name := by
  unfold BranchRules.names BranchScript.rules BranchRules.aggregation BranchScript.namedFields
  simp only [Option.getD_some, Option.map_some, Option.bind_some, List.forall_mem_append,
    List.forall_mem_flatMap, List.forall_mem_map, FilterRule.names, GrouperRule.names,
    AggregationRule.names, List.forall_mem_cons, List.not_mem_nil, IsEmpty.forall_iff, implies_true,
    and_true]
  constructor
  · rintro ⟨filter, grouper, ⟨-, totals⟩, -⟩
    refine ⟨⟨fun term member => ?_, fun key member => ?_⟩, totals⟩
    · obtain ⟨clause, inBranch, inClause⟩ := List.mem_flatten.mp member
      exact filter clause inBranch term inClause
    · obtain ⟨clause, inBranch, inClause⟩ := (mem_keys branch key).mp member
      exact (grouper clause inBranch key inClause).1
  · rintro ⟨⟨filter, keys⟩, totals⟩
    refine ⟨fun clause inBranch term inClause => ?_, fun clause inBranch key inClause => ?_,
      ⟨fun field member => ?_, totals⟩, fun clause _ term _ => ?_⟩
    · exact filter term (List.mem_flatten.mpr ⟨clause, inBranch, inClause⟩)
    · have named := keys key ((mem_keys branch key).mpr ⟨clause, inBranch, inClause⟩)
      exact ⟨named, named⟩
    · rcases List.mem_append.mp (branch.named field member) with inFilter | inGrouper
      · obtain ⟨term, listed, rfl⟩ := List.mem_map.mp inFilter
        exact filter term listed
      · obtain ⟨key, listed, rfl⟩ := List.mem_map.mp inGrouper
        exact keys key listed
    · cases term.1 with
      | ofKey key member => exact keys key member
      | ofTotal total member => exact totals total member

theorem value_fixed (branch : BranchScript) (elements : branch.OfElements) (value : branch.Value) :
    FixedSize value.field.name := by
  cases value with
  | ofKey key member =>
      exact (elements.named key.field (List.mem_append_right _ (List.mem_map_of_mem member))).fixed
  | ofTotal total member => exact (elements.totals total member).fixed

theorem queryNames_fixed (script : Script)
    (elements : ∀ branch ∈ script.branches, branch.OfElements) :
    ∀ name ∈ script.query.names, FixedSize name := by
  unfold Query.names Script.query
  simp only [Option.getD_some, List.forall_mem_append, List.forall_mem_flatMap, List.forall_mem_map,
    MergerRule.names, List.forall_mem_cons, List.not_mem_nil, IsEmpty.forall_iff, implies_true,
    and_true]
  refine ⟨fun branch member => ?_, fun clause _ join _ => ⟨?_, ?_⟩⟩
  · have elements := elements branch member
    exact (branchNames_iff branch FixedSize).mpr ⟨fun field member =>
      (elements.named field member).fixed, fun total member => (elements.totals total member).fixed⟩
  · exact value_fixed _ (elements _ (List.get_mem _ join.branch1)) join.value1
  · exact value_fixed _ (elements _ (List.get_mem _ join.branch2)) join.value2

end Elements

section Template

variable {templ : IpfixTempl} (aligned : templ.Aligned)

include aligned

/-- The elements of a template have no byte in common. -/
theorem elements_apart (ie : IpfixIe) (member : ie ∈ templ.arr) (other : IpfixIe)
    (member' : other ∈ templ.arr) (distinct : ie ≠ other) :
    ByteMemory.Apart ie.offset ie.size other.offset other.size :=
  (aligned.entered member' List.prefix_rfl (Nat.le_refl _) (Nat.le_add_right _ _)).apart ie member
    distinct

/-- A field lies at the beginning of its element. -/
theorem element_placed (field : NamedField) (narrow : field.Narrow)
    (known : field.name ∈ templ.arr.map IpfixIe.name) :
    ∃ ie ∈ templ.arr, ie.name = field.name ∧ ie.offset =
      (field.place (ipfixTemplGetIeOffset templ)).offset ∧ field.width.bytes ≤ ie.size := by
  obtain ⟨ie, found⟩ := Option.isSome_iff_exists.mp ((ipfixTemplGetIe_isSome field.name).mpr known)
  have member := List.mem_of_find?_eq_some found
  have name : field.name = ie.name :=
    of_decide_eq_true (List.find?_some (p := fun ie : IpfixIe => decide (field.name = ie.name)) found)
  refine ⟨ie, member, name.symm, ?_, ?_⟩
  · rw [NamedField.place, ipfixTemplGetIeOffset, found]
    rfl
  · have size := (sizeT_sizeof ie.name (aligned.fixed ie member)).1
    rw [← aligned.sizes ie member] at size
    unfold NamedField.Narrow at narrow
    rw [name] at narrow
    omega

/-- Fields of different elements have no byte in common. -/
theorem places_apart (field other : NamedField) (narrow : field.Narrow) (narrow' : other.Narrow)
    (known : field.name ∈ templ.arr.map IpfixIe.name)
    (known' : other.name ∈ templ.arr.map IpfixIe.name) (differ : field.name ≠ other.name) :
    (field.place (ipfixTemplGetIeOffset templ)).Apart (other.place (ipfixTemplGetIeOffset templ)) := by
  obtain ⟨ie, member, name, offset, inside⟩ := element_placed aligned field narrow known
  obtain ⟨ie', member', name', offset', inside'⟩ := element_placed aligned other narrow' known'
  have distinct : ie ≠ ie' := by
    rintro rfl
    exact differ (name.symm.trans name')
  have apart := elements_apart aligned ie member ie' member' distinct
  have width : (field.place (ipfixTemplGetIeOffset templ)).width = field.width := rfl
  have width' : (other.place (ipfixTemplGetIeOffset templ)).width = other.width := rfl
  unfold Field.Apart
  unfold ByteMemory.Apart at apart ⊢
  rw [← offset, ← offset', width, width']
  omega

theorem elements_independent (branch : BranchScript) (elements : branch.OfElements)
    (known : ∀ name ∈ branch.rules.names, name ∈ templ.arr.map IpfixIe.name) :
    branch.Independent (ipfixTemplGetIeOffset templ) := by
  obtain ⟨named, totals⟩ := (branchNames_iff branch (· ∈ templ.arr.map IpfixIe.name)).mp known
  constructor
  · intro total isTotal field isNamed
    exact places_apart aligned total.field field (elements.totals total isTotal)
      (elements.named field isNamed) (totals total isTotal) (named field isNamed)
        (elements.unnamed total isTotal field isNamed)
  · refine elements.distinct.imp_of_mem fun {total other} isTotal isOther differ => ?_
    exact places_apart aligned total.field other.field (elements.totals total isTotal)
      (elements.totals other isOther) (totals total isTotal) (totals other isOther) differ

end Template

section Loading

/-- The template after a query is what the registrations lead to. -/
theorem registerAll_ipfix (library : JsonC.Library) (templ : IpfixTempl) (names : List String) :
    (QueryReader.ipfix library).registerAll templ names =
      match ipfixTemplRegisterAll templ names with
      | .ok registered => registered
      | .error _ => none := by
  show names.foldlM (QueryReader.ipfix library).ipfixTemplIeRegister templ = _
  induction names generalizing templ with
  | nil => rfl
  | cons name rest ih =>
      rw [List.foldlM_cons, ipfixTemplRegisterAll]
      show (match ipfixTemplIeRegister templ name with
        | .ok registered => registered
        | .error _ => none) >>= _ = _
      cases ipfixTemplIeRegister templ name with
      | error fault => rfl
      | ok registered =>
          cases registered with
          | none => rfl
          | some next => exact ih next

end Loading

end Nfql

namespace Nfql.Emit

/-- The flows of the script's test in the standard template: 64 bytes with the addresses at
16 and 20, the packets at 40 and the protocol at 56. -/
def ipfixFlow (source destination packetsLow packetsHigh protocol : BitVec 8) : Record :=
  Record.ofBytes (List.replicate 16 0#8 ++ [source, 0#8, 0#8, 0#8, destination, 0#8, 0#8, 0#8] ++
    List.replicate 16 0#8 ++ [packetsLow, packetsHigh, 0#8, 0#8, 0#8, 0#8, 0#8, 0#8] ++
    [1#8, 0#8, 0#8, 0#8, 0#8, 0#8, 0#8, 0#8] ++ [protocol, 0#8, 0#8, 0#8, 0#8, 0#8, 0#8, 0#8])

def ipfixFlows : List Record :=
  [ipfixFlow 1#8 2#8 0x98#8 0x3a#8 6#8, ipfixFlow 2#8 1#8 0x30#8 0x75#8 6#8,
    ipfixFlow 3#8 1#8 9#8 0#8 6#8, ipfixFlow 1#8 2#8 0x98#8 0x3a#8 17#8,
    ipfixFlow 1#8 2#8 0x70#8 0x17#8 6#8]

end Nfql.Emit
