import Nfql.AssignFuncs
import Nfql.Outcomes
import Nfql.QueryStages
import Nfql.QueryTemplates
import Nfql.RecordAccess

set_option autoImplicit false

/- Whether the functions of a query's terms stay inside the record. -/
namespace Nfql

open Outcomes

section Fields

/-- The fields that a term's functions read or write: its comparator, and the
aggregation function that saves it in the group record. -/
def Prepared.FilterTerm.fields (term : Prepared.FilterTerm) : List Field :=
  (assignFilterFunc term).toList.map (fun func => ⟨term.fieldOffset, func.2⟩) ++
    (getAggrFptr term.fieldType).toList.map fun atype => ⟨term.fieldOffset, atype⟩

/-- The comparator, the sort comparator, and the aggregation function, which saves both
fields at one width. -/
def Prepared.GrouperTerm.fields (term : Prepared.GrouperTerm) : List Field :=
  (assignGrouperFunc term).toList.flatMap (fun func =>
      [⟨term.fieldOffset1, func.2.1⟩, ⟨term.fieldOffset2, func.2.2.1⟩]) ++
    ((getGtype term.field2Type).toList.map (fun atype => ⟨term.fieldOffset2, atype⟩) ++
      (getAggrFptr term.field1Type).toList.flatMap fun atype =>
        [⟨term.fieldOffset1, atype⟩, ⟨term.fieldOffset2, atype⟩])

def Prepared.AggrTerm.fields (term : Prepared.AggrTerm) : List Field :=
  (assignAggrFunc term).toList.map fun func => ⟨term.fieldOffset, func.2⟩

def Prepared.GroupfilterTerm.fields (term : Prepared.GroupfilterTerm) : List Field :=
  (assignGroupfilterFunc term).toList.map fun func => ⟨term.fieldOffset, func.2⟩

def Prepared.Branch.fields (branch : Prepared.Branch) : List Field :=
  branch.filterClauseset.flatMap (List.flatMap Prepared.FilterTerm.fields) ++
    (branch.grouperClauseset.flatMap (List.flatMap Prepared.GrouperTerm.fields) ++
      (branch.aggrClauseTermset.flatMap Prepared.AggrTerm.fields ++
        branch.groupfilterClauseset.flatMap (List.flatMap Prepared.GroupfilterTerm.fields)))

def Prepared.Flowquery.fields (fquery : Prepared.Flowquery) : List Field :=
  fquery.branchset.flatMap Prepared.Branch.fields

end Fields

section StaysInside

variable (size : Nat)

/-- An aggregation function never leaves records of that size. -/
def AggregatesInside (op : AggrOp) (field : Field) : Prop :=
  ∀ (libc : Libc) (members : List RecordPtr) (groupAggregation : Record) (common : Bool),
    aggrFuncOn (Access.within size) libc field.width members groupAggregation field.offset op
        common =
      aggrFunc libc op field.width members groupAggregation field.offset common

/-- None of the functions that a term is assigned leaves records of that size. -/
structure Prepared.FilterTerm.StaysInside (term : Prepared.FilterTerm) : Prop where
  func : ∀ op atype, assignFilterFunc term = some (op, atype) → ∀ record,
    FilterTerm.funcOn (Access.within size)
        ⟨term.fieldOffset, term.value, term.delta, op, atype⟩ record =
      .ok (FilterTerm.func ⟨term.fieldOffset, term.value, term.delta, op, atype⟩ record)
  aggrFunction : ∀ atype, getAggrFptr term.fieldType = some atype →
    AggregatesInside size .static ⟨term.fieldOffset, atype⟩

structure Prepared.GrouperTerm.StaysInside (term : Prepared.GrouperTerm) : Prop where
  func : ∀ op atype1 atype2 dtype, assignGrouperFunc term = some (op, atype1, atype2, dtype) →
    ∀ members record2, GrouperTerm.funcOn (Access.within size)
        ⟨term.fieldOffset1, term.fieldOffset2, term.delta, op, atype1, atype2, dtype⟩ members
          record2 =
      .ok (GrouperTerm.func
        ⟨term.fieldOffset1, term.fieldOffset2, term.delta, op, atype1, atype2, dtype⟩ members
          record2)
  /-- The sort comparator looks only at the second field. -/
  gtype : ∀ atype, getGtype term.field2Type = some atype → ∀ op atype1 dtype record1 record2,
    GrouperTerm.qsortCompOn (Access.within size)
        ⟨term.fieldOffset1, term.fieldOffset2, term.delta, op, atype1, atype, dtype⟩ record1
          record2 =
      .ok (GrouperTerm.qsortComp
        ⟨term.fieldOffset1, term.fieldOffset2, term.delta, op, atype1, atype, dtype⟩ record1
          record2)
  aggrFunction : ∀ atype, getAggrFptr term.field1Type = some atype →
    AggregatesInside size .static ⟨term.fieldOffset1, atype⟩ ∧
      AggregatesInside size .static ⟨term.fieldOffset2, atype⟩

def Prepared.AggrTerm.StaysInside (term : Prepared.AggrTerm) : Prop :=
  ∀ op atype, assignAggrFunc term = some (op, atype) →
    AggregatesInside size op ⟨term.fieldOffset, atype⟩

def Prepared.GroupfilterTerm.StaysInside (term : Prepared.GroupfilterTerm) : Prop :=
  ∀ op atype, assignGroupfilterFunc term = some (op, atype) → ∀ group,
    GroupfilterTerm.funcOn (Access.within size)
        ⟨term.fieldOffset, term.value, term.delta, op, atype⟩ group =
      .ok (Nfql.GroupfilterTerm.func ⟨term.fieldOffset, term.value, term.delta, op, atype⟩ group)

structure Prepared.Branch.StaysInside (branch : Prepared.Branch) : Prop where
  filter : ∀ clause ∈ branch.filterClauseset, ∀ term ∈ clause,
    Prepared.FilterTerm.StaysInside size term
  grouper : ∀ clause ∈ branch.grouperClauseset, ∀ term ∈ clause, term.StaysInside size
  aggregation : ∀ term ∈ branch.aggrClauseTermset, term.StaysInside size
  groupfilter : ∀ clause ∈ branch.groupfilterClauseset, ∀ term ∈ clause,
    Prepared.GroupfilterTerm.StaysInside size term

def Prepared.Flowquery.StaysInside (fquery : Prepared.Flowquery) : Prop :=
  ∀ branch ∈ fquery.branchset, branch.StaysInside size

end StaysInside

section Fits

variable (size : Nat)

theorem aggregatesInside_iff (op : AggrOp) (field : Field) :
    AggregatesInside size op field ↔ field.Fits size := by
  constructor
  · intro inside
    exact (aggrFunc_inside_iff size Libc.insertion op true field).mp fun members groupAggregation =>
      inside Libc.insertion members groupAggregation true
  · intro fits libc members groupAggregation common
    exact (aggrFunc_inside_iff size libc op common field).mpr fits members groupAggregation

theorem filterTerm_inside_iff (term : Prepared.FilterTerm) :
    Prepared.FilterTerm.StaysInside size term ↔
      ∀ field ∈ Prepared.FilterTerm.fields term, field.Fits size := by
  unfold Prepared.FilterTerm.fields
  rw [List.forall_mem_append]
  simp only [List.forall_mem_map, Option.mem_toList]
  constructor
  · intro inside
    refine ⟨fun func assigned => ?_, fun atype assigned => ?_⟩
    · exact (filterFunc_inside_iff size _).mp (inside.func func.1 func.2 assigned)
    · exact (aggregatesInside_iff size _ _).mp (inside.aggrFunction atype assigned)
  · rintro ⟨comparator, aggregation⟩
    refine ⟨fun op atype assigned => ?_, fun atype assigned => ?_⟩
    · exact (filterFunc_inside_iff size _).mpr (comparator (op, atype) assigned)
    · exact (aggregatesInside_iff size _ _).mpr (aggregation atype assigned)

theorem grouperTerm_inside_iff (term : Prepared.GrouperTerm) :
    term.StaysInside size ↔ ∀ field ∈ term.fields, field.Fits size := by
  unfold Prepared.GrouperTerm.fields
  rw [List.forall_mem_append, List.forall_mem_append]
  simp only [List.forall_mem_map, List.forall_mem_flatMap, Option.mem_toList, List.forall_mem_cons,
    List.not_mem_nil, IsEmpty.forall_iff, implies_true, and_true]
  constructor
  · intro inside
    refine ⟨fun func assigned => ?_, fun atype assigned => ?_, fun atype assigned => ?_⟩
    · exact (grouperFunc_inside_iff size _).mp
        (inside.func func.1 func.2.1 func.2.2.1 func.2.2.2 assigned)
    · exact (qsortComp_inside_iff size _).mp (inside.gtype atype assigned .eq .w8 .no)
    · obtain ⟨first, second⟩ := inside.aggrFunction atype assigned
      exact ⟨(aggregatesInside_iff size _ _).mp first, (aggregatesInside_iff size _ _).mp second⟩
  · rintro ⟨comparator, sort, aggregation⟩
    refine ⟨fun op atype1 atype2 dtype assigned => ?_, fun atype assigned op atype1 dtype => ?_,
      fun atype assigned => ?_⟩
    · exact (grouperFunc_inside_iff size _).mpr (comparator (op, atype1, atype2, dtype) assigned)
    · exact (qsortComp_inside_iff size _).mpr (sort atype assigned)
    · obtain ⟨first, second⟩ := aggregation atype assigned
      exact ⟨(aggregatesInside_iff size _ _).mpr first, (aggregatesInside_iff size _ _).mpr second⟩

theorem aggrTerm_inside_iff (term : Prepared.AggrTerm) :
    term.StaysInside size ↔ ∀ field ∈ term.fields, field.Fits size := by
  unfold Prepared.AggrTerm.fields Prepared.AggrTerm.StaysInside
  simp only [List.forall_mem_map, Option.mem_toList, aggregatesInside_iff]
  constructor
  · intro inside func assigned
    exact inside func.1 func.2 assigned
  · intro fits op atype assigned
    exact fits (op, atype) assigned

theorem groupfilterTerm_inside_iff (term : Prepared.GroupfilterTerm) :
    Prepared.GroupfilterTerm.StaysInside size term ↔
      ∀ field ∈ Prepared.GroupfilterTerm.fields term, field.Fits size := by
  unfold Prepared.GroupfilterTerm.fields Prepared.GroupfilterTerm.StaysInside
  simp only [List.forall_mem_map, Option.mem_toList, gfilterFunc_inside_iff]
  constructor
  · intro inside func assigned
    exact inside func.1 func.2 assigned
  · intro fits op atype assigned
    exact fits (op, atype) assigned

/-- The functions of a query stay inside the record exactly if all its fields do. -/
theorem flowquery_inside_iff (fquery : Prepared.Flowquery) :
    fquery.StaysInside size ↔ ∀ field ∈ fquery.fields, field.Fits size := by
  unfold Prepared.Flowquery.StaysInside Prepared.Flowquery.fields Prepared.Branch.fields
  simp only [List.forall_mem_append, List.forall_mem_flatMap, ← filterTerm_inside_iff,
    ← grouperTerm_inside_iff, ← aggrTerm_inside_iff, ← groupfilterTerm_inside_iff]
  constructor
  · intro inside branch member
    have here := inside branch member
    exact ⟨here.filter, here.grouper, here.aggregation, here.groupfilter⟩
  · intro inside branch member
    obtain ⟨filter, grouper, aggregation, groupfilter⟩ := inside branch member
    exact ⟨filter, grouper, aggregation, groupfilter⟩

end Fits

section Offsets

variable (offset : String → Option Nat)

/-- A name of the query stands for that offset. -/
def Named (fieldOffset : Nat) : Prop := ∃ name, offset name = some fieldOffset

theorem prepareFilterTerm_named (termJson : JsonFilterTerm) (term : Prepared.FilterTerm)
    (success : prepareFilterTerm offset termJson = .ok term) :
    Named offset term.fieldOffset := by
  obtain ⟨found, known, success⟩ := bind_eq_ok success
  obtain ⟨_, -, success⟩ := bind_eq_ok success
  obtain ⟨_, -, success⟩ := bind_eq_ok success
  cases success
  exact ⟨_, checkedOffset_ok offset known⟩

theorem prepareGrouperTerm_named (termJson : JsonGrouperTerm) (term : Prepared.GrouperTerm)
    (success : prepareGrouperTerm offset termJson = .ok term) :
    Named offset term.fieldOffset1 ∧ Named offset term.fieldOffset2 := by
  obtain ⟨found1, known1, success⟩ := bind_eq_ok success
  obtain ⟨found2, known2, success⟩ := bind_eq_ok success
  obtain ⟨_, -, success⟩ := bind_eq_ok success
  obtain ⟨f1TypeEnum, -, success⟩ := bind_eq_ok success
  by_cases unknown : f1TypeEnum = minusOne
  · simp only [unknown, ↓reduceIte, error_bind] at success
    cases success
  · simp only [unknown, ↓reduceIte] at success
    obtain ⟨_, -, success⟩ := bind_eq_ok success
    cases success
    exact ⟨⟨_, checkedOffset_ok offset known1⟩, ⟨_, checkedOffset_ok offset known2⟩⟩

theorem prepareAggrTerm_named (termJson : JsonAggrTerm) (term : Prepared.AggrTerm)
    (success : prepareAggrTerm offset termJson = .ok term) :
    Named offset term.fieldOffset := by
  obtain ⟨found, known, success⟩ := bind_eq_ok success
  obtain ⟨_, -, success⟩ := bind_eq_ok success
  obtain ⟨_, -, success⟩ := bind_eq_ok success
  cases success
  exact ⟨_, checkedOffset_ok offset known⟩

section Stages

variable {τ υ : Type} {prepare : τ → Except Fault υ} {P : υ → Prop}

theorem prepareTerms_ensures (enabled : Bool) (each : ∀ term b, prepare term = .ok b → P b)
    (terms : List τ) (results : List υ) (success : prepareTerms enabled prepare terms = .ok results) :
    ∀ b ∈ results, P b := by
  cases enabled with
  | false =>
      cases success
      simp
  | true => exact mapM_ensures prepare P terms results each success

theorem prepareClauses_ensures (enabled : Bool) (each : ∀ term b, prepare term = .ok b → P b)
    (clauses : List (List τ)) (results : List (List υ))
    (success : prepareClauses enabled prepare clauses = .ok results) :
    ∀ clause ∈ results, ∀ b ∈ clause, P b :=
  prepareTerms_ensures enabled (P := fun clause => ∀ b ∈ clause, P b)
    (fun clause results => mapM_ensures prepare P clause results each) clauses results success

end Stages

variable (stages : Stages)

theorem prepareBranch_named (jsonBranch : JsonBranch) (branch : Prepared.Branch)
    (success : prepareBranch offset stages jsonBranch = .ok branch) :
    ∀ field ∈ branch.fields, Named offset field.offset := by
  obtain ⟨filter, grouper, aggregation, groupfilter⟩ := prepareBranch_ok success
  have filters := prepareClauses_ensures _ (prepareFilterTerm_named offset) _ _ filter
  have groupers := prepareClauses_ensures _ (prepareGrouperTerm_named offset) _ _ grouper
  have aggregations := prepareTerms_ensures _ (prepareAggrTerm_named offset) _ _ aggregation
  have groupfilters := prepareClauses_ensures _ (prepareFilterTerm_named offset) _ _ groupfilter
  unfold Prepared.Branch.fields Prepared.FilterTerm.fields Prepared.GrouperTerm.fields
    Prepared.AggrTerm.fields Prepared.GroupfilterTerm.fields
  simp only [List.forall_mem_append, List.forall_mem_flatMap, List.forall_mem_map,
    List.forall_mem_cons, List.not_mem_nil, IsEmpty.forall_iff, implies_true, and_true]
  refine ⟨fun clause inStage term inClause => ?_, fun clause inStage term inClause => ?_,
    fun term member func _ => aggregations term member,
    fun clause inStage term inClause func _ => groupfilters clause inStage term inClause⟩
  · have named := filters clause inStage term inClause
    exact ⟨fun _ _ => named, fun _ _ => named⟩
  · obtain ⟨named1, named2⟩ := groupers clause inStage term inClause
    exact ⟨fun _ _ => ⟨named1, named2⟩, fun _ _ => named2, fun _ _ => ⟨named1, named2⟩⟩

/-- Every field of an accepted query has a name. -/
theorem prepareFlowquery_named (jsonQuery : JsonQuery) (fquery : Prepared.Flowquery)
    (success : prepareFlowquery offset stages jsonQuery = .ok fquery) :
    ∀ field ∈ fquery.fields, Named offset field.offset := by
  exact List.forall_mem_flatMap.mpr
    (mapM_ensures _ _ _ _ (prepareBranch_named offset stages) (prepareFlowquery_ok success).1)

end Offsets

section Ipfix

/-- An element of an aligned template ends inside the record. -/
theorem IpfixTempl.Aligned.inside {templ : IpfixTempl} (aligned : templ.Aligned) :
    ∀ ie ∈ templ.arr, ie.offset + ie.size ≤ ipfixTemplGetRecSize templ := by
  intro ie member
  have before := (aligned.laid.inside ie member).2
  rw [ipfixTemplGetRecSize_eq templ aligned.nextOffset_lt]
  omega

/-- The functions of an accepted query stay inside the record exactly if no datatype
reaches over its end at the offset it is used at; they do if no datatype is wider than
the element it is used for. -/
theorem ipfix_inside (library : JsonC.Library) (templ templ' : IpfixTempl)
    (new : ipfixTemplNew = .ok (some templ)) (query : JsonC.Json) (stages : Stages)
    (fquery : Prepared.Flowquery)
    (loaded : loadQuery (QueryReader.ipfix library) templ query = .ok (stages, templ', fquery))
    (fixed : ∀ ie ∈ templ'.arr, FixedSize ie.name) :
    (fquery.StaysInside (ipfixTemplGetRecSize templ') ↔
      ∀ field ∈ fquery.fields,
        field.offset + field.width.bytes ≤ ipfixTemplGetRecSize templ') ∧
    ((∀ field ∈ fquery.fields, ∀ ie ∈ templ'.arr, ie.offset = field.offset →
        field.width.bytes ≤ ie.size) →
      fquery.StaysInside (ipfixTemplGetRecSize templ')) := by
  obtain ⟨⟨⟨parsedStages, jsonQuery⟩, registered⟩, parsed, run⟩ := bind_eq_ok loaded
  obtain ⟨prepared, success, same⟩ := bind_eq_ok run
  cases same
  have aligned := parseJsonQuery_aligned library templ templ' new (some query) _ parsed fixed
  have exact := flowquery_inside_iff (ipfixTemplGetRecSize templ') fquery
  refine ⟨exact, fun narrow => exact.mpr fun field member => ?_⟩
  obtain ⟨name, known⟩ := prepareFlowquery_named _ _ _ _ success field member
  obtain ⟨ie, found, offset⟩ := Option.map_eq_some_iff.mp known
  have inArr := List.mem_of_find?_eq_some found
  have width := narrow field member ie inArr offset
  have inside := aligned.inside ie inArr
  unfold Field.Fits
  omega

/-- Every term has datatypes: those of the first and those of the second field. -/
structure BranchRules.Datatyped (branch : BranchRules) : Prop where
  filter : ∀ clause ∈ branch.filter.getD [], ∀ rule ∈ clause, ∃ width, rule.datatype = .s1 width
  grouper : ∀ clause ∈ (branch.grouper.map GrouperRules.dnfExpr).getD [], ∀ rule ∈ clause,
    (∃ width, rule.field1Type = .s1 width) ∧ ∃ width, rule.field2Type = .s2 width
  aggregation : ∀ rule ∈ branch.aggregation.getD [], ∃ width, rule.datatype = .s1 width
  groupfilter : ∀ clause ∈ branch.groupfilter.getD [], ∀ rule ∈ clause,
    ∃ width, rule.datatype = .s1 width

/-- The template of `ipfix_templ_new`. -/
def IpfixTempl.standard : IpfixTempl :=
  ⟨[⟨"flowStartMilliseconds", 0, 8, .dateTimeMilliseconds⟩,
    ⟨"flowEndMilliseconds", 8, 8, .dateTimeMilliseconds⟩,
    ⟨"sourceIPv4Address", 16, 4, .ipv4Address⟩, ⟨"destinationIPv4Address", 20, 4, .ipv4Address⟩,
    ⟨"sourceTransportPort", 24, 2, .unsigned16⟩,
    ⟨"destinationTransportPort", 26, 2, .unsigned16⟩, ⟨"ingressInterface", 28, 4, .unsigned32⟩,
    ⟨"egressInterface", 32, 4, .unsigned32⟩, ⟨"packetDeltaCount", 40, 8, .unsigned64⟩,
    ⟨"octetDeltaCount", 48, 8, .unsigned64⟩, ⟨"protocolIdentifier", 56, 1, .unsigned8⟩,
    ⟨"ipClassOfService", 57, 1, .unsigned8⟩, ⟨"tcpControlBits", 58, 1, .unsigned8⟩], 59⟩

theorem ipfixTemplNew_eq : ipfixTemplNew = .ok (some IpfixTempl.standard) := by decide +kernel

theorem standard_fixed : ∀ ie ∈ IpfixTempl.standard.arr, FixedSize ie.name := by decide +kernel

/-- A filter for one of the control bits. -/
def Query.controlBit (datatype : Rule) : Query where
  branchset := [⟨some [[⟨"tcpControlBits", 2, datatype, 0, .comp .eq⟩]], none, none⟩]
  merger := none
  ungrouper := false

def Prepared.Flowquery.controlBit (datatype : Rule) : Prepared.Flowquery :=
  ⟨[⟨[[⟨58, 2#64, 0#64, 0#64, datatype.value⟩]], [], [], []⟩], []⟩

/-- Of json-c, only integers that fit an `int` are needed. -/
def JsonC.Library.clamping : JsonC.Library := ⟨JsonC.IntConversion.clamp, fun _ => 0, fun _ => ""⟩

theorem controlBit_narrow :
    loadQuery (QueryReader.ipfix JsonC.Library.clamping) IpfixTempl.standard
        (Query.controlBit (.s1 .w8)).json =
      .ok ((Query.controlBit (.s1 .w8)).stages, IpfixTempl.standard,
        Prepared.Flowquery.controlBit (.s1 .w8)) := rfl

theorem controlBit_wide :
    loadQuery (QueryReader.ipfix JsonC.Library.clamping) IpfixTempl.standard
        (Query.controlBit (.s1 .w64)).json =
      .ok ((Query.controlBit (.s1 .w64)).stages, IpfixTempl.standard,
        Prepared.Flowquery.controlBit (.s1 .w64)) := rfl

theorem ipfix_inside_narrow :
    ((Prepared.Flowquery.controlBit (.s1 .w8)).StaysInside
        (ipfixTemplGetRecSize IpfixTempl.standard) ↔
      ∀ field ∈ (Prepared.Flowquery.controlBit (.s1 .w8)).fields,
        field.offset + field.width.bytes ≤ ipfixTemplGetRecSize IpfixTempl.standard) ∧
    ((∀ field ∈ (Prepared.Flowquery.controlBit (.s1 .w8)).fields,
        ∀ ie ∈ IpfixTempl.standard.arr, ie.offset = field.offset → field.width.bytes ≤ ie.size) →
      (Prepared.Flowquery.controlBit (.s1 .w8)).StaysInside
        (ipfixTemplGetRecSize IpfixTempl.standard)) :=
  ipfix_inside JsonC.Library.clamping IpfixTempl.standard IpfixTempl.standard ipfixTemplNew_eq _ _ _
    controlBit_narrow standard_fixed

theorem controlBit_datatyped (width : Width) :
    ∀ branch ∈ (Query.controlBit (.s1 width)).branchset, branch.Datatyped := by
  intro branch member
  rw [List.mem_singleton.mp member]
  refine ⟨?_, ?_, ?_, ?_⟩
  · intro clause inStage rule inClause
    rw [List.mem_singleton.mp inStage] at inClause
    rw [List.mem_singleton.mp inClause]
    exact ⟨width, rfl⟩
  · intro clause inStage
    cases inStage
  · intro rule inStage
    cases inStage
  · intro clause inStage
    cases inStage

/-- A 64-bit datatype for the last byte of the template reads behind the record. -/
theorem ipfix_not_inside :
    ¬ ∀ (library : JsonC.Library) (templ templ' : IpfixTempl) (query : Query) (stages : Stages)
      (fquery : Prepared.Flowquery), ipfixTemplNew = .ok (some templ) →
      (∀ branch ∈ query.branchset, branch.Datatyped) →
      loadQuery (QueryReader.ipfix library) templ query.json = .ok (stages, templ', fquery) →
      (∀ ie ∈ templ'.arr, FixedSize ie.name) → fquery.StaysInside (ipfixTemplGetRecSize templ') := by
  intro inside
  have stays := inside JsonC.Library.clamping _ _ (Query.controlBit (.s1 .w64)) _ _ ipfixTemplNew_eq
    (controlBit_datatyped .w64) controlBit_wide standard_fixed
  have fits := (flowquery_inside_iff _ _).mp stays ⟨58, .w64⟩ (by decide)
  exact absurd fits (by decide)

end Ipfix

end Nfql
