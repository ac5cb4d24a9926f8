import Mathlib.Tactic.MkIffOfInductiveProp
import Nfql.AssignFuncs
import Nfql.Outcomes

set_option autoImplicit false

/- Which of the queries that `prepare_flowquery` accepts can be run. -/
namespace Nfql

open Outcomes

section Executable

def Prepared.FilterTerm.Executable (term : Prepared.FilterTerm) : Prop :=
  (assignFilterFunc term).isSome = true

/-- A grouper term needs a comparator and a sort comparator. -/
def Prepared.GrouperTerm.Executable (term : Prepared.GrouperTerm) : Prop :=
  (assignGrouperFunc term).isSome = true ∧ (getGtype term.field2Type).isSome = true

def Prepared.AggrTerm.Executable (term : Prepared.AggrTerm) : Prop :=
  (assignAggrFunc term).isSome = true

def Prepared.GroupfilterTerm.Executable (term : Prepared.GroupfilterTerm) : Prop :=
  (assignGroupfilterFunc term).isSome = true

/-- A merger term needs a comparator and two branches of the query. -/
def Prepared.MergerTerm.Executable (numBranches : Nat) (term : Prepared.MergerTerm) : Prop :=
  term.branch1 < numBranches ∧ term.branch2 < numBranches ∧ (assignMergerFunc term).isSome = true

@[mk_iff]
structure Prepared.Branch.Executable (branch : Prepared.Branch) : Prop where
  filter : ∀ clause ∈ branch.filterClauseset, ∀ term ∈ clause, term.Executable
  grouper : ∀ clause ∈ branch.grouperClauseset, ∀ term ∈ clause, term.Executable
  aggregation : ∀ term ∈ branch.aggrClauseTermset, term.Executable
  groupfilter : ∀ clause ∈ branch.groupfilterClauseset, ∀ term ∈ clause,
    Prepared.GroupfilterTerm.Executable term

/-- Every term has its functions, and merger terms have their branches. -/
@[mk_iff]
structure Prepared.Flowquery.Executable (fquery : Prepared.Flowquery) : Prop where
  branchset : ∀ branch ∈ fquery.branchset, branch.Executable
  merger : ∀ clause ∈ fquery.mergerClauseset, ∀ term ∈ clause,
    term.Executable fquery.branchset.length

end Executable

section Dispatches

/-- The operator and datatypes of a query term, as its `switch` sees them. -/
def JsonFilterTerm.word (term : JsonFilterTerm) : BitVec 64 :=
  getEnum term.op ||| getEnum term.off.datatype

def JsonGrouperTerm.word (term : JsonGrouperTerm) : BitVec 64 :=
  getEnum term.op.name ||| getEnum term.off.f1Datatype ||| getEnum term.off.f2Datatype |||
    getEnum term.op.type

def JsonAggrTerm.word (term : JsonAggrTerm) : BitVec 64 :=
  getEnum term.op ||| getEnum term.off.datatype

def JsonMergerTerm.word (term : JsonMergerTerm) : BitVec 64 :=
  getEnum term.op.name ||| getEnum term.off.f1Datatype ||| getEnum term.off.f2Datatype

/-- Apart from the datatype bits of one field, the word is a comparison. -/
def JsonFilterTerm.Dispatches (term : JsonFilterTerm) : Prop :=
  ∃ op : CompOp, term.word &&& ~~~oneField = (Rule.comp op).value

/-- Apart from two fields, a comparison and a delta type; and the second field can be
sorted by. -/
def JsonGrouperTerm.Dispatches (term : JsonGrouperTerm) : Prop :=
  (∃ (op : CompOp) (dtype : DeltaType),
    term.word &&& ~~~twoFields = (Rule.comp op).value ||| (Rule.delta dtype).value) ∧
  ∃ width : Width, getEnum term.off.f2Datatype = (Rule.s2 width).value

def JsonAggrTerm.Dispatches (term : JsonAggrTerm) : Prop :=
  ∃ op : AggrOp, term.word &&& ~~~oneField = (Rule.aggr op).value

/-- Apart from two fields, a comparison or `RULE_IN`; or an interval operator and
nothing else. -/
def JsonMergerTerm.Dispatches (numBranches : Nat) (term : JsonMergerTerm) : Prop :=
  term.b1Id.toNat < numBranches ∧ term.b2Id.toNat < numBranches ∧
    ((∃ op : CompOp, term.word &&& ~~~twoFields = (Rule.comp op).value) ∨
      term.word &&& ~~~twoFields = Rule.isIn.value ∨
      ∃ op : AllenOp, term.word = (Rule.allen op).value)

@[mk_iff]
structure JsonBranch.Dispatches (stages : Stages) (branch : JsonBranch) : Prop where
  filter : stages.filterEnabled = true →
    ∀ clause ∈ branch.filterClauseset, ∀ term ∈ clause, term.Dispatches
  grouper : stages.grouperEnabled = true →
    ∀ clause ∈ branch.grouperClauseset, ∀ term ∈ clause, term.Dispatches
  aggregation : stages.groupaggregationsEnabled = true →
    ∀ term ∈ branch.aggrClauseTermset, term.Dispatches
  groupfilter : stages.groupfilterEnabled = true →
    ∀ clause ∈ branch.groupfilterClauseset, ∀ term ∈ clause, term.Dispatches

/-- The names of every term of an enabled stage belong to one of the cases. -/
@[mk_iff]
structure JsonQuery.Dispatches (stages : Stages) (query : JsonQuery) : Prop where
  branchset : ∀ branch ∈ query.branchset, branch.Dispatches stages
  merger : stages.mergerEnabled = true → ∀ clause ∈ query.mergerClauseset, ∀ term ∈ clause,
    term.Dispatches query.branchset.length

end Dispatches

section Assigned

private theorem mem_values {ω : Type} (ops : List ω) (all : ∀ op, op ∈ ops)
    (value : ω → BitVec 64) (word : BitVec 64) :
    (word ∈ ops.map value) ↔ ∃ op, word = value op := by
  rw [List.mem_map]
  constructor
  · rintro ⟨op, -, same⟩
    exact ⟨op, same.symm⟩
  · rintro ⟨op, same⟩
    exact ⟨op, all op, same.symm⟩

theorem CompOp.mem_all (op : CompOp) : op ∈ CompOp.all := by cases op <;> decide

theorem Width.mem_all (width : Width) : width ∈ Width.all := by cases width <;> decide

theorem DeltaType.mem_all (dtype : DeltaType) : dtype ∈ DeltaType.all := by
  cases dtype <;> decide

theorem AggrOp.mem_all (op : AggrOp) : op ∈ AggrOp.all := by cases op <;> decide

theorem AllenOp.mem_all (op : AllenOp) : op ∈ AllenOp.all := by cases op <;> decide

theorem filterCases_assigned (word : BitVec 64) : (filterCases.lookup word).isSome = true ↔
    ∃ op : CompOp, word &&& ~~~oneField = (Rule.comp op).value :=
  (filterCases_iff word).trans (mem_values _ CompOp.mem_all _ _)

theorem aggrCases_assigned (word : BitVec 64) : (aggrCases.lookup word).isSome = true ↔
    ∃ op : AggrOp, word &&& ~~~oneField = (Rule.aggr op).value :=
  (aggrCases_iff word).trans (mem_values _ AggrOp.mem_all _ _)

theorem gtypeCases_assigned (word : BitVec 64) : (gtypeCases.lookup word).isSome = true ↔
    ∃ width : Width, word = (Rule.s2 width).value :=
  (gtypeCases_iff word).trans (mem_values _ Width.mem_all _ _)

theorem grouperCases_assigned (word : BitVec 64) : (grouperCases.lookup word).isSome = true ↔
    ∃ (op : CompOp) (dtype : DeltaType),
      word &&& ~~~twoFields = (Rule.comp op).value ||| (Rule.delta dtype).value := by
  rw [grouperCases_iff, grouperBases, mem_combined]
  constructor
  · rintro ⟨_, isOp, _, isDelta, same⟩
    obtain ⟨op, rfl⟩ := (mem_values _ CompOp.mem_all _ _).mp isOp
    obtain ⟨dtype, rfl⟩ := (mem_values _ DeltaType.mem_all _ _).mp isDelta
    exact ⟨op, dtype, same.symm⟩
  · rintro ⟨op, dtype, same⟩
    exact ⟨_, List.mem_map_of_mem op.mem_all, _, List.mem_map_of_mem dtype.mem_all, same.symm⟩

theorem mergerCases_assigned (word : BitVec 64) : (mergerCases.lookup word).isSome = true ↔
    (∃ op : CompOp, word &&& ~~~twoFields = (Rule.comp op).value) ∨
      word &&& ~~~twoFields = Rule.isIn.value ∨
      ∃ op : AllenOp, word = (Rule.allen op).value := by
  have comparisons : (MergerOp.fieldwise.map fun op => op.rule.value) =
      (CompOp.all.map fun op => (Rule.comp op).value) ++ [Rule.isIn.value] := rfl
  rw [mergerCases_iff, comparisons, List.mem_append, List.mem_singleton, or_assoc,
    mem_values _ CompOp.mem_all, mem_values _ AllenOp.mem_all]

end Assigned

section Terms

/-- Aborting with a message, which is how `prepare_flowquery` rejects a query. -/
def IsErrExit : Fault → Prop
  | .errExit _ => True
  | _ => False

variable (offset : String → Option Nat)

theorem checkedOffset_passes (name message : String)
    (passes : Passes IsErrExit (checkedOffset offset name message)) :
    Yields (checkedOffset offset name message) fun _ => True := by
  unfold checkedOffset at passes ⊢
  cases known : offset name with
  | none =>
      rw [known] at passes
      exact absurd rfl (passes (.errExit message) trivial)
  | some found => exact ⟨found, rfl, trivial⟩

theorem checkedEnum_passes (name message : String)
    (passes : Passes IsErrExit (checkedEnum name message)) :
    Yields (checkedEnum name message) fun value => value = getEnum name := by
  unfold checkedEnum at passes ⊢
  by_cases unknown : getEnum name = minusOne
  · rw [if_pos unknown] at passes
    exact absurd rfl (passes (.errExit message) trivial)
  · rw [if_neg unknown]
    exact ⟨_, rfl, rfl⟩

theorem branchAt_settles (numBranches : Nat) (id : BitVec 64) :
    Settles IsErrExit (branchAt numBranches id) (· < numBranches) (id.toNat < numBranches) := by
  intro _
  unfold branchAt
  split
  · rename_i inside
    exact iff_of_true ⟨_, rfl, inside⟩ inside
  · rename_i outside
    exact iff_of_false (yields_error _ _) outside

theorem prepareFilterTerm_settles (term : JsonFilterTerm) :
    Settles IsErrExit (prepareFilterTerm offset term) Prepared.FilterTerm.Executable
      term.Dispatches := by
  unfold prepareFilterTerm
  refine Settles.after (checkedOffset_passes offset _ _) fun fieldOffset _ => ?_
  refine Settles.after (checkedEnum_passes _ _) ?_
  rintro _ rfl
  refine Settles.after (checkedEnum_passes _ _) ?_
  rintro _ rfl
  exact (settles_ok _ _).congr (filterCases_assigned _)

theorem prepareGrouperTerm_settles (term : JsonGrouperTerm) :
    Settles IsErrExit (prepareGrouperTerm offset term) Prepared.GrouperTerm.Executable
      term.Dispatches := by
  unfold prepareGrouperTerm
  refine Settles.after (checkedOffset_passes offset _ _) fun offset1 _ => ?_
  refine Settles.after (checkedOffset_passes offset _ _) fun offset2 _ => ?_
  refine Settles.after (checkedEnum_passes _ _) ?_
  rintro _ rfl
  refine Settles.after (P := fun value => value = getEnum term.off.f1Datatype ∧ value ≠ minusOne)
    ?_ ?_
  · intro passes
    obtain ⟨value, run, rfl⟩ := checkedEnum_passes _ _ passes
    refine ⟨_, run, rfl, fun unknown => ?_⟩
    rw [checkedEnum, if_pos unknown] at run
    cases run
  · rintro _ ⟨rfl, known⟩
    rw [if_neg known]
    refine Settles.after (checkedEnum_passes _ _) ?_
    rintro _ rfl
    exact (settles_ok _ _).congr
      (and_congr (grouperCases_assigned _) (gtypeCases_assigned _))

theorem prepareAggrTerm_settles (term : JsonAggrTerm) :
    Settles IsErrExit (prepareAggrTerm offset term) Prepared.AggrTerm.Executable
      term.Dispatches := by
  unfold prepareAggrTerm
  refine Settles.after (checkedOffset_passes offset _ _) fun fieldOffset _ => ?_
  refine Settles.after (checkedEnum_passes _ _) ?_
  rintro _ rfl
  refine Settles.after (checkedEnum_passes _ _) ?_
  rintro _ rfl
  exact (settles_ok _ _).congr (aggrCases_assigned _)

theorem prepareMergerTerm_settles (numBranches : Nat) (term : JsonMergerTerm) :
    Settles IsErrExit (prepareMergerTerm offset numBranches term)
      (Prepared.MergerTerm.Executable numBranches) (term.Dispatches numBranches) := by
  unfold prepareMergerTerm
  refine Settles.after (checkedOffset_passes offset _ _) fun field1 _ => ?_
  refine Settles.after (checkedOffset_passes offset _ _) fun field2 _ => ?_
  refine Settles.after (checkedEnum_passes _ _) ?_
  rintro _ rfl
  refine Settles.after (checkedEnum_passes _ _) ?_
  rintro _ rfl
  refine Settles.after (checkedEnum_passes _ _) ?_
  rintro _ rfl
  refine Settles.after (checkedEnum_passes _ _) ?_
  rintro _ rfl
  refine (branchAt_settles numBranches term.b1Id).bind And.left fun branch1 _ inside1 => ?_
  refine (branchAt_settles numBranches term.b2Id).bind (fun all => all.2.1)
    fun branch2 _ inside2 => ?_
  exact (settles_ok _ _).congr
    (and_congr inside1 (and_congr inside2 (mergerCases_assigned _)))

end Terms

section Stages

variable {τ υ : Type} {prepare : τ → Except Fault υ} {P : υ → Prop} {D : τ → Prop}

theorem prepareTerms_settles (enabled : Bool)
    (each : ∀ term, Settles IsErrExit (prepare term) P (D term)) (terms : List τ) :
    Settles IsErrExit (prepareTerms enabled prepare terms) (fun results => ∀ term ∈ results, P term)
      (enabled = true → ∀ term ∈ terms, D term) := by
  cases enabled with
  | false => exact (settles_ok _ _).congr (by simp)
  | true => exact (Settles.mapM terms fun term _ => each term).congr (by simp)

theorem prepareClauses_settles (enabled : Bool)
    (each : ∀ term, Settles IsErrExit (prepare term) P (D term)) (clauses : List (List τ)) :
    Settles IsErrExit (prepareClauses enabled prepare clauses)
      (fun results => ∀ clause ∈ results, ∀ term ∈ clause, P term)
      (enabled = true → ∀ clause ∈ clauses, ∀ term ∈ clause, D term) :=
  prepareTerms_settles enabled (fun clause => Settles.mapM clause fun term _ => each term) clauses

end Stages

section Query

variable (offset : String → Option Nat) (stages : Stages)

theorem prepareBranch_settles (branch : JsonBranch) :
    Settles IsErrExit (prepareBranch offset stages branch) Prepared.Branch.Executable
      (branch.Dispatches stages) := by
  have filter := prepareClauses_settles stages.filterEnabled (prepareFilterTerm_settles offset)
    branch.filterClauseset
  have grouper := prepareClauses_settles stages.grouperEnabled (prepareGrouperTerm_settles offset)
    branch.grouperClauseset
  have aggregation := prepareTerms_settles stages.groupaggregationsEnabled
    (prepareAggrTerm_settles offset) branch.aggrClauseTermset
  have groupfilter := prepareClauses_settles stages.groupfilterEnabled
    (prepareFilterTerm_settles offset) branch.groupfilterClauseset
  unfold prepareBranch
  refine filter.bind JsonBranch.Dispatches.filter fun filterClauseset _ filters => ?_
  refine grouper.bind JsonBranch.Dispatches.grouper fun grouperClauseset _ groupers => ?_
  refine aggregation.bind JsonBranch.Dispatches.aggregation fun aggrClauseTermset _ aggrs => ?_
  refine groupfilter.bind JsonBranch.Dispatches.groupfilter fun groupfilterClauseset _ gfilters => ?_
  refine (settles_ok _ _).congr ?_
  rw [Prepared.Branch.executable_iff, JsonBranch.dispatches_iff, ← filters, ← groupers, ← aggrs,
    ← gfilters]
  exact Iff.rfl

theorem prepareFlowquery_settles (query : JsonQuery) :
    Settles IsErrExit (prepareFlowquery offset stages query) Prepared.Flowquery.Executable
      (query.Dispatches stages) := by
  have branches : Settles IsErrExit (query.branchset.mapM (prepareBranch offset stages))
      (fun branchset => ∀ branch ∈ branchset, branch.Executable)
      (∀ branch ∈ query.branchset, branch.Dispatches stages) :=
    Settles.mapM _ fun branch _ => prepareBranch_settles offset stages branch
  have merger := prepareClauses_settles stages.mergerEnabled
    (prepareMergerTerm_settles offset query.branchset.length) query.mergerClauseset
  unfold prepareFlowquery
  refine branches.bind JsonQuery.Dispatches.branchset fun branchset prepared executable => ?_
  refine merger.bind JsonQuery.Dispatches.merger fun mergerClauseset _ mergers => ?_
  refine (settles_ok _ _).congr ?_
  rw [Prepared.Flowquery.executable_iff, JsonQuery.dispatches_iff, ← executable, ← mergers,
    ← (mapM_forall₂ _ _ _ prepared).length_eq]

theorem passes_iff {α : Type} (run : Except Fault α) :
    Passes IsErrExit run ↔ ∀ message, run ≠ .error (.errExit message) := by
  constructor
  · intro passes message
    exact passes (.errExit message) trivial
  · rintro accepted (message | _ | _ | _) kind
    · exact accepted message
    all_goals exact kind.elim

/-- A query that passes all checks can be run exactly when its operators, datatypes and
branch ids dispatch. -/
theorem prepareFlowquery_executable_iff (query : JsonQuery)
    (accepted : ∀ message, prepareFlowquery offset stages query ≠ .error (.errExit message)) :
    (∃ fquery, prepareFlowquery offset stages query = .ok fquery ∧ fquery.Executable) ↔
      query.Dispatches stages :=
  prepareFlowquery_settles offset stages query ((passes_iff _).mpr accepted)

end Query

/-- A query of one branch with one grouper term: records with the same port. -/
def JsonQuery.samePort (f2Datatype : String) : JsonQuery :=
  ⟨[⟨[], [[⟨0#64, ⟨"port", "port", "RULE_S1_16", f2Datatype⟩, ⟨"RULE_EQ", "RULE_REL"⟩⟩]], [], []⟩],
    []⟩

/-- Only the grouper stage. -/
def Stages.grouperOnly : Stages := { Stages.clear with grouperEnabled := true }

/-- The second datatype is not looked at. -/
theorem samePort_run (f2Datatype : String) :
    prepareFlowquery (fun _ => some 0) Stages.grouperOnly (JsonQuery.samePort f2Datatype) =
      .ok ⟨[⟨[], [[⟨0, 0, 0#64, 0#64, 4#64, getEnum f2Datatype, 16#64⟩]], [], []⟩], []⟩ := rfl

theorem samePort_accepted (f2Datatype message : String) :
    prepareFlowquery (fun _ => some 0) Stages.grouperOnly (JsonQuery.samePort f2Datatype) ≠
      .error (.errExit message) := by
  rw [samePort_run]
  exact fun aborted => by cases aborted

/-- The flows of protocol 6 between two addresses, those of more than 100 octets. -/
def JsonBranch.sessions : JsonBranch where
  filterClauseset := [[⟨"RULE_EQ", 0#64, ⟨"prot", 6#64, "RULE_S1_8"⟩⟩]]
  grouperClauseset :=
    [[⟨0#64, ⟨"srcaddr", "srcaddr", "RULE_S1_32", "RULE_S2_32"⟩, ⟨"RULE_EQ", "RULE_REL"⟩⟩,
      ⟨0#64, ⟨"dstaddr", "dstaddr", "RULE_S1_32", "RULE_S2_32"⟩, ⟨"RULE_EQ", "RULE_REL"⟩⟩]]
  aggrClauseTermset :=
    [⟨"RULE_STATIC", ⟨"srcaddr", "RULE_S1_32"⟩⟩, ⟨"RULE_SUM", ⟨"dOctets", "RULE_S1_32"⟩⟩]
  groupfilterClauseset := [[⟨"RULE_GT", 0#64, ⟨"dOctets", 100#64, "RULE_S1_32"⟩⟩]]

/-- Both directions, merged. -/
def JsonQuery.sessions : JsonQuery where
  branchset := [JsonBranch.sessions, JsonBranch.sessions]
  mergerClauseset :=
    [[⟨0#64, 1#64, 0#64, ⟨"srcaddr", "dstaddr", "RULE_S1_32", "RULE_S2_32"⟩,
        ⟨"RULE_EQ", "RULE_REL"⟩⟩,
      ⟨0#64, 1#64, 0#64, ⟨"dOctets", "dOctets", "RULE_S1_32", "RULE_S2_32"⟩,
        ⟨"RULE_IN", "RULE_REL"⟩⟩]]

theorem sessions_dispatch : JsonQuery.sessions.Dispatches (Stages.all true) where
  branchset := by
    intro branch member
    have same : branch = JsonBranch.sessions := by
      simpa [JsonQuery.sessions] using member
    subst same
    refine ⟨fun _ => ?_, fun _ => ?_, fun _ => ?_, fun _ => ?_⟩
    · simp only [JsonBranch.sessions, List.mem_singleton, forall_eq]
      exact ⟨.eq, by decide +kernel⟩
    · simp only [JsonBranch.sessions, List.mem_cons, List.not_mem_nil, or_false, forall_eq,
        forall_eq_or_imp]
      exact ⟨⟨⟨.eq, .rel, by decide +kernel⟩, .w32, by decide +kernel⟩,
        ⟨.eq, .rel, by decide +kernel⟩, .w32, by decide +kernel⟩
    · simp only [JsonBranch.sessions, List.mem_cons, List.not_mem_nil, or_false, forall_eq,
        forall_eq_or_imp]
      exact ⟨⟨.static, by decide +kernel⟩, .sum, by decide +kernel⟩
    · simp only [JsonBranch.sessions, List.mem_singleton, forall_eq]
      exact ⟨.gt, by decide +kernel⟩
  merger := by
    intro _
    simp only [JsonQuery.sessions, List.mem_cons, List.not_mem_nil, or_false, forall_eq,
      forall_eq_or_imp]
    exact ⟨⟨by decide, by decide, .inl ⟨.eq, by decide +kernel⟩⟩, by decide, by decide,
      .inr (.inl (by decide +kernel))⟩

/-- A query with terms of all five kinds in two branches. -/
theorem sessions_executable : ∃ fquery,
    prepareFlowquery (fun _ => some 0) (Stages.all true) JsonQuery.sessions = .ok fquery ∧
      fquery.Executable := by
  have accepted : (prepareFlowquery (fun _ => some 0) (Stages.all true)
      JsonQuery.sessions).toOption.isSome = true := by
    decide +kernel
  refine (prepareFlowquery_executable_iff (fun _ => some 0) (Stages.all true) JsonQuery.sessions
    fun message aborted => ?_).mpr sessions_dispatch
  rw [aborted] at accepted
  cases accepted

/-- A datatype that does not exist gets through as the second one of a grouper term, and
leaves the term without functions. -/
theorem prepareFlowquery_not_executable :
    ¬ ∀ (offset : String → Option Nat) (stages : Stages) (query : JsonQuery),
      (∀ message, prepareFlowquery offset stages query ≠ .error (.errExit message)) →
      ∃ fquery, prepareFlowquery offset stages query = .ok fquery ∧ fquery.Executable := by
  intro executable
  obtain ⟨fquery, run, ready⟩ := executable (fun _ => some 0) Stages.grouperOnly
    (JsonQuery.samePort "RULE_S2_61") (samePort_accepted _)
  rw [samePort_run, Except.ok.injEq] at run
  subst run
  have sorted := (ready.branchset _ (List.mem_singleton_self _)).grouper _
    (List.mem_singleton_self _) _ (List.mem_singleton_self _)
  have unknown : (getGtype (getEnum "RULE_S2_61")).isSome = false := by decide +kernel
  exact absurd sorted.2 (by rw [unknown]; decide)

end Nfql
