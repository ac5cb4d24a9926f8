import Nfql.AssignFuncs
import Nfql.MergerJoin
import Nfql.QueryRoundTrip

set_option autoImplicit false

/- What becomes of the delta of a merger term on its way from the query to the
comparator. -/
namespace Nfql

open Outcomes

section Rules

def Rule.IsDatatype : Rule → Prop
  | .s1 _ | .s2 _ => True
  | _ => False

/-- A `RULE_EQ` term whose delta fits an `int`. -/
structure MergerRule.IsEquality (rule : MergerRule) : Prop where
  op : rule.opName = .comp .eq
  field1Type : rule.field1Type.IsDatatype
  field2Type : rule.field2Type.IsDatatype
  nonneg : 0 ≤ rule.delta
  fits : rule.delta < 2 ^ 31

/-- The term compares the fields that the rule names, for equality. -/
structure MergerRule.Loaded {σ : Type} (reader : QueryReader σ) (offset : String → Option Nat)
    {numBranches : Nat} (rule : MergerRule) (term : MergerTerm numBranches) : Prop where
  branch1 : (term.branch1 : Nat) = (parsedInt reader rule.branch1Id).toNat
  field1 : offset rule.field1Name = some term.field1
  branch2 : (term.branch2 : Nat) = (parsedInt reader rule.branch2Id).toNat
  field2 : offset rule.field2Name = some term.field2
  op : term.op = .comp .eq

variable {numBranches : Nat}

/-- The values of the two compared fields are related. -/
def MergerTerm.Relates (R : Nat → Nat → Prop) (groups : List Group)
    (term : MergerTerm numBranches) : Prop :=
  ∃ group1 group2, groups[term.branch1.val]? = some group1 ∧
    groups[term.branch2.val]? = some group2 ∧
    R (readField term.field1Type group1.record term.field1).toNat
      (readField term.field2Type group2.record term.field2).toNat

/-- Both compared fields are non-zero. -/
def MergerTerm.NonZero (groups : List Group) (term : MergerTerm numBranches) : Prop :=
  term.Relates (fun value1 value2 => value1 ≠ 0 ∧ value2 ≠ 0) groups

/-- The fields differ by at most the delta of the query. -/
def MergerRule.Within (groups : List Group) (rule : MergerRule) (term : MergerTerm numBranches) :
    Prop :=
  term.Relates (fun value1 value2 => |(value1 : Int) - value2| ≤ rule.delta) groups

/-- The fields are equal. -/
def MergerTerm.Equal (groups : List Group) (term : MergerTerm numBranches) : Prop :=
  term.Relates (fun value1 value2 => value1 = value2) groups

end Rules

section Terms

variable {σ : Type} (reader : QueryReader σ) (offset : String → Option Nat) (numBranches : Nat)

/-- Any two datatypes leave the operator `RULE_EQ`. -/
theorem assignMergerFunc_equality (rule : MergerRule) (equality : rule.IsEquality)
    (term : Prepared.MergerTerm) (op : term.op = rule.opName.value)
    (field1Type : term.field1Type = rule.field1Type.value)
    (field2Type : term.field2Type = rule.field2Type.value) :
    ∃ atype1 atype2, assignMergerFunc term = some (.comp .eq, atype1, atype2) := by
  have listed : ∀ datatype : Rule, datatype.IsDatatype →
      datatype ∈ Width.all.map Rule.s1 ++ Width.all.map Rule.s2 := by
    rintro (width | width | _ | _ | _ | _ | _) isDatatype
    · cases width <;> decide
    · cases width <;> decide
    all_goals exact isDatatype.elim
  have cases : ∀ datatype1 ∈ Width.all.map Rule.s1 ++ Width.all.map Rule.s2,
      ∀ datatype2 ∈ Width.all.map Rule.s1 ++ Width.all.map Rule.s2,
        (mergerCases.lookup ((Rule.comp .eq).value ||| datatype1.value ||| datatype2.value)).map
          Prod.fst = some (.comp .eq) := by
    decide +kernel
  have found := cases _ (listed _ equality.field1Type) _ (listed _ equality.field2Type)
  rw [← equality.op, ← op, ← field1Type, ← field2Type] at found
  obtain ⟨⟨op, atype1, atype2⟩, assigned, rfl⟩ := Option.map_eq_some_iff.mp found
  exact ⟨atype1, atype2, assigned⟩

theorem branchAt_ok (id : BitVec 64) (branch : Nat)
    (success : branchAt numBranches id = .ok branch) : branch = id.toNat ∧ branch < numBranches := by
  unfold branchAt at success
  by_cases inside : id.toNat < numBranches
  · rw [if_pos inside] at success
    cases success
    exact ⟨rfl, inside⟩
  · rw [if_neg inside] at success
    cases success

/-- What `prepare_flowquery` and `assign_merger_func` make of the rule. -/
theorem prepareMergerTerm_loaded (rule : MergerRule) (equality : rule.IsEquality)
    (term : Prepared.MergerTerm)
    (success : prepareMergerTerm offset numBranches (rule.parsed reader) = .ok term) :
    ∃ assigned, term.assigned numBranches = some assigned ∧
      rule.Loaded reader offset assigned := by
  unfold prepareMergerTerm MergerRule.parsed at success
  simp only [checkedEnum_name, ok_bind] at success
  obtain ⟨field1, known1, success⟩ := bind_eq_ok success
  obtain ⟨field2, known2, success⟩ := bind_eq_ok success
  obtain ⟨branch1, run1, success⟩ := bind_eq_ok success
  obtain ⟨branch2, run2, success⟩ := bind_eq_ok success
  cases success
  obtain ⟨same1, inside1⟩ := branchAt_ok numBranches _ _ run1
  obtain ⟨same2, inside2⟩ := branchAt_ok numBranches _ _ run2
  obtain ⟨atype1, atype2, func⟩ := assignMergerFunc_equality rule equality
    ⟨branch1, field1, branch2, field2, rule.opName.value, rule.field1Type.value,
      rule.field2Type.value, rule.opType.value, 0#64⟩ rfl rfl rfl
  refine ⟨⟨⟨branch1, inside1⟩, field1, ⟨branch2, inside2⟩, field2, .comp .eq, atype1, atype2,
    0#64⟩, ?_, ?_⟩
  · unfold Prepared.MergerTerm.assigned
    rw [func]
    exact dif_pos ⟨inside1, inside2⟩
  · exact ⟨same1, checkedOffset_ok offset known1, same2, checkedOffset_ok offset known2,
      rfl⟩

end Terms

section Clause

variable {numBranches : Nat} (groupsets : List (List Group)) (selection : List (Nat × Group))

/-- The clause, taken alone, merges the chosen groups. -/
def Merges (terms : List (MergerTerm numBranches)) : Prop :=
  checkClauses (mergerTerm MergerTerm.func (groupsets.map GroupfilterResult.of)
    (selection.map fun choice => choice.1 + 1)) [terms] true = .ok true

/-- On non-zero fields, a `RULE_EQ` term is true if they are equal. -/
theorem mergerTerm_equal (count : groupsets.length = numBranches)
    (chosen : List.Forall₂ Chosen groupsets selection) (term : MergerTerm numBranches)
    (op : term.op = .comp .eq) (nonZero : term.NonZero (selection.map Prod.snd)) :
    ∃ holds : Bool, mergerTerm MergerTerm.func (groupsets.map GroupfilterResult.of)
        (selection.map fun choice => choice.1 + 1) term = .ok holds ∧
      (holds = true ↔ term.Equal (selection.map Prod.snd)) := by
  obtain ⟨group1, found1, run1⟩ := filteredGroup_ok groupsets selection chosen term.branch1.val
    (by rw [count]; exact term.branch1.isLt)
  obtain ⟨group2, found2, run2⟩ := filteredGroup_ok groupsets selection chosen term.branch2.val
    (by rw [count]; exact term.branch2.isLt)
  obtain ⟨group1', group2', same1, same2, positive1, -⟩ := nonZero
  rw [found1, Option.some.injEq] at same1
  rw [found2, Option.some.injEq] at same2
  subst same1 same2
  refine ⟨mergerComp .eq term.field1Type term.field2Type group1 term.field1 group2 term.field2
    0#64, ?_, ?_⟩
  · simp only [mergerTerm, run1, run2, ok_bind, MergerTerm.func, op]
  · rw [mergerComp_eq_zero]
    constructor
    · rintro ⟨same, -⟩
      exact ⟨group1, group2, found1, found2, congrArg BitVec.toNat same⟩
    · rintro ⟨other1, other2, same1, same2, same⟩
      rw [found1, Option.some.injEq] at same1
      rw [found2, Option.some.injEq] at same2
      subst same1 same2
      exact ⟨BitVec.eq_of_toNat_eq same, fun zero => positive1 (congrArg BitVec.toNat zero)⟩

/-- The clause is true on the tuple exactly if all its fields are equal. -/
theorem merges_iff (count : groupsets.length = numBranches)
    (chosen : List.Forall₂ Chosen groupsets selection) (terms : List (MergerTerm numBranches))
    (op : ∀ term ∈ terms, term.op = .comp .eq)
    (nonZero : ∀ term ∈ terms, term.NonZero (selection.map Prod.snd)) :
    Merges groupsets selection terms ↔ ∀ term ∈ terms, term.Equal (selection.map Prod.snd) := by
  unfold Merges
  induction terms with
  | nil => exact iff_of_true rfl (by simp)
  | cons term rest ih =>
      obtain ⟨holds, run, same⟩ := mergerTerm_equal groupsets selection count chosen term
        (op term List.mem_cons_self) (nonZero term List.mem_cons_self)
      have later := ih (fun other member => op other (List.mem_cons_of_mem _ member))
        (fun other member => nonZero other (List.mem_cons_of_mem _ member))
      rw [List.forall_mem_cons, ← later, ← same]
      simp only [checkClauses, checkTerms, run, ok_bind]
      cases holds with
      | false => simp
      | true => simp

end Clause

section Query

variable {σ : Type} (reader : QueryReader σ)

/-- The merger clauses of a query that is loaded are those of its rules. -/
theorem loadQuery_merger (templ templ' : σ) (query : Query) (stages : Stages)
    (fquery : Prepared.Flowquery)
    (loaded : loadQuery reader templ query.json = .ok (stages, templ', fquery)) :
    fquery.branchset.length = query.branchset.length ∧
      List.Forall₂ (List.Forall₂ fun rule term =>
        prepareMergerTerm (reader.ioReadGetFieldOffset templ') query.branchset.length
          (rule.parsed reader) = .ok term) (query.merger.getD []) fquery.mergerClauseset := by
  obtain ⟨-, success⟩ := loadQuery_ok reader loaded
  obtain ⟨branches, merger⟩ := prepareFlowquery_ok success
  have count := (mapM_forall₂ _ _ _ branches).length_eq
  have branchCount : (query.parsed reader).branchset.length = query.branchset.length :=
    List.length_map _
  rw [branchCount] at count merger
  refine ⟨count.symm, ?_⟩
  have parsedClauses : (query.parsed reader).mergerClauseset =
      (query.merger.getD []).map (List.map (MergerRule.parsed reader)) := rfl
  rw [parsedClauses] at merger
  have enabled : query.stages.mergerEnabled = query.merger.isSome := rfl
  rw [enabled] at merger
  cases given : query.merger with
  | none =>
      rw [given] at merger
      have empty : [] = fquery.mergerClauseset := Except.ok.inj merger
      rw [← empty]
      exact List.Forall₂.nil
  | some clauses =>
      rw [given] at merger
      have clauseRuns := mapM_forall₂ _ _ _ merger
      rw [List.forall₂_map_left_iff] at clauseRuns
      refine clauseRuns.imp fun rules terms run => ?_
      exact List.forall₂_map_left_iff.mp (mapM_forall₂ _ _ _ run)

/-- Equal fields are within every delta. -/
theorem within_of_equal {numBranches : Nat} (groups : List Group) (rule : MergerRule)
    (nonneg : 0 ≤ rule.delta) (term : MergerTerm numBranches) (equal : term.Equal groups) :
    rule.Within groups term := by
  obtain ⟨group1, group2, found1, found2, same⟩ := equal
  refine ⟨group1, group2, found1, found2, ?_⟩
  show |((readField term.field1Type group1.record term.field1).toNat : Int) -
    (readField term.field2Type group2.record term.field2).toNat| ≤ rule.delta
  rw [same, sub_self, abs_zero]
  exact nonneg

private theorem forall₂_getElem? {τ υ : Type} {R : τ → υ → Prop} {items : List τ}
    {others : List υ} (related : List.Forall₂ R items others) (index : Nat) (item : τ)
    (given : items[index]? = some item) : ∃ other, others[index]? = some other ∧ R item other := by
  induction related generalizing index with
  | nil => cases given
  | cons head _ ih =>
      cases index with
      | zero =>
          cases given
          exact ⟨_, rfl, head⟩
      | succ index => exact ih index given

private theorem loaded_terms {numBranches : Nat} (offset : String → Option Nat)
    (rules : List MergerRule) (equalities : ∀ rule ∈ rules, rule.IsEquality)
    (prepared : List Prepared.MergerTerm)
    (runs : List.Forall₂ (fun rule term =>
      prepareMergerTerm offset numBranches (rule.parsed reader) = .ok term) rules prepared) :
    ∃ terms, List.Forall₂ (fun term assigned => term.assigned numBranches = some assigned)
        prepared terms ∧ List.Forall₂ (fun rule assigned => rule.Loaded reader offset assigned)
          rules terms := by
  induction runs with
  | nil => exact ⟨[], List.Forall₂.nil, List.Forall₂.nil⟩
  | @cons rule term rules prepared run _ ih =>
      obtain ⟨equality, others⟩ := List.forall_mem_cons.mp equalities
      obtain ⟨assigned, func, loaded⟩ :=
        prepareMergerTerm_loaded reader offset numBranches rule equality term run
      obtain ⟨terms, funcs, loadeds⟩ := ih others
      exact ⟨assigned :: terms, List.Forall₂.cons func funcs, List.Forall₂.cons loaded loadeds⟩

/-- A clause of `RULE_EQ` rules merges the tuples whose fields are within the deltas of the
query if and only if such fields are always equal. -/
theorem merger_within_iff (templ templ' : σ) (query : Query) (stages : Stages)
    (fquery : Prepared.Flowquery)
    (loaded : loadQuery reader templ query.json = .ok (stages, templ', fquery)) (index : Nat)
    (rules : List MergerRule) (given : (query.merger.getD [])[index]? = some rules)
    (equalities : ∀ rule ∈ rules, rule.IsEquality) :
    ∃ prepared, ∃ terms : List (MergerTerm fquery.branchset.length),
      fquery.mergerClauseset[index]? = some prepared ∧
      List.Forall₂ (fun term assigned => term.assigned fquery.branchset.length = some assigned)
        prepared terms ∧
      List.Forall₂ (MergerRule.Loaded reader (reader.ioReadGetFieldOffset templ')) rules terms ∧
      ∀ (groupsets : List (List Group)) (selection : List (Nat × Group)),
        groupsets.length = fquery.branchset.length → List.Forall₂ Chosen groupsets selection →
        (∀ term ∈ terms, term.NonZero (selection.map Prod.snd)) →
        ((Merges groupsets selection terms ↔
            List.Forall₂ (MergerRule.Within (selection.map Prod.snd)) rules terms) ↔
          (List.Forall₂ (MergerRule.Within (selection.map Prod.snd)) rules terms →
            ∀ term ∈ terms, term.Equal (selection.map Prod.snd))) := by
  obtain ⟨count, clauses⟩ := loadQuery_merger reader templ templ' query stages fquery loaded
  obtain ⟨prepared, found, runs⟩ := forall₂_getElem? clauses index rules given
  rw [← count] at runs
  obtain ⟨terms, funcs, loadeds⟩ := loaded_terms reader _ rules equalities prepared runs
  refine ⟨prepared, terms, found, funcs, loadeds, ?_⟩
  intro groupsets selection branches chosen nonZero
  have flipped : List.Forall₂ (fun (term : MergerTerm fquery.branchset.length) rule =>
      term.op = .comp .eq ∧ MergerRule.Loaded reader (reader.ioReadGetFieldOffset templ') rule term)
        terms rules := loadeds.flip.imp fun _ _ loaded => ⟨loaded.op, loaded⟩
  have op : ∀ term ∈ terms, term.op = .comp .eq := ((List.forall₂_and_left _ _).mp flipped).1
  rw [merges_iff groupsets selection branches chosen terms op nonZero]
  constructor
  · intro same
    exact same.mpr
  · intro equal
    refine ⟨fun all => List.forall₂_iff_zip.mpr ⟨loadeds.length_eq, fun pair => ?_⟩, equal⟩
    obtain ⟨inRules, inTerms⟩ := List.of_mem_zip pair
    exact within_of_equal _ _ (equalities _ inRules).nonneg _ (all _ inTerms)

end Query

/-- The first bytes of two groups' records may differ by the delta. -/
def MergerRule.nearby (delta : Int) : MergerRule :=
  ⟨0, 1, "octets", .s1 .w8, "octets", .s2 .w8, delta, .comp .eq, .delta .abs⟩

/-- A query of two branches without stages and one merger term. -/
def Query.nearby (delta : Int) : Query :=
  ⟨[⟨none, none, none⟩, ⟨none, none, none⟩], some [[MergerRule.nearby delta]], false⟩

def Prepared.Flowquery.nearby : Prepared.Flowquery :=
  ⟨[⟨[], [], [], []⟩, ⟨[], [], [], []⟩], [[⟨0, 0, 1, 0, 0#64, 0#64, 0#64, 0#64, 0#64⟩]]⟩

theorem nearby_loaded (delta : Int) :
    loadQuery QueryReader.clamping () (Query.nearby delta).json =
      .ok ((Query.nearby delta).stages, (), Prepared.Flowquery.nearby) := rfl

theorem nearby_equality (delta : Int) (nonneg : 0 ≤ delta) (fits : delta < 2 ^ 31) :
    ∀ rule ∈ [MergerRule.nearby delta], rule.IsEquality := by
  intro rule member
  rw [List.mem_singleton.mp member]
  exact ⟨rfl, trivial, trivial, nonneg, fits⟩

theorem merger_within_nearby :
    ∃ prepared, ∃ terms : List (MergerTerm 2),
      Prepared.Flowquery.nearby.mergerClauseset[0]? = some prepared ∧
      List.Forall₂ (fun term assigned => term.assigned 2 = some assigned) prepared terms ∧
      List.Forall₂ (MergerRule.Loaded QueryReader.clamping fun _ => some 0)
        [MergerRule.nearby 5] terms ∧
      ∀ (groupsets : List (List Group)) (selection : List (Nat × Group)),
        groupsets.length = 2 → List.Forall₂ Chosen groupsets selection →
        (∀ term ∈ terms, term.NonZero (selection.map Prod.snd)) →
        ((Merges groupsets selection terms ↔
            List.Forall₂ (MergerRule.Within (selection.map Prod.snd)) [MergerRule.nearby 5] terms) ↔
          (List.Forall₂ (MergerRule.Within (selection.map Prod.snd)) [MergerRule.nearby 5] terms →
            ∀ term ∈ terms, term.Equal (selection.map Prod.snd))) :=
  merger_within_iff QueryReader.clamping () () (Query.nearby 5) (Query.nearby 5).stages
    Prepared.Flowquery.nearby (nearby_loaded 5) 0 [MergerRule.nearby 5] rfl
    (nearby_equality 5 (by decide) (by decide))

/-- A group whose record has the same value in every byte. -/
def Group.ofByte (byte : BitVec 8) : Group := ⟨[], ⟨⟨fun _ => byte, 0#64, 0#64⟩, none⟩⟩

/-- The values 10 and 12 are within a delta of 5, and are not merged. -/
theorem merger_not_within :
    ¬ ∀ (σ : Type) (reader : QueryReader σ) (templ templ' : σ) (query : Query) (stages : Stages)
      (fquery : Prepared.Flowquery),
      loadQuery reader templ query.json = .ok (stages, templ', fquery) →
      ∀ (index : Nat) (rules : List MergerRule),
      (query.merger.getD [])[index]? = some rules → (∀ rule ∈ rules, rule.IsEquality) →
      ∃ prepared, ∃ terms : List (MergerTerm fquery.branchset.length),
        fquery.mergerClauseset[index]? = some prepared ∧
        List.Forall₂ (fun term assigned => term.assigned fquery.branchset.length = some assigned)
          prepared terms ∧
        ∀ (groupsets : List (List Group)) (selection : List (Nat × Group)),
          groupsets.length = fquery.branchset.length → List.Forall₂ Chosen groupsets selection →
          (∀ term ∈ terms, term.NonZero (selection.map Prod.snd)) →
          (Merges groupsets selection terms ↔
            List.Forall₂ (MergerRule.Within (selection.map Prod.snd)) rules terms) := by
  intro claimed
  obtain ⟨prepared, terms, found, assigned, merged⟩ := claimed Unit QueryReader.clamping () ()
    (Query.nearby 5) (Query.nearby 5).stages Prepared.Flowquery.nearby (nearby_loaded 5) 0
    [MergerRule.nearby 5] rfl (nearby_equality 5 (by decide) (by decide))
  cases found
  obtain ⟨term, rest, func, none, rfl⟩ := List.forall₂_cons_left_iff.mp assigned
  cases none
  have term_eq : term = MergerTerm.firstBytes (.comp .eq) := (Option.some.inj func).symm
  subst term_eq
  have nonZero : (MergerTerm.firstBytes (.comp .eq)).NonZero
      [Group.ofByte 10#8, Group.ofByte 12#8] :=
    ⟨_, _, rfl, rfl, by decide, by decide⟩
  have merges := (merged [[Group.ofByte 10#8], [Group.ofByte 12#8]]
    [(0, Group.ofByte 10#8), (0, Group.ofByte 12#8)] rfl
    (List.Forall₂.cons rfl (List.Forall₂.cons rfl List.Forall₂.nil))
    (by intro term member; rw [List.mem_singleton.mp member]; exact nonZero)).mpr
      (List.Forall₂.cons ⟨_, _, rfl, rfl, by decide⟩ List.Forall₂.nil)
  have lost : checkClauses (mergerTerm MergerTerm.func
      ([[Group.ofByte 10#8], [Group.ofByte 12#8]].map GroupfilterResult.of) [1, 1])
        [[MergerTerm.firstBytes (.comp .eq)]] true = .ok false := rfl
  exact absurd (merges.symm.trans lost) (by simp)

end Nfql
