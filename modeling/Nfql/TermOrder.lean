import Nfql.ExactComparators
import Nfql.GroupBy
import Nfql.MaximalRuns
import Nfql.SortedRuns

set_option autoImplicit false

/- The order of a clause's leading equalities does not matter. -/
namespace Nfql

open GreedyRuns DeltaWindow

/-- A `RULE_EQ` term that compares a field with itself. -/
structure GrouperTerm.IsSelf (term : GrouperTerm) : Prop where
  op : term.op = .eq
  offset : term.fieldOffset1 = term.fieldOffset2
  width : term.field1Type = term.field2Type

theorem GrouperTerm.IsEquality.isSelf {term : GrouperTerm} (equality : term.IsEquality) :
    term.IsSelf := ⟨equality.op, equality.offset, equality.width⟩

/-- A term's window around a record's own value does not wrap. -/
def GrouperTerm.SelfFits (term : GrouperTerm) (item : RecordPtr) : Prop :=
  term.delta.toNat ≤ (term.key.read item.record).toNat ∧
    (term.key.read item.record).toNat + term.delta.toNat < 2 ^ 64

/-- If records agree on all of a clause's fields, the windows around their values fit. -/
def TwinsFit (clause : List GrouperTerm) (records : List RecordPtr) : Prop :=
  ∀ a ∈ records, 1 < records.countP (fun b => keyTuple clause b = keyTuple clause a) →
    ∀ term ∈ clause, term.optype ≠ .no → term.SelfFits a

/-- A clause whose leading equalities are permuted. -/
structure Reordered (records : List RecordPtr) (clause clause' : List GrouperTerm) : Prop where
  leading : ∃ first first' rest, clause = first ++ rest ∧ clause' = first' ++ rest ∧
    first.Perm first' ∧ (∀ term ∈ first, term.IsEquality) ∧ ∀ term ∈ rest, term.IsSelf
  twins : TwinsFit clause records

/-- The partition into groups, as a set of member sets. -/
def memberSets (groups : List Group) : Set (Set RecordPtr) :=
  {members | ∃ group ∈ groups, members = {item | item ∈ group.members}}

section Terms

variable (term : GrouperTerm) (self : term.IsSelf)

include self

theorem self_func (members : List RecordPtr) (member : RecordPtr) (record2 : Record)
    (chosen : groupMember term.optype members = some member) :
    term.func members record2 =
      term.compare (term.key.read member.record) (term.key.read record2) := by
  rw [func_compare term members member record2 chosen, self.offset, self.width]
  rfl

/-- A record joins one with the same value if the window around it fits. -/
theorem compare_self (item : RecordPtr) (fits : term.optype ≠ .no → term.SelfFits item) :
    term.compare (term.key.read item.record) (term.key.read item.record) = true := by
  have window : term.optype ≠ .no →
      compareDelta .eq (term.key.read item.record) (term.key.read item.record) term.delta = true := by
    intro windowed
    obtain ⟨lower, upper⟩ := fits windowed
    rw [compareDelta_eq_iff, SubFits, AddFits]
    omega
  rw [GrouperTerm.compare, self.op]
  cases optype : term.optype with
  | no => exact (compareNo_eq _ _).mpr rfl
  | abs | rel => exact window (by simp [optype])

/-- A twin of the last member that joined a group joins it as well. -/
theorem func_twin (members : List RecordPtr) (a b : RecordPtr)
    (same : term.key.read a.record = term.key.read b.record)
    (joined : members ≠ [] → term.func members a.record = true)
    (fits : term.optype ≠ .no → term.SelfFits a) :
    term.func (members ++ [a]) b.record = true := by
  have last : groupMember term.optype (members ++ [a]) = some a →
      term.func (members ++ [a]) b.record = true := by
    intro chosen
    rw [self_func term self _ a _ chosen, ← same]
    exact compare_self term self a fits
  have first : (members ≠ [] → groupMember term.optype (members ++ [a]) =
      groupMember term.optype members) → (members = [] → groupMember term.optype (members ++ [a]) =
        some a) → term.func (members ++ [a]) b.record = true := by
    intro others alone
    by_cases empty : members = []
    · exact last (alone empty)
    · obtain ⟨member, -, chosen⟩ := groupMember_mem term.optype members empty
      have accepted := joined empty
      rw [self_func term self _ member _ chosen, same] at accepted
      rw [self_func term self _ member _ ((others empty).trans chosen)]
      exact accepted
  cases optype : term.optype with
  | rel => exact last (by rw [optype, groupMember, List.getLast?_concat])
  | abs | no =>
      apply first
      · intro given
        obtain ⟨head, rest, rfl⟩ := List.exists_cons_of_ne_nil given
        rw [optype]
        rfl
      · rintro rfl
        rw [optype]
        rfl

end Terms

section Related

/-- The records agree on all fields of the clause. -/
def SameTuple (clause : List GrouperTerm) (a b : RecordPtr) : Prop :=
  keyTuple clause a = keyTuple clause b

theorem groupMember_related {R : RecordPtr → RecordPtr → Prop} (optype : DeltaType)
    (members members' : List RecordPtr) (related : List.Forall₂ R members members') :
    Option.Rel R (groupMember optype members) (groupMember optype members') := by
  cases optype with
  | rel =>
      simp only [groupMember]
      induction related with
      | nil => exact Option.Rel.none
      | cons head tail ih =>
          cases tail with
          | nil => exact Option.Rel.some head
          | cons next rest =>
              rw [List.getLast?_cons_cons, List.getLast?_cons_cons]
              exact ih
  | abs | no =>
      cases related with
      | nil => exact Option.Rel.none
      | cons head _ => exact Option.Rel.some head

/-- The clause cannot tell records apart that agree on its fields. -/
theorem clauseAccepts_related (clause : List GrouperTerm) (self : ∀ term ∈ clause, term.IsSelf)
    (group group' : List RecordPtr) (item item' : RecordPtr)
    (related : List.Forall₂ (SameTuple clause) group group') (same : SameTuple clause item item') :
    clauseAccepts GrouperFuncs.generated clause group item =
      clauseAccepts GrouperFuncs.generated clause group' item' := by
  rw [SameTuple, keyTuple_eq_iff] at same
  have each : ∀ term ∈ clause, term.func group item.record = term.func group' item'.record := by
    intro term member
    have members := groupMember_related term.optype group group' related
    cases chosen : groupMember term.optype group with
    | none =>
        rw [chosen] at members
        cases chosen' : groupMember term.optype group' with
        | some _ => rw [chosen'] at members; cases members
        | none => rw [GrouperTerm.func, GrouperTerm.func, chosen, chosen']
    | some first =>
        rw [chosen] at members
        cases chosen' : groupMember term.optype group' with
        | none => rw [chosen'] at members; cases members
        | some first' =>
            rw [chosen'] at members
            obtain ⟨agree⟩ := members
            rw [SameTuple, keyTuple_eq_iff] at agree
            rw [self_func term (self term member) _ first _ chosen,
              self_func term (self term member) _ first' _ chosen', agree term member,
              same term member]
  rw [clauseAccepts, clauseAccepts, Bool.eq_iff_iff, List.all_eq_true, List.all_eq_true]
  constructor
  · intro accepted term member
    exact (each term member).symm.trans (accepted term member)
  · intro accepted term member
    exact (each term member).trans (accepted term member)

end Related

section Classes

variable (first rest : List GrouperTerm)

theorem clauseAccepts_refines (equalities : ∀ term ∈ first, term.IsEquality) :
    Refines (clauseAccepts GrouperFuncs.generated (first ++ rest))
      (clauseAccepts GrouperFuncs.generated rest) (keyTuple first) := by
  intro group item value started shared
  rw [clauseAccepts, List.all_append, Bool.and_eq_true, ← clauseAccepts,
    clauseAccepts_keyed first equalities group item value started shared]
  exact Iff.rfl

theorem keyTuple_append_eq_iff (a b : RecordPtr) :
    keyTuple (first ++ rest) a = keyTuple (first ++ rest) b ↔
      keyTuple first a = keyTuple first b ∧ keyTuple rest a = keyTuple rest b := by
  rw [keyTuple_eq_iff, keyTuple_eq_iff, keyTuple_eq_iff, List.forall_mem_append]

/-- The sorted records that agree with `a` on the first fields. -/
def classOf (sorted : List RecordPtr) (a : RecordPtr) : List RecordPtr :=
  sorted.filter fun b => keyTuple first b = keyTuple first a

variable (sorted records : List RecordPtr) (perm : sorted.Perm records)
  (order : sorted.Pairwise fun a b => keyTuple first a < keyTuple first b ∨
    keyTuple first a = keyTuple first b ∧ keyTuple rest a ≤ keyTuple rest b)

include order in
theorem classOf_sorted (a : RecordPtr) :
    (classOf first sorted a).Pairwise fun b c => keyTuple rest b ≤ keyTuple rest c := by
  refine (order.filter _).imp_of_mem ?_
  intro b c memberB memberC before
  have sameB : keyTuple first b = keyTuple first a := by simpa using (List.mem_filter.mp memberB).2
  have sameC : keyTuple first c = keyTuple first a := by simpa using (List.mem_filter.mp memberC).2
  rcases before with less | ⟨-, le⟩
  · rw [sameB, sameC] at less
    exact absurd less (lt_irrefl _)
  · exact le

include perm in
/-- Ties within a class are records that agree on all fields. -/
theorem classOf_count (a b : RecordPtr) (member : b ∈ classOf first sorted a) :
    ((classOf first sorted a).map (keyTuple rest)).count (keyTuple rest b) =
      records.countP fun c => keyTuple (first ++ rest) c = keyTuple (first ++ rest) b := by
  have sameFirst : keyTuple first b = keyTuple first a := by
    simpa using (List.mem_filter.mp member).2
  rw [List.count_eq_countP, List.countP_map, classOf, List.countP_filter, perm.countP_eq]
  apply List.countP_congr
  intro c _
  simp only [Function.comp_apply, beq_iff_eq, Bool.and_eq_true, decide_eq_true_eq,
    keyTuple_append_eq_iff, sameFirst]
  exact And.comm

include order in
theorem runs_classOf (equalities : ∀ term ∈ first, term.IsEquality) (group : List RecordPtr) :
    group ∈ runs (clauseAccepts GrouperFuncs.generated (first ++ rest)) sorted ↔
      ∃ a ∈ sorted, group ∈ runs (clauseAccepts GrouperFuncs.generated rest)
        (classOf first sorted a) := by
  have byFirst : sorted.Pairwise fun a b => keyTuple first a ≤ keyTuple first b := by
    refine order.imp ?_
    rintro a b (less | ⟨same, -⟩)
    · exact le_of_lt less
    · exact le_of_eq same
  rw [runs_byClass (clauseAccepts_refines first rest equalities) sorted byFirst]
  refine exists_congr fun a => and_congr_right fun _ => ?_
  refine iff_of_eq (congrArg (group ∈ runs _ ·) (List.filter_congr fun b _ => ?_))
  exact decide_eq_decide.mpr Iff.rfl

include perm order in
/-- Ties are never cut apart, if their windows fit. -/
theorem classOf_ties (self : ∀ term ∈ rest, term.IsSelf)
    (twins : TwinsFit (first ++ rest) records) (a : RecordPtr) :
    (runs (clauseAccepts GrouperFuncs.generated rest) (classOf first sorted a)).Pairwise
      fun group later => ∀ b ∈ group, ∀ c ∈ later, keyTuple rest b < keyTuple rest c := by
  have maximal := runs_maximal (clauseAccepts GrouperFuncs.generated rest) (classOf first sorted a)
  have flat := runs_flatten (clauseAccepts GrouperFuncs.generated rest) (classOf first sorted a)
  apply ties_together _ maximal (runs_ne_nil _ _)
  · rw [flat]
    exact classOf_sorted first rest sorted order a
  · rw [flat]
    intro group member b last c _ tie twice
    obtain ⟨init, rfl⟩ := List.getLast?_eq_some_iff.mp last
    have inside : b ∈ classOf first sorted a := (mem_runs _ _ b).mpr ⟨_, member, by simp⟩
    have ties : 1 < ((classOf first sorted a).map (keyTuple rest)).count (keyTuple rest b) :=
      List.replicate_sublist_iff.mp twice
    rw [classOf_count first rest sorted records perm a b inside] at ties
    have given : b ∈ records := perm.mem_iff.mp (List.mem_filter.mp inside).1
    rw [clauseAccepts, List.all_eq_true]
    intro term inClause
    refine func_twin term (self term inClause) init b c ?_ ?_ ?_
    · exact ((keyTuple_eq_iff rest c b).mp tie term inClause).symm
    · intro started
      exact List.all_eq_true.mp (maximal.joined _ member init b [] rfl started) term inClause
    · exact twins b given ties term (List.mem_append_right _ inClause)

include perm order in
/-- A group has all ties of its members. -/
theorem mem_of_tie (self : ∀ term ∈ rest, term.IsSelf) (twins : TwinsFit (first ++ rest) records)
    (a : RecordPtr) (group : List RecordPtr)
    (member : group ∈ runs (clauseAccepts GrouperFuncs.generated rest) (classOf first sorted a))
    (b c : RecordPtr) (inClass : b ∈ classOf first sorted a) (inside : c ∈ group)
    (tie : SameTuple rest b c) : b ∈ group := by
  obtain ⟨other, memberOther, inOther⟩ := (mem_runs _ _ b).mp inClass
  by_contra outside
  let apart (group later : List RecordPtr) : Prop :=
    ∀ b ∈ group, ∀ c ∈ later, keyTuple rest b ≠ keyTuple rest c
  have symm : Std.Symm apart :=
    ⟨fun _ _ unlike c memberC b memberB => (unlike b memberB c memberC).symm⟩
  have pairs : (runs (clauseAccepts GrouperFuncs.generated rest)
      (classOf first sorted a)).Pairwise apart :=
    (classOf_ties first rest sorted records perm order self twins a).imp
      fun less b memberB c memberC => ne_of_lt (less b memberB c memberC)
  have differ : other ≠ group := by
    rintro rfl
    exact outside inOther
  exact pairs.forall memberOther member differ b inOther c inside tie

end Classes

section Reorder

variable (first first' rest : List GrouperTerm) (records : List RecordPtr)

theorem keyTuple_perm (same : first.Perm first') (a b : RecordPtr) :
    keyTuple first a = keyTuple first b ↔ keyTuple first' a = keyTuple first' b := by
  rw [keyTuple_eq_iff, keyTuple_eq_iff]
  constructor
  · exact fun agree term member => agree term (same.mem_iff.mpr member)
  · exact fun agree term member => agree term (same.mem_iff.mp member)

theorem TwinsFit.perm {clause clause' : List GrouperTerm} (same : clause.Perm clause')
    (twins : TwinsFit clause records) : TwinsFit clause' records := by
  intro a member twice term inClause
  simp only [← keyTuple_perm clause clause' same] at twice
  exact twins a member twice term (same.mem_iff.mpr inClause)

/-- The records that agree with another on the leading terms are the same for both orders. -/
theorem classOf_perm (same : first.Perm first') (items items' : List RecordPtr)
    (perm : items.Perm items') (a : RecordPtr) :
    (classOf first items a).Perm (classOf first' items' a) := by
  simp only [classOf, keyTuple_perm first first' same]
  exact perm.filter _

/-- Both orders put them in the order of the remaining fields. -/
theorem classOf_related (same : first.Perm first') (items items' : List RecordPtr)
    (perm : items.Perm items')
    (order : items.Pairwise fun a b => keyTuple first a < keyTuple first b ∨
      keyTuple first a = keyTuple first b ∧ keyTuple rest a ≤ keyTuple rest b)
    (order' : items'.Pairwise fun a b => keyTuple first' a < keyTuple first' b ∨
      keyTuple first' a = keyTuple first' b ∧ keyTuple rest a ≤ keyTuple rest b)
    (a : RecordPtr) :
    List.Forall₂ (SameTuple rest) (classOf first items a) (classOf first' items' a) := by
  have increasing := List.pairwise_map.mpr (classOf_sorted first rest items order a)
  have increasing' := List.pairwise_map.mpr (classOf_sorted first' rest items' order' a)
  have tuples : (classOf first items a).map (keyTuple rest) =
      (classOf first' items' a).map (keyTuple rest) :=
    List.Perm.eq_of_pairwise (fun _ _ _ _ => le_antisymm) increasing increasing'
      ((classOf_perm first first' same items items' perm a).map _)
  rw [← List.forall₂_eq_eq_eq, List.forall₂_map_left_iff, List.forall₂_map_right_iff] at tuples
  exact tuples

/-- Each group of one order is a group of the other, up to the order of its members. -/
theorem runs_reorder (same : first.Perm first') (equalities : ∀ term ∈ first, term.IsEquality)
    (self : ∀ term ∈ rest, term.IsSelf) (twins : TwinsFit (first ++ rest) records)
    (libc : Libc) (current current' : List RecordPtr) (perm : current.Perm records)
    (perm' : current'.Perm records) (group : List RecordPtr)
    (member : group ∈ runs (clauseAccepts GrouperFuncs.generated (first ++ rest))
      (libc.qsortR.run (qsortComp GrouperFuncs.generated (first ++ rest)) current)) :
    ∃ group' ∈ runs (clauseAccepts GrouperFuncs.generated (first' ++ rest))
      (libc.qsortR.run (qsortComp GrouperFuncs.generated (first' ++ rest)) current'),
      ∀ a, a ∈ group ↔ a ∈ group' := by
  have order := sorted_tuples first rest libc current
  have order' := sorted_tuples first' rest libc current'
  have sorted := (libc.qsortR.perm (qsortComp GrouperFuncs.generated (first ++ rest))
    current).trans perm
  have sorted' := (libc.qsortR.perm (qsortComp GrouperFuncs.generated (first' ++ rest))
    current').trans perm'
  have equalities' : ∀ term ∈ first', term.IsEquality := fun term inside =>
    equalities term (same.mem_iff.mpr inside)
  have twins' := twins.perm records (same.append_right rest)
  generalize libc.qsortR.run (qsortComp GrouperFuncs.generated (first ++ rest)) current = items at *
  generalize libc.qsortR.run (qsortComp GrouperFuncs.generated (first' ++ rest)) current' = items'
    at *
  obtain ⟨a, inside, member⟩ := (runs_classOf first rest items order equalities group).mp member
  have reordered := sorted.trans sorted'.symm
  have classes := classOf_perm first first' same items items' reordered a
  have related := classOf_related first first' rest same items items' reordered order order' a
  have runs_same := runs_related (clauseAccepts_related rest self) _ _ related
  obtain ⟨group', member', agree⟩ := forall₂_left runs_same group member
  refine ⟨group', (runs_classOf first' rest items' order' equalities' group').mpr
    ⟨a, reordered.mem_iff.mp inside, member'⟩, fun b => ⟨?_, ?_⟩⟩
  · intro inGroup
    obtain ⟨c, inGroup', tie⟩ := forall₂_left agree b inGroup
    have inClass := classes.mem_iff.mp ((mem_runs _ _ b).mpr ⟨group, member, inGroup⟩)
    exact mem_of_tie first' rest items' records sorted' order' self twins' a group' member' b c
      inClass inGroup' tie
  · intro inGroup'
    obtain ⟨c, inGroup, tie⟩ := forall₂_right agree b inGroup'
    have inClass := classes.mem_iff.mpr ((mem_runs _ _ b).mpr ⟨group', member', inGroup'⟩)
    exact mem_of_tie first rest items records sorted order self twins a group member b c
      inClass inGroup tie.symm

end Reorder

section Grouper

variable (libc : Libc) (records : List RecordPtr)

/-- The groups are the runs of the clause over some order of the records. -/
def MadeFrom (clause : List GrouperTerm) (groups : List Group) : Prop :=
  ∃ current : List RecordPtr, current.Perm records ∧
    groups.map Group.members = runs (clauseAccepts GrouperFuncs.generated clause)
      (libc.qsortR.run (qsortComp GrouperFuncs.generated clause) current)

theorem MadeFrom.members {clause : List GrouperTerm} {groups : List Group}
    (made : MadeFrom libc records clause groups) :
    (groups.flatMap Group.members).Perm records := by
  obtain ⟨current, perm, cooked⟩ := made
  rw [List.flatMap_def, cooked, runs_flatten]
  exact (libc.qsortR.perm _ current).trans perm

private theorem memberSets_subset (first first' rest : List GrouperTerm) (same : first.Perm first')
    (equalities : ∀ term ∈ first, term.IsEquality) (self : ∀ term ∈ rest, term.IsSelf)
    (twins : TwinsFit (first ++ rest) records) (groups groups' : List Group)
    (made : MadeFrom libc records (first ++ rest) groups)
    (made' : MadeFrom libc records (first' ++ rest) groups') :
    memberSets groups ⊆ memberSets groups' := by
  obtain ⟨current, perm, cooked⟩ := made
  obtain ⟨current', perm', cooked'⟩ := made'
  rintro _ ⟨group, member, rfl⟩
  have inRuns : group.members ∈ groups.map Group.members := List.mem_map_of_mem member
  rw [cooked] at inRuns
  obtain ⟨members', inRuns', agree⟩ := runs_reorder first first' rest records same equalities self
    twins libc current current' perm perm' _ inRuns
  rw [← cooked'] at inRuns'
  obtain ⟨group', member', rfl⟩ := List.mem_map.mp inRuns'
  exact ⟨group', member', Set.ext agree⟩

theorem memberSets_reordered (clause clause' : List GrouperTerm)
    (reordered : Reordered records clause clause') (groups groups' : List Group)
    (made : MadeFrom libc records clause groups) (made' : MadeFrom libc records clause' groups') :
    memberSets groups = memberSets groups' := by
  obtain ⟨⟨first, first', rest, rfl, rfl, same, equalities, self⟩, twins⟩ := reordered
  refine Set.Subset.antisymm ?_ ?_
  · exact memberSets_subset libc records first first' rest same equalities self twins groups groups'
      made made'
  · exact memberSets_subset libc records first' first rest same.symm
      (fun term inside => equalities term (same.mem_iff.mpr inside)) self
      (twins.perm records (same.append_right rest)) groups' groups made' made

private theorem blocks_reordered (clauses clauses' : List (List GrouperTerm))
    (reordered : List.Forall₂ (Reordered records) clauses clauses')
    (blocks blocks' : List (List Group))
    (made : List.Forall₂ (MadeFrom libc records) clauses blocks)
    (made' : List.Forall₂ (MadeFrom libc records) clauses' blocks') :
    List.Forall₂ (fun groups groups' => memberSets groups = memberSets groups') blocks blocks' := by
  induction reordered generalizing blocks blocks' with
  | nil =>
      rw [List.forall₂_nil_left_iff.mp made, List.forall₂_nil_left_iff.mp made']
      exact .nil
  | cons head _ ih =>
      obtain ⟨groups, rest, now, later, rfl⟩ := List.forall₂_cons_left_iff.mp made
      obtain ⟨groups', rest', now', later', rfl⟩ := List.forall₂_cons_left_iff.mp made'
      exact .cons (memberSets_reordered libc records _ _ head groups groups' now now')
        (ih rest rest' later later')

variable (io : IoHandler) (groupaggregationsEnabled : Bool) (branch branch' : Branch)

private theorem grouper_made (given : branch.grouperClauseset ≠ []) (result : GrouperResult)
    (success : grouper libc GrouperFuncs.generated io groupaggregationsEnabled branch
      (FilterResult.of records) = .ok result) :
    ∃ blocks : List (List Group), result.groupset = blocks.flatten ∧
      List.Forall₂ (MadeFrom libc records) branch.grouperClauseset blocks := by
  obtain ⟨blocks, same, each⟩ := grouper_eachClause libc _ io groupaggregationsEnabled branch
    records (P := fun clause members => ∃ current : List RecordPtr, current.Perm records ∧
      members = runs (clauseAccepts GrouperFuncs.generated clause)
        (libc.qsortR.run (qsortComp GrouperFuncs.generated clause) current))
    (fun _ _ current perm => ⟨current, perm, rfl⟩) given result success
  exact ⟨blocks, same, each⟩

/-- Permuting the leading equalities of clauses does not change, clause by clause, the
partition of the filtered records. -/
theorem grouper_reordered (given : branch.grouperClauseset ≠ [])
    (reordered : List.Forall₂ (Reordered records) branch.grouperClauseset branch'.grouperClauseset)
    (result result' : GrouperResult)
    (success : grouper libc GrouperFuncs.generated io groupaggregationsEnabled branch
      (FilterResult.of records) = .ok result)
    (success' : grouper libc GrouperFuncs.generated io groupaggregationsEnabled branch'
      (FilterResult.of records) = .ok result') :
    ∃ blocks blocks' : List (List Group),
      result.groupset = blocks.flatten ∧ result'.groupset = blocks'.flatten ∧
      blocks.length = branch.grouperClauseset.length ∧
      (∀ groups ∈ blocks ++ blocks', (groups.flatMap Group.members).Perm records) ∧
      List.Forall₂ (fun groups groups' => memberSets groups = memberSets groups') blocks blocks' := by
  have given' : branch'.grouperClauseset ≠ [] := by
    rw [← List.length_pos_iff, ← reordered.length_eq, List.length_pos_iff]
    exact given
  obtain ⟨blocks, same, made⟩ := grouper_made libc records io groupaggregationsEnabled branch
    given result success
  obtain ⟨blocks', same', made'⟩ := grouper_made libc records io groupaggregationsEnabled branch'
    given' result' success'
  refine ⟨blocks, blocks', same, same', made.length_eq.symm, ?_,
    blocks_reordered libc records _ _ reordered blocks blocks' made made'⟩
  intro groups member
  rcases List.mem_append.mp member with inside | inside
  · obtain ⟨clause, -, from_clause⟩ := forall₂_right made groups inside
    exact from_clause.members
  · obtain ⟨clause, -, from_clause⟩ := forall₂_right made' groups inside
    exact from_clause.members

end Grouper

/-- `RULE_EQ` with delta 0 on one byte. -/
def GrouperTerm.sameByte (offset : Nat) : GrouperTerm := ⟨offset, offset, 0#64, .eq, .w8, .w8, .rel⟩

theorem sameByte_isEquality (offset : Nat) : (GrouperTerm.sameByte offset).IsEquality :=
  ⟨rfl, .inl rfl, rfl, rfl⟩

theorem nextByte_isSelf : GrouperTerm.nextByte.IsSelf := ⟨rfl, rfl, rfl⟩

/-- Three records that differ from each other in their first or in their second byte. -/
def RecordPtr.corner : List RecordPtr :=
  [⟨0, fun index => if index = 0 then 5#8 else 0#8⟩,
    ⟨1, fun index => if index = 0 then 5#8 else 1#8⟩,
    ⟨2, fun index => if index = 0 then 6#8 else 0#8⟩]

theorem corner_reordered : Reordered RecordPtr.corner
    [.sameByte 0, .sameByte 1, .nextByte] [.sameByte 1, .sameByte 0, .nextByte] where
  leading := ⟨[.sameByte 0, .sameByte 1], [.sameByte 1, .sameByte 0], [.nextByte], rfl, rfl,
    List.Perm.swap _ _ _, by simp [sameByte_isEquality], by simp [nextByte_isSelf]⟩
  twins := by
    have alone : ∀ a ∈ RecordPtr.corner, ¬ 1 < RecordPtr.corner.countP fun b =>
        keyTuple [.sameByte 0, .sameByte 1, .nextByte] b =
          keyTuple [.sameByte 0, .sameByte 1, .nextByte] a := by
      simp only [RecordPtr.corner, List.forall_mem_cons]
      decide
    exact fun a member twice => absurd twice (alone a member)

theorem grouper_reordered_corner :
    ∃ result result' blocks blocks',
      grouper Libc.insertion GrouperFuncs.generated IoHandler.empty false
        (Branch.byClause [.sameByte 0, .sameByte 1, .nextByte])
        (FilterResult.of RecordPtr.corner) = .ok result ∧
      grouper Libc.insertion GrouperFuncs.generated IoHandler.empty false
        (Branch.byClause [.sameByte 1, .sameByte 0, .nextByte])
        (FilterResult.of RecordPtr.corner) = .ok result' ∧
      result.groupset = List.flatten blocks ∧ result'.groupset = List.flatten blocks' ∧
      List.Forall₂ (fun groups groups' => memberSets groups = memberSets groups')
        blocks blocks' := by
  obtain ⟨result, run⟩ := byClause_run [.sameByte 0, .sameByte 1, .nextByte] RecordPtr.corner
    (by decide)
  obtain ⟨result', run'⟩ := byClause_run [.sameByte 1, .sameByte 0, .nextByte] RecordPtr.corner
    (by decide)
  obtain ⟨blocks, blocks', same, same', -, -, partitions⟩ := grouper_reordered Libc.insertion
    RecordPtr.corner IoHandler.empty false _ _ (List.cons_ne_nil _ _)
    (.cons corner_reordered .nil) result result' run run'
  exact ⟨result, result', blocks, blocks', run, run', same, same', partitions⟩

/-- The groups of the three records by a clause, as lists of their indices. -/
def cornerGroups (clause : List GrouperTerm) : List (List Nat) :=
  (runs (clauseAccepts GrouperFuncs.generated clause)
    (Libc.insertion.qsortR.run (qsortComp GrouperFuncs.generated clause) RecordPtr.corner)).map
      (List.map RecordPtr.index)

/-- Sorted by the second byte first, two records that differ by the delta in the first
are neighbours; sorted by the first byte first, they are not. -/
theorem grouper_order_matters :
    ¬ ∀ (libc : Libc) (io : IoHandler) (clause clause' : List GrouperTerm)
      (records : List RecordPtr) (result result' : GrouperResult), clause.Perm clause' →
      (∀ term ∈ clause, term.IsSelf) →
      grouper libc GrouperFuncs.generated io false (Branch.byClause clause)
        (FilterResult.of records) = .ok result →
      grouper libc GrouperFuncs.generated io false (Branch.byClause clause')
        (FilterResult.of records) = .ok result' →
      memberSets result.groupset = memberSets result'.groupset := by
  intro orderFree
  obtain ⟨result, run⟩ := byClause_run [.sameByte 1, .nextByte] RecordPtr.corner (by decide)
  obtain ⟨result', run'⟩ := byClause_run [.nextByte, .sameByte 1] RecordPtr.corner (by decide)
  have self : ∀ term ∈ [GrouperTerm.sameByte 1, .nextByte], term.IsSelf := by
    simp [nextByte_isSelf, (sameByte_isEquality 1).isSelf]
  have same := orderFree Libc.insertion IoHandler.empty _ _ RecordPtr.corner result result'
    (List.Perm.swap _ _ []) self run run'
  have groups : cornerGroups [.sameByte 1, .nextByte] = [[0, 2], [1]] := by decide
  have groups' : cornerGroups [.nextByte, .sameByte 1] = [[0], [1], [2]] := by decide
  rw [cornerGroups, ← byClause_members _ _ result run] at groups
  rw [cornerGroups, ← byClause_members _ _ result' run'] at groups'
  have pair : [0, 2] ∈ (result.groupset.map Group.members).map (List.map RecordPtr.index) := by
    simp [groups]
  obtain ⟨members, inMembers, indices⟩ := List.mem_map.mp pair
  obtain ⟨group, inGroups, rfl⟩ := List.mem_map.mp inMembers
  have set : {item | item ∈ group.members} ∈ memberSets result'.groupset := by
    rw [← same]
    exact ⟨group, inGroups, rfl⟩
  obtain ⟨group', inGroups', agree⟩ := set
  have single : group'.members.map RecordPtr.index ∈ [[0], [1], [2]] := by
    rw [← groups']
    exact List.mem_map_of_mem (List.mem_map_of_mem inGroups')
  have moved : ∀ index ∈ [0, 2], index ∈ group'.members.map RecordPtr.index := by
    intro index member
    rw [← indices] at member
    obtain ⟨item, inside, rfl⟩ := List.mem_map.mp member
    exact List.mem_map_of_mem ((Set.ext_iff.mp agree item).mp inside)
  have zero := moved 0 (by simp)
  have two := moved 2 (by simp)
  simp only [List.mem_cons, List.not_mem_nil, or_false] at single
  rcases single with only | only | only <;> rw [only] at zero two <;> simp at zero two

end Nfql
