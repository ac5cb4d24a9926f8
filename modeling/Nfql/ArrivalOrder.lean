import Nfql.Engine
import Nfql.GroupOrder
import Nfql.Outcomes

set_option autoImplicit false

/- Queries whose result does not depend on the order in which records arrive. -/
namespace Nfql

open GreedyRuns Outcomes

/-- The fields whose value in a group record all members determine. -/
def Branch.resultFields (branch : Branch) (clause : List GrouperTerm) : List Field :=
  clause.map GrouperTerm.key ++ branch.aggrClauseTermset.map AggrTerm.field

/-- A branch with one clause of keys, whose aggregations commute and leave all named
fields and each other alone, and whose group filter looks at nothing else. -/
structure Branch.OrderFree (branch : Branch) (clause : List GrouperTerm) : Prop where
  single : branch.grouperClauseset = [clause]
  keys : ∀ term ∈ clause, term.IsKey
  commutes : ∀ term ∈ branch.aggrClauseTermset, term.op.Commutes
  unnamed : ∀ term ∈ branch.aggrClauseTermset, ∀ field ∈ branch.namedFields,
    term.field.Apart field
  apart : branch.aggrClauseTermset.Pairwise fun term other => term.field.Apart other.field
  groupfilter : ∀ terms ∈ branch.groupfilterClauseset, ∀ term ∈ terms,
    Field.mk term.field term.fieldType ∈ branch.resultFields clause

/-- What two groups of two runs have in common. -/
structure SameGroup (branch : Branch) (clause : List GrouperTerm) (group group' : Group) :
    Prop where
  members : SameRecords group.members group'.members
  fields : ∀ field ∈ branch.resultFields clause,
    field.read group.record = field.read group'.record
  startTs : group.aggrResult.aggrRecord.startTsMsec = group'.aggrResult.aggrRecord.startTsMsec
  endTs : group.aggrResult.aggrRecord.endTsMsec = group'.aggrResult.aggrRecord.endTsMsec
  verdict : branch.satisfied group = branch.satisfied group'

/-- The members of two groups in the making: one key, and the same records. -/
structure SameClass (clause : List GrouperTerm) (members members' : List RecordPtr) : Prop where
  nonempty : members ≠ []
  shared : ∀ a ∈ members, ∀ b ∈ members, keyTuple clause a = keyTuple clause b
  records : SameRecords members members'

section Fields

variable (branch : Branch) (clause : List GrouperTerm) (orderFree : branch.OrderFree clause)

include orderFree

theorem OrderFree_key_named (term : GrouperTerm) (member : term ∈ clause) :
    term.key ∈ branch.namedFields := by
  have isKey := orderFree.keys term member
  have fields : term.fields = [term.key] := by
    rw [GrouperTerm.fields, if_neg (not_not.mpr isKey.offset), GrouperTerm.key, isKey.width]
  apply List.mem_append_right
  rw [Branch.grouperFields, orderFree.single, List.flatMap_singleton]
  exact List.mem_flatMap.mpr ⟨term, member, by rw [fields]; exact List.mem_singleton_self _⟩

/-- A key field of the group record is that of every member. -/
theorem groupRecord_key (libc : Libc) (groupaggregationsEnabled : Bool)
    (members : List RecordPtr)
    (shared : ∀ a ∈ members, ∀ b ∈ members, keyTuple clause a = keyTuple clause b)
    (term : GrouperTerm) (member : term ∈ clause) (item : RecordPtr) (inside : item ∈ members) :
    term.key.read (branch.groupRecord libc groupaggregationsEnabled members) =
      term.key.read item.record := by
  have named := OrderFree_key_named branch clause orderFree term member
  have common : term.key.read (branch.commonRecord members) = term.key.read item.record := by
    obtain ⟨first, rest, rfl⟩ := List.exists_cons_of_ne_nil (List.ne_nil_of_mem inside)
    show term.key.read (copyFields first.record _ branch.namedFields) = _
    rw [copyFields_read _ _ _ _ named]
    exact (keyTuple_eq_iff clause first item).mp (shared first (by simp) item inside) term member
  unfold Branch.groupRecord
  split
  · rw [aggregations_apart libc branch members term.key _ _
      fun other aggregated => orderFree.unnamed other aggregated term.key named, common]
  · exact common

/-- An aggregated field of the group record does not depend on the members' order. -/
theorem groupRecord_aggregated (libc libc' : Libc) (groupaggregationsEnabled : Bool)
    (members members' : List RecordPtr) (same : SameRecords members members')
    (term : AggrTerm) (member : term ∈ branch.aggrClauseTermset) :
    term.field.read (branch.groupRecord libc groupaggregationsEnabled members) =
      term.field.read (branch.groupRecord libc' groupaggregationsEnabled members') := by
  cases groupaggregationsEnabled with
  | false =>
      show term.field.read (branch.commonRecord members) =
        term.field.read (branch.commonRecord members')
      rw [commonRecord_apart branch _ term.field (orderFree.unnamed term member),
        commonRecord_apart branch _ term.field (orderFree.unnamed term member)]
  | true =>
      show term.field.read (branch.aggrClauseTermset.foldl _ _) =
        term.field.read (branch.aggrClauseTermset.foldl _ _)
      obtain ⟨before, after, whole⟩ := List.append_of_mem member
      have apart := orderFree.apart
      rw [whole, List.pairwise_append] at apart
      have later : ∀ other ∈ after, other.field.Apart term.field := fun other inside =>
        ((List.pairwise_cons.mp apart.2.1).1 other inside).symm
      have commutes := orderFree.commutes term member
      have value := aggrValue_perm libc libc' term.op commutes _ _
        (fieldValues_perm term.fieldType term.fieldOffset members members' same)
        (ifIgnoreAggrTerm branch term.fieldOffset)
      obtain ⟨written, found⟩ := aggrValue_commutes libc term.op commutes
        (fieldValues term.fieldType members term.fieldOffset)
        (ifIgnoreAggrTerm branch term.fieldOffset)
      rw [Field.read_eq_toNat, whole,
        aggregations_read libc branch members before after term _ written found later,
        aggregations_read libc' branch members' before after term _ written (value ▸ found) later]

/-- The verdict of the group filter depends on the result fields alone. -/
theorem satisfied_congr (group group' : Group)
    (fields : ∀ field ∈ branch.resultFields clause,
      field.read group.record = field.read group'.record) :
    branch.satisfied group = branch.satisfied group' := by
  have terms : ∀ terms ∈ branch.groupfilterClauseset, ∀ term ∈ terms,
      term.func group = term.func group' := by
    intro terms inQuery term member
    have value := fields _ (orderFree.groupfilter terms inQuery term member)
    unfold Field.read at value
    unfold GroupfilterTerm.func
    rw [value]
  have passes : branch.passes group = true ↔ branch.passes group' = true := by
    unfold Branch.passes
    rw [Clauses.dnf_iff, Clauses.dnf_iff]
    refine exists_congr fun clause => and_congr_right fun inQuery => ?_
    exact forall₂_congr fun term member => by rw [terms clause inQuery term member]
  rw [satisfied_eq_passes, satisfied_eq_passes]
  exact Bool.eq_iff_iff.mpr passes

end Fields

section Grouper

variable (libc libc' : Libc) (io : IoHandler) (groupaggregationsEnabled : Bool) (branch : Branch)
  (clause : List GrouperTerm) (orderFree : branch.OrderFree clause)

include orderFree

theorem groupRuns_keyed (libc : Libc) (records : List RecordPtr) :
    branch.groupRuns libc GrouperFuncs.generated records =
      runs (clauseAccepts GrouperFuncs.generated clause)
        (libc.qsortR.run (qsortComp GrouperFuncs.generated clause) records) := by
  rw [groupRuns_clauses libc _ branch records (by rw [orderFree.single]; simp), orderFree.single,
    clauseRuns, sortings, List.zipWith_cons_cons, List.flatten_cons]
  exact List.append_nil _

/-- The i-th runs of the same records, each sorted in its own way, are the same class. -/
theorem groupRuns_perm (records records' : List RecordPtr) (same : SameRecords records records') :
    List.Forall₂ (SameClass clause) (branch.groupRuns libc GrouperFuncs.generated records)
      (branch.groupRuns libc' GrouperFuncs.generated records') := by
  rw [groupRuns_keyed branch clause orderFree, groupRuns_keyed branch clause orderFree]
  have classes := runs_keyClasses libc clause orderFree.keys records
  have classes' := runs_keyClasses libc' clause orderFree.keys records'
  let key : Record → List Nat := fun record => clause.map fun term => (term.key.read record).toNat
  have images : Classes key (List.map (List.map RecordPtr.record) _) := Classes.map classes
  have images' : Classes key (List.map (List.map RecordPtr.record) _) := Classes.map classes'
  have perm := images.perm images' (by
    rw [← List.map_flatten, ← List.map_flatten, runs_flatten, runs_flatten]
    exact ((libc.qsortR.perm _ records).map _).trans
      (same.trans ((libc'.qsortR.perm _ records').map _).symm))
  rw [List.forall₂_map_left_iff, List.forall₂_map_right_iff] at perm
  have keyed := (List.forall₂_and_left _ _).mpr ⟨fun run member =>
    And.intro (classes.nonempty run member) (classes.constant run member), perm⟩
  exact keyed.imp fun _ _ related => ⟨related.1.1, related.1.2, related.2⟩

/-- The groups made of one class of records, in whatever order, are the same. -/
theorem cooked_same (members members' : List RecordPtr)
    (sameClass : SameClass clause members members') (group group' : Group)
    (cooked : Cooked libc io groupaggregationsEnabled branch members group)
    (cooked' : Cooked libc' io groupaggregationsEnabled branch members' group') :
    SameGroup branch clause group group' := by
  have fields : ∀ field ∈ branch.resultFields clause,
      field.read group.record = field.read group'.record := by
    intro field member
    rw [cooked.record, cooked'.record]
    rcases List.mem_append.mp member with key | aggregated
    · obtain ⟨term, inClause, rfl⟩ := List.mem_map.mp key
      obtain ⟨item, inside⟩ := List.exists_mem_of_ne_nil members sameClass.nonempty
      obtain ⟨item', inside', same⟩ := sameClass.records.mem item inside
      have shared' : ∀ a ∈ members', ∀ b ∈ members', keyTuple clause a = keyTuple clause b := by
        intro a memberA b memberB
        obtain ⟨left, insideLeft, sameLeft⟩ := sameClass.records.symm.mem a memberA
        obtain ⟨right, insideRight, sameRight⟩ := sameClass.records.symm.mem b memberB
        have keys := sameClass.shared left insideLeft right insideRight
        unfold keyTuple at keys ⊢
        rwa [sameLeft, sameRight] at keys
      rw [groupRecord_key branch clause orderFree libc groupaggregationsEnabled members
          sameClass.shared term inClause item inside,
        groupRecord_key branch clause orderFree libc' groupaggregationsEnabled members' shared' term
          inClause item' inside', same]
    · obtain ⟨term, inBranch, rfl⟩ := List.mem_map.mp aggregated
      exact groupRecord_aggregated branch clause orderFree libc libc' groupaggregationsEnabled
        members members' sameClass.records term inBranch
  have span := Span.ofMembers_perm io members members' sameClass.nonempty sameClass.records
  refine ⟨?_, fields, ?_, ?_, satisfied_congr branch clause orderFree group group' fields⟩
  · rw [cooked.members, cooked'.members]
    exact sameClass.records
  · rw [cooked.startTs, cooked'.startTs, span]
  · rw [cooked.endTs, cooked'.endTs, span]

theorem cookGroup_alike (members members' : List RecordPtr)
    (sameClass : SameClass clause members members') :
    Alike (SameGroup branch clause)
      (cookGroup libc groupaggregationsEnabled branch members (Span.ofMembers io members))
      (cookGroup libc' groupaggregationsEnabled branch members' (Span.ofMembers io members')) := by
  have length := sameClass.records.length_eq
  have nonempty' : members' ≠ [] := by
    apply List.ne_nil_of_length_pos
    rw [← length]
    exact List.length_pos_iff.mpr sameClass.nonempty
  by_cases inside : branch.InRange groupaggregationsEnabled members.length
  · obtain ⟨group, run, cooked⟩ :=
      cookGroup_ok libc io groupaggregationsEnabled branch members sameClass.nonempty inside
    rw [length] at inside
    obtain ⟨group', run', cooked'⟩ :=
      cookGroup_ok libc' io groupaggregationsEnabled branch members' nonempty' inside
    rw [run, run']
    exact cooked_same libc libc' io groupaggregationsEnabled branch clause orderFree members members'
      sameClass group group' cooked cooked'
  · rw [cookGroup_error libc groupaggregationsEnabled branch members sameClass.nonempty _ inside,
      cookGroup_error libc' groupaggregationsEnabled branch members' nonempty' _
        (by rwa [← length])]
    rfl

/-- Two group arrays of the same length whose i-th groups are the same. -/
def SameGroups (branch : Branch) (clause : List GrouperTerm) (count count' : Nat)
    (groups groups' : List Group) : Prop :=
  count = count' ∧ List.Forall₂ (SameGroup branch clause) groups groups'

/-- The grouper makes the same groups out of the same records. -/
theorem grouper_alike (records records' : List RecordPtr) (same : SameRecords records records') :
    Alike (fun gresult gresult' => SameGroups branch clause gresult.numGroups gresult'.numGroups
        gresult.groupset gresult'.groupset)
      (grouper libc GrouperFuncs.generated io groupaggregationsEnabled branch
        (FilterResult.of records))
      (grouper libc' GrouperFuncs.generated io groupaggregationsEnabled branch
        (FilterResult.of records')) := by
  have given : branch.grouperClauseset ≠ [] := by
    rw [orderFree.single]
    exact List.cons_ne_nil _ _
  rw [grouper_runs libc _ io groupaggregationsEnabled branch records fun none => absurd none given,
    grouper_runs libc' _ io groupaggregationsEnabled branch records' fun none => absurd none given]
  refine Alike.foldlM ?_ (groupRuns_perm libc libc' branch clause orderFree records records' same)
    ⟨rfl, List.Forall₂.nil⟩
  rintro gresult gresult' ⟨count, groups⟩ members members' sameClass
  unfold pushGroup
  rw [count]
  refine (Alike.refl (realloc _)).bind fun _ _ _ => ?_
  refine (cookGroup_alike libc libc' io groupaggregationsEnabled branch clause orderFree members
    members' sameClass).bind fun group group' same => ?_
  exact ⟨rfl, List.rel_append groups (List.Forall₂.cons same List.Forall₂.nil)⟩

end Grouper

section Groupfilter

variable (branch : Branch) (clause : List GrouperTerm)

/-- The group filter keeps the same groups of the same groups. -/
theorem filterGroups_alike (groups groups' : List Group)
    (same : List.Forall₂ (SameGroup branch clause) groups groups')
    (kept kept' : GroupfilterResult)
    (sameKept : SameGroups branch clause kept.numFilteredGroups kept'.numFilteredGroups
      kept.filteredGroupset kept'.filteredGroupset) :
    Alike (fun gfilterResult gfilterResult' =>
        SameGroups branch clause gfilterResult.numFilteredGroups gfilterResult'.numFilteredGroups
          gfilterResult.filteredGroupset gfilterResult'.filteredGroupset)
      (filterGroups branch groups kept) (filterGroups branch groups' kept') := by
  induction same generalizing kept kept' with
  | nil => exact sameKept
  | cons head _ ih =>
      obtain ⟨count, sets⟩ := sameKept
      unfold filterGroups
      rw [head.verdict, count]
      split
      · refine (Alike.refl (realloc _)).bind fun _ _ _ => ?_
        exact ih _ _ ⟨rfl, List.rel_append sets (List.Forall₂.cons head List.Forall₂.nil)⟩
      · exact ih _ _ ⟨count, sets⟩

theorem groupfilter_alike (gresult gresult' : GrouperResult)
    (same : SameGroups branch clause gresult.numGroups gresult'.numGroups gresult.groupset
      gresult'.groupset) :
    Alike (fun gfilterResult gfilterResult' =>
        SameGroups branch clause gfilterResult.numFilteredGroups gfilterResult'.numFilteredGroups
          gfilterResult.filteredGroupset gfilterResult'.filteredGroupset)
      (groupfilter branch gresult) (groupfilter branch gresult') := by
  obtain ⟨count, groups⟩ := same
  unfold groupfilter
  rw [count, groups.length_eq]
  have taken := List.forall₂_take gresult'.numGroups groups
  refine (filterGroups_alike branch clause _ _ taken ⟨0, []⟩ ⟨0, []⟩ ⟨rfl, List.Forall₂.nil⟩).bind
    fun gfilterResult gfilterResult' kept => ?_
  split
  · rfl
  · exact (Alike.refl (intLoop _)).bind fun _ _ _ => kept

end Groupfilter

/-- The share of one branch in a run: the pass over the trace, then its thread. -/
def branchRun (libc : Libc) (io : IoHandler) (stages : Stages) (branchset : List Branch)
    (position : Fin branchset.length) (trace : List Record) : Except Fault BranchResult := do
  let (_, filterResults) ← readTrace stages.filterEnabled io branchset trace
  branchStart libc io stages (branchset.get position) (filterResults[position.val]?.getD none)

/-- The groups and the filtered groups of two runs are the same. -/
structure SameBranchResult (branch : Branch) (clause : List GrouperTerm)
    (result result' : BranchResult) : Prop where
  grouped : ∃ gresult gresult', result.grouperResult = some gresult ∧
    result'.grouperResult = some gresult' ∧
    SameGroups branch clause gresult.numGroups gresult'.numGroups gresult.groupset gresult'.groupset
  filtered : ∃ gfilterResult gfilterResult', result.gfilterResult = some gfilterResult ∧
    result'.gfilterResult = some gfilterResult' ∧
    SameGroups branch clause gfilterResult.numFilteredGroups gfilterResult'.numFilteredGroups
      gfilterResult.filteredGroupset gfilterResult'.filteredGroupset

section Run

variable (libc libc' : Libc) (io : IoHandler) (groupaggregationsEnabled : Bool)
  (branchset : List Branch) (trace trace' : List Record) (perm : trace.Perm trace')

include perm

omit perm in
/-- What a branch at a position is handed. -/
theorem handed_at {β : Type} (position : Fin branchset.length) (handed : Branch → β) :
    (branchset.map handed)[position.val]? = some (handed (branchset.get position)) := by
  rw [List.getElem?_map, List.getElem?_eq_getElem position.isLt, Option.map_some]
  rfl

/-- A branch is handed the same records, or neither trace is filtered to the end. -/
theorem readTrace_alike : Alike (fun filtered filtered' =>
      ∀ position : Fin branchset.length, ∃ records records',
        filtered.2[position.val]? = some (some (FilterResult.of records)) ∧
        filtered'.2[position.val]? = some (some (FilterResult.of records')) ∧
        SameRecords records records')
    (readTrace true io branchset trace) (readTrace true io branchset trace') := by
  have count : ∀ branch : Branch, branch.acceptCount trace = branch.acceptCount trace' :=
    fun branch => (perm.filter branch.accepts).length_eq
  by_cases room : ∀ branch ∈ branchset, branch.acceptCount trace + 1 < 2 ^ 32
  · have run := readTrace_run io branchset trace room
    simp only [count] at room
    have run' := readTrace_run io branchset trace' room
    rw [run, run']
    intro position
    have member : branchset.get position ∈ branchset := List.get_mem _ _
    refine ⟨_, _, handed_at branchset position _, handed_at branchset position _, ?_⟩
    unfold SameRecords
    rw [pointers_records branchset trace _ _ member, pointers_records branchset trace' _ _ member]
    exact (perm.filter _).map _
  · simp only [not_forall, Nat.not_lt] at room
    obtain ⟨branch, member, full⟩ := room
    rw [readTrace_error io branchset trace ⟨branch, member, full⟩,
      readTrace_error io branchset trace' ⟨branch, member, by rwa [← count]⟩]
    rfl

/-- Two runs over one trace in two orders end alike, however ties are sorted. -/
theorem branchRun_alike (position : Fin branchset.length) (clause : List GrouperTerm)
    (orderFree : (branchset.get position).OrderFree clause) :
    Alike (SameBranchResult (branchset.get position) clause)
      (branchRun libc io (Stages.all groupaggregationsEnabled) branchset position trace)
      (branchRun libc' io (Stages.all groupaggregationsEnabled) branchset position trace') := by
  refine (readTrace_alike io branchset trace trace' perm).bind fun filtered filtered' same => ?_
  obtain ⟨records, records', found, found', sameRecords⟩ := same position
  show Alike _ (branchStart _ _ _ _ (filtered.2[position.val]?.getD none))
    (branchStart _ _ _ _ (filtered'.2[position.val]?.getD none))
  rw [found, found', Option.getD_some, Option.getD_some]
  have grouped := grouper_alike libc libc' io groupaggregationsEnabled (branchset.get position) clause
    orderFree records records' sameRecords
  unfold branchStart branchGrouper branchGroupfilter
  simp only [Stages.all, ↓reduceIte, bind_assoc, ok_bind]
  refine grouped.bind fun gresult gresult' groups => ?_
  refine (groupfilter_alike (branchset.get position) clause gresult gresult' groups).bind
    fun gfilterResult gfilterResult' kept => ?_
  exact ⟨⟨gresult, gresult', rfl, rfl, groups⟩, ⟨gfilterResult, gfilterResult', rfl, rfl, kept⟩⟩

omit perm in
/-- A run over a trace that an `int` can count succeeds. -/
theorem branchRun_ok (position : Fin branchset.length) (clause : List GrouperTerm)
    (orderFree : (branchset.get position).OrderFree clause) (short : trace.length ≤ intMax) :
    ∃ result, branchRun libc io (Stages.all groupaggregationsEnabled) branchset position trace =
      .ok result := by
  have small : intMax < 2 ^ 31 := by decide
  have member : branchset.get position ∈ branchset := List.get_mem _ _
  let records := (branchset.get position).pointers
    (savedRecords io.readGetRecordSize branchset trace)
  have length : records.length ≤ trace.length := by
    rw [pointers_length branchset trace _ _ member]
    exact Branch.acceptCount_le _ trace
  obtain ⟨groups, grouped, cooked⟩ := grouper_ok libc GrouperFuncs.generated io
    groupaggregationsEnabled (branchset.get position) records
    (singleClause_feasible libc _ groupaggregationsEnabled _ records clause orderFree.single
      (by omega) fun _ => by omega)
  have count := groupRuns_count_le libc GrouperFuncs.generated (branchset.get position) records
  rw [orderFree.single, List.length_singleton, Nat.max_self, Nat.one_mul, cooked.length_eq] at count
  have kept := groupfilter_ok (branchset.get position) groups (by omega)
  have ofBranch : (branchset.map fun branch => some (FilterResult.of
      (branch.pointers (savedRecords io.readGetRecordSize branchset trace))))[position.val]? =
      some (some (FilterResult.of records)) := handed_at branchset position _
  have filter_run : readTrace (Stages.all groupaggregationsEnabled).filterEnabled io branchset
    trace = _ := readTrace_short io branchset trace (by omega)
  rw [branchRun, filter_run, ok_bind]
  show ∃ result, branchStart _ _ _ _ (Option.getD (List.map _ _)[position.val]? none) = _
  rw [ofBranch, Option.getD_some]
  simp only [branchStart, branchGrouper, branchGroupfilter, Stages.all, ↓reduceIte, grouped,
    ok_bind, kept]
  exact ⟨_, rfl⟩

/-- Arrival order does not matter: two runs over permutations of one trace fail alike or
have the same groups with the same verdicts, and they succeed on a trace that an `int` can
count. -/
theorem arrivalOrder_irrelevant (position : Fin branchset.length) (clause : List GrouperTerm)
    (orderFree : (branchset.get position).OrderFree clause) :
    Alike (SameBranchResult (branchset.get position) clause)
        (branchRun libc io (Stages.all groupaggregationsEnabled) branchset position trace)
        (branchRun libc' io (Stages.all groupaggregationsEnabled) branchset position trace') ∧
      (trace.length ≤ intMax → ∃ result result',
        branchRun libc io (Stages.all groupaggregationsEnabled) branchset position trace =
          .ok result ∧
        branchRun libc' io (Stages.all groupaggregationsEnabled) branchset position trace' =
          .ok result' ∧
        SameBranchResult (branchset.get position) clause result result') := by
  have alike := branchRun_alike libc libc' io groupaggregationsEnabled branchset trace trace' perm
    position clause orderFree
  refine ⟨alike, fun short => ?_⟩
  obtain ⟨result, run⟩ := branchRun_ok libc io groupaggregationsEnabled branchset trace position
    clause orderFree short
  obtain ⟨result', run'⟩ := branchRun_ok libc' io groupaggregationsEnabled branchset trace'
    position clause orderFree (perm.length_eq ▸ short)
  rw [run, run'] at alike
  exact ⟨result, result', run, run', alike⟩

end Run

/-- A branch that sums up the second byte of the records with the same first byte. -/
def Branch.volumes : Branch where
  filterClauseset := [[]]
  grouperClauseset := [[⟨0, 0, 0#64, .eq, .w8, .w8, .no⟩]]
  aggrClauseTermset := [⟨1, .sum, .w8⟩]
  groupfilterClauseset := [[⟨1, 100#64, 0#64, .gt, .w8⟩]]

theorem volumes_orderFree :
    Branch.volumes.OrderFree [⟨0, 0, 0#64, .eq, .w8, .w8, .no⟩] where
  single := rfl
  keys := by
    intro term member
    rw [List.mem_singleton.mp member]
    exact ⟨rfl, rfl, rfl, rfl⟩
  commutes := by
    intro term member
    rw [List.mem_singleton.mp member]
    exact .inl rfl
  unnamed := by
    intro term member field named
    have key : field ∈ [Field.mk 0 .w8] := named
    rw [List.mem_singleton.mp member, List.mem_singleton.mp key]
    exact .inr (by decide)
  apart := List.pairwise_singleton _ _
  groupfilter := by decide

/-- Two flows from 1 of 110 octets together, and one from 2 of 9. -/
def volumeFlows : List Record :=
  [Record.ofBytes [1#8, 60#8], Record.ofBytes [2#8, 9#8], Record.ofBytes [1#8, 50#8]]

def BranchResult.filteredSizes (result : BranchResult) : Option (List Nat) :=
  result.gfilterResult.map fun kept => kept.filteredGroupset.map fun group => group.members.length

set_option maxRecDepth 100000 in
theorem arrivalOrder_volumes : ∃ result result',
    branchRun Libc.insertion (IoHandler.untimed 2) (Stages.all true) [Branch.volumes] 0
      volumeFlows = .ok result ∧
    branchRun Libc.insertion (IoHandler.untimed 2) (Stages.all true) [Branch.volumes] 0
      volumeFlows.reverse = .ok result' ∧ result.filteredSizes = some [2] ∧
    SameBranchResult Branch.volumes [⟨0, 0, 0#64, .eq, .w8, .w8, .no⟩] result result' := by
  have evaluated : (branchRun Libc.insertion (IoHandler.untimed 2) (Stages.all true)
      [Branch.volumes] 0 volumeFlows).toOption.map BranchResult.filteredSizes = some (some [2]) := by
    decide +kernel
  obtain ⟨kept, run, sizes⟩ := ok_of_toOption evaluated
  obtain ⟨result, result', run', reversed, same⟩ := (arrivalOrder_irrelevant Libc.insertion
    Libc.insertion (IoHandler.untimed 2) true [Branch.volumes] _ _
    (List.reverse_perm volumeFlows).symm 0 _ volumes_orderFree).2 (by decide)
  rw [run, Except.ok.injEq] at run'
  subst run'
  exact ⟨kept, result', run, reversed, sizes, same⟩

end Nfql
