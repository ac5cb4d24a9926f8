import Nfql.GrouperStage

set_option autoImplicit false

/- Grouping partitions the filtered records, once for each clause. -/
namespace Nfql

open GreedyRuns

section Blocks

variable {α β : Type} {R : α → β → Prop}

/-- A list related to a concatenation is itself one, block by block. -/
theorem forall₂_flatten (blocks : List (List α)) (items : List β)
    (related : List.Forall₂ R blocks.flatten items) :
    ∃ parts, items = parts.flatten ∧ List.Forall₂ (List.Forall₂ R) blocks parts := by
  induction blocks generalizing items with
  | nil =>
      rw [List.flatten_nil, List.forall₂_nil_left_iff] at related
      exact ⟨[], related, List.Forall₂.nil⟩
  | cons block rest ih =>
      rw [List.flatten_cons] at related
      have first := List.forall₂_take block.length related
      have later := List.forall₂_drop block.length related
      rw [List.take_left] at first
      rw [List.drop_left] at later
      obtain ⟨parts, same, others⟩ := ih _ later
      refine ⟨items.take block.length :: parts, ?_, List.Forall₂.cons first others⟩
      rw [List.flatten_cons, ← same, List.take_append_drop]

theorem forall₂_right {left : List α} {right : List β} (related : List.Forall₂ R left right)
    (b : β) (member : b ∈ right) : ∃ a ∈ left, R a b := by
  induction related with
  | nil => cases member
  | cons head _ ih =>
      rcases List.mem_cons.mp member with rfl | member
      · exact ⟨_, by simp, head⟩
      · obtain ⟨a, inside, holds⟩ := ih member
        exact ⟨a, by simp [inside], holds⟩

theorem forall₂_left {left : List α} {right : List β} (related : List.Forall₂ R left right)
    (a : α) (member : a ∈ left) : ∃ b ∈ right, R a b := by
  induction related with
  | nil => cases member
  | cons head _ ih =>
      rcases List.mem_cons.mp member with rfl | member
      · exact ⟨_, by simp, head⟩
      · obtain ⟨b, inside, holds⟩ := ih member
        exact ⟨b, by simp [inside], holds⟩

end Blocks

section Partition

variable (libc : Libc) (funcs : GrouperFuncs) (io : IoHandler) (groupaggregationsEnabled : Bool)
  (branch : Branch) (records : List RecordPtr)

theorem cooked_members (members : List (List RecordPtr)) (groups : List Group)
    (cooked : List.Forall₂ (Cooked libc io groupaggregationsEnabled branch) members groups) :
    groups.map Group.members = members := by
  induction cooked with
  | nil => rfl
  | cons head _ ih => rw [List.map_cons, ih, head.members]

/-- A result of the grouper holds one block of groups for each clause, cooked from
the runs of that clause. -/
theorem grouper_blocks (given : branch.grouperClauseset ≠ []) (result : GrouperResult)
    (success : grouper libc funcs io groupaggregationsEnabled branch (FilterResult.of records) =
      .ok result) :
    ∃ blocks : List (List Group), result = ⟨blocks.flatten.length, blocks.flatten⟩ ∧
      List.Forall₂ (List.Forall₂ (Cooked libc io groupaggregationsEnabled branch))
        (clauseRuns libc funcs branch.grouperClauseset records) blocks := by
  obtain ⟨whole, cooked⟩ := grouper_cooked libc funcs io groupaggregationsEnabled branch records
    result success
  rw [groupRuns_clauses libc funcs branch records given] at cooked
  obtain ⟨blocks, same, related⟩ := forall₂_flatten _ _ cooked
  rw [same] at whole
  exact ⟨blocks, whole, related⟩

private theorem blocks_eachClause {P : List GrouperTerm → List (List RecordPtr) → Prop}
    (clauses : List (List GrouperTerm)) (current : List RecordPtr) (perm : current.Perm records)
    (each : ∀ clause ∈ clauses, ∀ current, current.Perm records →
      P clause (runs (clauseAccepts funcs clause)
        (libc.qsortR.run (qsortComp funcs clause) current)))
    (blocks : List (List Group))
    (cooked : List.Forall₂ (List.Forall₂ (Cooked libc io groupaggregationsEnabled branch))
      (clauseRuns libc funcs clauses current) blocks) :
    List.Forall₂ (fun clause groups => P clause (groups.map Group.members)) clauses blocks := by
  induction clauses generalizing current blocks with
  | nil =>
      rw [List.forall₂_nil_left_iff.mp cooked]
      exact List.Forall₂.nil
  | cons clause rest ih =>
      have sorted := (libc.qsortR.perm (qsortComp funcs clause) current).trans perm
      rw [clauseRuns, sortings, List.zipWith_cons_cons, ← clauseRuns] at cooked
      obtain ⟨block, others, first, later, rfl⟩ := List.forall₂_cons_left_iff.mp cooked
      refine List.Forall₂.cons ?_ (ih _ sorted ?_ others later)
      · rw [cooked_members libc io groupaggregationsEnabled branch _ _ first]
        exact each clause (by simp) current perm
      · intro other member
        exact each other (by simp [member])

/-- What holds of the runs of each clause, in whatever order the clauses before it
left the records, holds of the block of groups made for it. -/
theorem grouper_eachClause {P : List GrouperTerm → List (List RecordPtr) → Prop}
    (each : ∀ clause ∈ branch.grouperClauseset, ∀ current, current.Perm records →
      P clause (runs (clauseAccepts funcs clause)
        (libc.qsortR.run (qsortComp funcs clause) current)))
    (given : branch.grouperClauseset ≠ []) (result : GrouperResult)
    (success : grouper libc funcs io groupaggregationsEnabled branch (FilterResult.of records) =
      .ok result) :
    ∃ blocks : List (List Group), result.groupset = blocks.flatten ∧
      List.Forall₂ (fun clause groups => P clause (groups.map Group.members))
        branch.grouperClauseset blocks := by
  obtain ⟨blocks, rfl, cooked⟩ := grouper_blocks libc funcs io groupaggregationsEnabled branch
    records given result success
  exact ⟨blocks, rfl, blocks_eachClause libc funcs io groupaggregationsEnabled branch records _
    records (List.Perm.refl _) each blocks cooked⟩

/-- No record is lost or duplicated: the groups cut the records, in the order in
which they are sorted for each clause, into non-empty pieces. -/
structure Partitions (result : GrouperResult) : Prop where
  numGroups : result.numGroups = result.groupset.length
  nonempty : ∀ group ∈ result.groupset, group.members ≠ []
  empty : records = [] → result.groupset = []
  single : branch.grouperClauseset = [] → records ≠ [] →
    result.groupset.map Group.members = [records]
  perClause : branch.grouperClauseset ≠ [] → ∃ blocks : List (List Group),
    result.groupset = blocks.flatten ∧
      blocks.map (fun block => (block.map Group.members).flatten) =
        sortings libc funcs branch.grouperClauseset records
  overall : branch.grouperClauseset ≠ [] → (result.groupset.flatMap Group.members).Perm
    (List.replicate branch.grouperClauseset.length records).flatten

private theorem sortings_flatten (clauses : List (List GrouperTerm)) (current : List RecordPtr)
    (same : current.Perm records) :
    (sortings libc funcs clauses current).flatten.Perm
      (List.replicate clauses.length records).flatten := by
  induction clauses generalizing current with
  | nil => exact List.Perm.refl _
  | cons clause rest ih =>
      have perm := (libc.qsortR.perm (qsortComp funcs clause) current).trans same
      rw [sortings, List.flatten_cons, List.length_cons, List.replicate_succ, List.flatten_cons]
      exact perm.append (ih _ perm)

private theorem cooked_blocks_members (runs : List (List (List RecordPtr)))
    (blocks : List (List Group))
    (cooked : List.Forall₂ (List.Forall₂ (Cooked libc io groupaggregationsEnabled branch))
      runs blocks) :
    blocks.map (fun block => (block.map Group.members).flatten) = runs.map List.flatten := by
  induction cooked with
  | nil => rfl
  | cons head _ ih =>
      rw [List.map_cons, List.map_cons, ih,
        cooked_members libc io groupaggregationsEnabled branch _ _ head]

theorem grouper_partition (result : GrouperResult)
    (success : grouper libc funcs io groupaggregationsEnabled branch (FilterResult.of records) =
      .ok result) : Partitions libc funcs branch records result := by
  obtain ⟨whole, cooked⟩ := grouper_cooked libc funcs io groupaggregationsEnabled branch records
    result success
  have members := cooked_members libc io groupaggregationsEnabled branch _ _ cooked
  have blocks : branch.grouperClauseset ≠ [] → ∃ blocks : List (List Group),
      result.groupset = blocks.flatten ∧
        blocks.map (fun block => (block.map Group.members).flatten) =
          sortings libc funcs branch.grouperClauseset records := by
    intro given
    obtain ⟨blocks, rfl, related⟩ := grouper_blocks libc funcs io groupaggregationsEnabled branch
      records given result success
    refine ⟨blocks, rfl, ?_⟩
    rw [cooked_blocks_members libc io groupaggregationsEnabled branch _ _ related,
      clauseRuns_flatten]
  refine ⟨congrArg GrouperResult.numGroups whole, ?_, ?_, ?_, blocks, ?_⟩
  · intro group member
    apply groupRuns_nonempty libc funcs branch records
    rw [← members]
    exact List.mem_map_of_mem member
  · rintro rfl
    rw [groupRuns_nil] at cooked
    exact List.forall₂_nil_left_iff.mp cooked
  · intro none nonempty
    rw [members, groupRuns_single libc funcs branch records none, runs_all _ nonempty]
  · intro given
    obtain ⟨blocks, same, flat⟩ := blocks given
    have spread : blocks.flatten.flatMap Group.members =
        (blocks.map fun block => (block.map Group.members).flatten).flatten := by
      simp only [List.flatMap_def, List.map_flatten, List.flatten_flatten, List.map_map,
        Function.comp_def]
    rw [same, spread, flat]
    exact sortings_flatten libc funcs records _ records (List.Perm.refl _)

theorem clauseRuns_length_le (clauses : List (List GrouperTerm)) (current : List RecordPtr)
    (same : current.Perm records) :
    (clauseRuns libc funcs clauses current).flatten.length ≤ clauses.length * records.length := by
  induction clauses generalizing current with
  | nil => exact Nat.zero_le _
  | cons clause rest ih =>
      have perm := (libc.qsortR.perm (qsortComp funcs clause) current).trans same
      have now := runs_length_le (clauseAccepts funcs clause)
        (libc.qsortR.run (qsortComp funcs clause) current)
      have later := ih _ perm
      rw [perm.length_eq] at now
      rw [clauseRuns, sortings, List.zipWith_cons_cons, List.flatten_cons, List.length_append,
        ← clauseRuns, List.length_cons, Nat.succ_mul]
      omega

/-- A bound on the number of groups: the number of records for each clause. -/
theorem groupRuns_count_le : (branch.groupRuns libc funcs records).length ≤
    max branch.grouperClauseset.length 1 * records.length := by
  by_cases none : branch.grouperClauseset = []
  · rw [groupRuns_single libc funcs branch records none, none, List.length_nil, Nat.zero_max,
      Nat.one_mul]
    exact runs_length_le _ records
  · rw [groupRuns_clauses libc funcs branch records none]
    refine (clauseRuns_length_le libc funcs records _ records (List.Perm.refl _)).trans ?_
    exact Nat.mul_le_mul_right _ (Nat.le_max_left _ _)

/-- A bound on the records and clauses that keeps every count in its type. -/
theorem feasible_of_bounds
    (count : branch.grouperClauseset.length * records.length < 2 ^ 32)
    (inside : records.length ≤ intMax) :
    branch.Feasible libc funcs groupaggregationsEnabled records where
  numGroups := by
    have bound := groupRuns_count_le libc funcs branch records
    have few : records.length < 2 ^ 32 := by
      rw [intMax] at inside
      omega
    rcases Nat.le_total branch.grouperClauseset.length 1 with one | more
    · rw [Nat.max_eq_right one, Nat.one_mul] at bound
      omega
    · rw [Nat.max_eq_left more] at bound
      omega
  inRange run member _ _ := (groupRuns_length_le libc funcs branch records run member).trans inside
  single _ := inside

/-- A single clause never makes too many groups. -/
theorem singleClause_feasible (clause : List GrouperTerm) (only : branch.grouperClauseset = [clause])
    (count : records.length < 2 ^ 32)
    (inside : groupaggregationsEnabled = true → records.length ≤ intMax) :
    branch.Feasible libc funcs groupaggregationsEnabled records := by
  have bound := groupRuns_count_le libc funcs branch records
  rw [only, List.length_singleton, Nat.max_self, Nat.one_mul] at bound
  refine ⟨by omega, ?_, by simp [only]⟩
  intro run member enabled _
  exact (groupRuns_length_le libc _ branch records run member).trans (inside enabled)

/-- Grouping conserves the filtered records whenever it returns, whatever the
comparators answer; it returns exactly if no count outgrows its type, and no
failure reads the array behind its NULL. -/
theorem grouper_conserves :
    (∀ result, grouper libc funcs io groupaggregationsEnabled branch (FilterResult.of records) =
        .ok result → Partitions libc funcs branch records result) ∧
      (∀ sorted ∈ sortings libc funcs branch.grouperClauseset records, sorted.Perm records) ∧
      ((∃ result, grouper libc funcs io groupaggregationsEnabled branch
          (FilterResult.of records) = .ok result) ↔
        branch.Feasible libc funcs groupaggregationsEnabled records) ∧
      (branch.grouperClauseset.length * records.length < 2 ^ 32 → records.length ≤ intMax →
        branch.Feasible libc funcs groupaggregationsEnabled records) ∧
      ∀ fault, grouper libc funcs io groupaggregationsEnabled branch (FilterResult.of records) =
        .error fault → fault = .errExit "realloc" ∨ fault = .intOverflow := by
  refine ⟨?_, sortings_perm libc funcs _ records, ⟨?_, ?_⟩, ?_, ?_⟩
  · exact grouper_partition libc funcs io groupaggregationsEnabled branch records
  · rintro ⟨result, success⟩
    exact grouper_feasible libc funcs io groupaggregationsEnabled branch records result success
  · intro feasible
    obtain ⟨groups, run, -⟩ :=
      grouper_ok libc funcs io groupaggregationsEnabled branch records feasible
    exact ⟨_, run⟩
  · exact feasible_of_bounds libc funcs groupaggregationsEnabled branch records
  · exact grouper_fault libc funcs io groupaggregationsEnabled branch records

end Partition

/-- Without clauses the loop over 2^31 records overflows its counter. -/
theorem grouper_loses :
    ¬ ∀ (libc : Libc) (funcs : GrouperFuncs) (io : IoHandler) (branch : Branch)
      (records : List RecordPtr), records.length < 2 ^ 32 →
      ∃ result, grouper libc funcs io false branch (FilterResult.of records) = .ok result ∧
        Partitions libc funcs branch records result := by
  intro conserves
  let records : List RecordPtr := List.replicate (2 ^ 31) ⟨0, fun _ => 0#8⟩
  have length : records.length = 2 ^ 31 := List.length_replicate
  obtain ⟨result, run, -⟩ := conserves Libc.insertion GrouperFuncs.generated IoHandler.empty
    Branch.unfiltered records (by omega)
  rw [grouper_overflow Libc.insertion _ _ false Branch.unfiltered records rfl
    (by rw [length]; decide)] at run
  cases run

end Nfql
