import Nfql.QueryRoundTrip
import Nfql.QueryTemplates

set_option autoImplicit false

/- When the branches of a query are parsed independently of each other. -/
namespace Nfql

open JsonC

/-- All branches contain the same stages. -/
def SameStages (branches : List BranchRules) : Prop :=
  ∀ branch ∈ branches, ∀ other ∈ branches, branch.Continues other

/-- Any sequence of the names can be registered. -/
def QueryReader.CanRegister {σ : Type} (reader : QueryReader σ) (templ : σ)
    (names : List String) : Prop :=
  ∀ sequence : List String, sequence ⊆ names → (reader.registerAll templ sequence).isSome = true

/-- The query is parsed successfully. -/
def QueryReader.Parses {σ : Type} (reader : QueryReader σ) (templ : σ) (query : Query) : Prop :=
  ∃ result, parseJsonQuery reader (some query.json) templ = .ok result

section Perms

variable {α : Type} {R : α → α → Prop} {items : List α}

theorem pairwise_of_all (all : ∀ a ∈ items, ∀ b ∈ items, R a b) : items.Pairwise R := by
  induction items with
  | nil => exact List.Pairwise.nil
  | cons item rest ih =>
      refine List.Pairwise.cons (fun other member => ?_) (ih fun a inA b inB => ?_)
      · exact all item List.mem_cons_self other (List.mem_cons_of_mem _ member)
      · exact all a (List.mem_cons_of_mem _ inA) b (List.mem_cons_of_mem _ inB)

/-- Any two members come in either order in some permutation. -/
theorem all_of_perms (refl : ∀ a, R a a)
    (perms : ∀ permuted : List α, permuted.Perm items → permuted.Pairwise R) :
    ∀ a ∈ items, ∀ b ∈ items, R a b := by
  intro a inA b inB
  obtain ⟨before, after, rfl⟩ := List.append_of_mem inA
  have front : (before ++ a :: after).Perm (a :: (before ++ after)) := List.perm_middle
  rcases List.mem_cons.mp (front.subset inB) with rfl | later
  · exact refl b
  · exact (List.pairwise_cons.mp (perms _ front.symm)).1 b later

end Perms

section Stages

theorem BranchRules.Continues.refl (branch : BranchRules) : branch.Continues branch :=
  ⟨id, id, id, id⟩

variable {σ : Type} (reader : QueryReader σ) (templ : σ)

/-- Where all names can be registered, a query is parsed if no branch lacks a stage of an
earlier one. -/
theorem parses_iff (query : Query) (registers : reader.CanRegister templ query.names) :
    reader.Parses templ query ↔ query.branchset.Pairwise BranchRules.Continues := by
  rw [← kept_clear]
  constructor
  · rintro ⟨result, success⟩
    by_contra lost
    exact parseJsonQuery_lost reader query lost templ result success
  · intro kept
    have parsed := parse_kept reader templ query kept
    have known := registers query.names (List.Subset.refl _)
    cases registered : reader.registerAll templ query.names with
    | none =>
        rw [registered] at known
        cases known
    | some templ' =>
        rw [registered] at parsed
        exact ⟨_, parsed⟩

end Stages

section Order

/-- The length of an array is taken only where the array exists, and the success of
parsing does not depend on the order of the branches. -/
structure ParsedPerBranch (branches : List BranchRules) (merger : Option (List (List MergerRule)))
    (ungrouper : Bool) : Prop where
  lengths : ∀ (σ : Type) (reader : QueryReader σ) (templ : σ),
    parseJsonQuery reader (some (Query.mk branches merger ungrouper).json) templ ≠
      .error .nullPointer
  order : ∀ permuted : List BranchRules, permuted.Perm branches →
    ∀ (σ : Type) (reader : QueryReader σ) (templ : σ),
      reader.CanRegister templ (Query.mk branches merger ungrouper).names →
      (reader.Parses templ ⟨branches, merger, ungrouper⟩ ↔
        reader.Parses templ ⟨permuted, merger, ungrouper⟩)

variable (branches : List BranchRules) (merger : Option (List (List MergerRule)))
  (ungrouper : Bool)

theorem names_perm {permuted : List BranchRules} (perm : permuted.Perm branches) :
    (Query.mk permuted merger ungrouper).names ⊆ (Query.mk branches merger ungrouper).names := by
  unfold Query.names
  exact ((perm.flatMap_right BranchRules.names).append_right _).subset

theorem CanRegister.perm {σ : Type} {reader : QueryReader σ} {templ : σ}
    {permuted : List BranchRules} (perm : permuted.Perm branches)
    (registers : reader.CanRegister templ (Query.mk branches merger ungrouper).names) :
    reader.CanRegister templ (Query.mk permuted merger ungrouper).names :=
  fun sequence subset =>
    registers sequence (List.Subset.trans subset (names_perm branches merger ungrouper perm))

/-- Without IPFIX, parsing fails only at the length of a missing array. -/
theorem clamping_parses (query : Query)
    (lengths : parseJsonQuery QueryReader.clamping (some query.json) () ≠ .error .nullPointer) :
    QueryReader.clamping.Parses () query := by
  have judged := Preserves.parseJsonQuery (I := fun _ => True)
    (F := fun fault => fault = .nullPointer) QueryReader.clamping rfl (fun on => by cases on)
    (some query.json) () trivial
  cases run : parseJsonQuery QueryReader.clamping (some query.json) () with
  | ok result => exact ⟨result, run⟩
  | error fault =>
      rw [run] at judged
      rw [run] at lengths
      exact absurd (congrArg Except.error judged) lengths

/-- The branches of a query are parsed independently of each other exactly when all of
them contain the same stages. -/
theorem parsedPerBranch_iff : ParsedPerBranch branches merger ungrouper ↔ SameStages branches := by
  constructor
  · intro parsed
    have clamps : ∀ names, QueryReader.clamping.CanRegister () names := fun _ _ _ => rfl
    have here := clamping_parses ⟨branches, merger, ungrouper⟩ (parsed.lengths _ _ ())
    refine all_of_perms BranchRules.Continues.refl fun permuted perm => ?_
    have there := (parsed.order permuted perm _ _ () (clamps _)).mp here
    exact (parses_iff _ () ⟨permuted, merger, ungrouper⟩ (clamps _)).mp there
  · intro same
    have kept := pairwise_of_all same
    constructor
    · intro σ reader templ failed
      rw [parse_kept reader templ ⟨branches, merger, ungrouper⟩ ((kept_clear _).mpr kept)] at failed
      split at failed
      · cases failed
      · cases failed
    · intro permuted perm σ reader templ registers
      have kept' : permuted.Pairwise BranchRules.Continues :=
        pairwise_of_all fun branch inA other inB =>
          same branch (perm.subset inA) other (perm.subset inB)
      rw [parses_iff reader templ ⟨branches, merger, ungrouper⟩ registers,
        parses_iff reader templ ⟨permuted, merger, ungrouper⟩
          (CanRegister.perm branches merger ungrouper perm registers)]
      exact iff_of_true kept kept'

/-- A branch with a filter, and one without. -/
def BranchRules.filtering : BranchRules := ⟨some [], none, none⟩

def BranchRules.plain : BranchRules := ⟨none, none, none⟩

/-- After a branch with a filter, the clauses of one without are looked up. -/
theorem not_parsedPerBranch :
    ¬ ∀ (branches : List BranchRules) (merger : Option (List (List MergerRule)))
      (ungrouper : Bool), ParsedPerBranch branches merger ungrouper := by
  intro parsed
  apply (parsed [BranchRules.filtering, BranchRules.plain] none false).lengths Unit
    QueryReader.clamping ()
  rfl

end Order

end Nfql
