import Mathlib.Data.List.Basic

set_option autoImplicit false

/- The two nested loops that decide a disjunction of conjunctions, leaving the
inner loop at the first failing term and the outer one at the first clause whose
inner loop ran to its end. -/
namespace Clauses

variable {τ : Type}

/-- Where `for (j = 0; j < num_terms; j++) if (!holds(termset[j])) break;` leaves `j`. -/
def stopIndex (holds : τ → Bool) : List τ → Nat
  | [] => 0
  | term :: rest => if holds term then stopIndex holds rest + 1 else 0

/-- The clause loop around it: a stopped clause continues with the next one. -/
def satisfied (holds : τ → Bool) : List (List τ) → Bool
  | [] => false
  | clause :: rest =>
      if stopIndex holds clause < clause.length then satisfied holds rest else true

/-- The rule both loops compute: some clause has all its terms true. -/
def dnf (holds : τ → Bool) (clauses : List (List τ)) : Bool :=
  clauses.any fun clause => clause.all holds

/-- The term loop stops early exactly on a clause with a false term. -/
theorem stopIndex_lt (holds : τ → Bool) (terms : List τ) :
    stopIndex holds terms < terms.length ↔ terms.all holds = false := by
  induction terms with
  | nil => simp [stopIndex]
  | cons term rest ih =>
      cases decided : holds term with
      | false => simp [stopIndex, decided]
      | true => simpa [stopIndex, decided] using ih

theorem satisfied_eq_dnf (holds : τ → Bool) (clauses : List (List τ)) :
    satisfied holds clauses = dnf holds clauses := by
  induction clauses with
  | nil => rfl
  | cons clause rest ih =>
      rw [dnf, List.any_cons, ← dnf, ← ih, satisfied]
      by_cases stopped : stopIndex holds clause < clause.length
      · rw [if_pos stopped, (stopIndex_lt holds clause).mp stopped, Bool.false_or]
      · have complete := mt (stopIndex_lt holds clause).mpr stopped
        rw [if_neg stopped, (Bool.not_eq_false _).mp complete, Bool.true_or]

theorem dnf_iff (holds : τ → Bool) (clauses : List (List τ)) :
    dnf holds clauses = true ↔ ∃ clause ∈ clauses, ∀ term ∈ clause, holds term = true := by
  simp only [dnf, List.any_eq_true, List.all_eq_true]

end Clauses
