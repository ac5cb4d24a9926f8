import Mathlib.Data.List.Forall2

set_option autoImplicit false

/- How runs of fallible programs end: pairs of runs that end alike, and runs that
succeed with a result one asked for. -/
namespace Outcomes

variable {ε α β γ δ : Type}

section Pairs

variable {R : α → β → Prop} {S : γ → δ → Prop}

/-- The same failure, or results related to each other. -/
def Alike (R : α → β → Prop) : Except ε α → Except ε β → Prop
  | .ok a, .ok b => R a b
  | .error fault, .error fault' => fault = fault'
  | _, _ => False

theorem Alike.refl (run : Except ε α) : Alike (· = ·) run run := by
  cases run with
  | error fault => rfl
  | ok a => rfl

theorem Alike.imp {R' : α → β → Prop} {run : Except ε α} {run' : Except ε β}
    (alike : Alike R run run') (weaker : ∀ a b, R a b → R' a b) : Alike R' run run' := by
  cases run with
  | error fault =>
      cases run' with
      | error fault' => exact alike
      | ok b => exact alike.elim
  | ok a =>
      cases run' with
      | error fault' => exact alike.elim
      | ok b => exact weaker a b alike

theorem Alike.of_error {fault : ε} {run' : Except ε β} (alike : Alike R (.error fault) run') :
    run' = .error fault := by
  cases run' with
  | error fault' => exact congrArg _ (Eq.symm alike)
  | ok b => exact alike.elim

theorem Alike.of_ok {a : α} {run' : Except ε β} (alike : Alike R (.ok a) run') :
    ∃ b, run' = .ok b ∧ R a b := by
  cases run' with
  | error fault' => exact alike.elim
  | ok b => exact ⟨b, rfl, alike⟩

theorem Alike.from_ok {run : Except ε α} {b : β} (alike : Alike R run (.ok b)) :
    ∃ a, run = .ok a ∧ R a b := by
  cases run with
  | error fault => exact alike.elim
  | ok a => exact ⟨a, rfl, alike⟩

theorem Alike.bind {first : Except ε α} {first' : Except ε β} {next : α → Except ε γ}
    {next' : β → Except ε δ} (alike : Alike R first first')
    (later : ∀ a b, R a b → Alike S (next a) (next' b)) :
    Alike S (first >>= next) (first' >>= next') := by
  cases first with
  | error fault =>
      cases first' with
      | error fault' => exact alike
      | ok b => exact alike.elim
  | ok a =>
      cases first' with
      | error fault' => exact alike.elim
      | ok b => exact later a b alike

/-- Two loops whose turns keep their states related end alike. -/
theorem Alike.foldlM {step : α → γ → Except ε α} {step' : β → δ → Except ε β}
    (turn : ∀ a b, R a b → ∀ item item', S item item' → Alike R (step a item) (step' b item'))
    {items : List γ} {items' : List δ} (related : List.Forall₂ S items items') {a : α} {b : β}
    (start : R a b) : Alike R (items.foldlM step a) (items'.foldlM step' b) := by
  induction related generalizing a b with
  | nil => exact start
  | cons head _ ih =>
      rw [List.foldlM_cons, List.foldlM_cons]
      exact (turn _ _ start _ _ head).bind fun _ _ next => ih next

end Pairs

section Results

/-- The run succeeds with a result that has the property. -/
def Yields (run : Except ε α) (P : α → Prop) : Prop := ∃ a, run = .ok a ∧ P a

theorem yields_ok (a : α) (P : α → Prop) : Yields (.ok a : Except ε α) P ↔ P a := by
  constructor
  · rintro ⟨result, run, holds⟩
    cases run
    exact holds
  · intro holds
    exact ⟨a, rfl, holds⟩

theorem yields_error (fault : ε) (P : α → Prop) : ¬ Yields (.error fault : Except ε α) P := by
  rintro ⟨result, run, _⟩
  cases run

/-- A sequence yields what its second part yields from the result of the first. -/
theorem yields_bind (first : Except ε α) (next : α → Except ε β) (P : β → Prop) :
    Yields (first >>= next) P ↔ Yields first fun a => Yields (next a) P := by
  cases first with
  | error fault =>
      exact iff_of_false (yields_error fault P) (yields_error fault _)
  | ok a =>
      rw [yields_ok]
      exact Iff.rfl

theorem yields_and (run : Except ε α) (P : α → Prop) (Q : Prop) :
    (Yields run fun a => P a ∧ Q) ↔ Yields run P ∧ Q := by
  constructor
  · rintro ⟨a, success, holds, also⟩
    exact ⟨⟨a, success, holds⟩, also⟩
  · rintro ⟨⟨a, success, holds⟩, also⟩
    exact ⟨a, success, holds, also⟩

theorem yields_congr (run : Except ε α) (P Q : α → Prop) (same : ∀ a, P a ↔ Q a) :
    Yields run P ↔ Yields run Q := by
  constructor
  · rintro ⟨a, success, holds⟩
    exact ⟨a, success, (same a).mp holds⟩
  · rintro ⟨a, success, holds⟩
    exact ⟨a, success, (same a).mpr holds⟩

theorem yields_and_left (run : Except ε α) (P : α → Prop) (Q : Prop) :
    (Yields run fun a => Q ∧ P a) ↔ Q ∧ Yields run P := by
  rw [and_comm, ← yields_and]
  exact yields_congr _ _ _ fun _ => and_comm

/-- A loop that collects results yields one with the property for each item. -/
theorem yields_mapM (f : α → Except ε β) (R : α → β → Prop) (items : List α) :
    Yields (items.mapM f) (List.Forall₂ R items) ↔ ∀ item ∈ items, Yields (f item) (R item) := by
  induction items with
  | nil =>
      rw [List.mapM_nil]
      exact iff_of_true ⟨[], rfl, List.Forall₂.nil⟩ (by simp)
  | cons item rest ih =>
      rw [List.forall_mem_cons, ← ih, List.mapM_cons, yields_bind, ← yields_and]
      apply yields_congr
      intro b
      rw [yields_bind]
      constructor
      · rintro ⟨results, success, a, run, holds⟩
        cases run
        obtain ⟨head, tail⟩ := List.forall₂_cons.mp holds
        exact ⟨head, results, success, tail⟩
      · rintro ⟨head, results, success, tail⟩
        exact ⟨results, success, _, rfl, List.Forall₂.cons head tail⟩

/-- A loop that succeeds has succeeded on every item. -/
theorem mapM_forall₂ (f : α → Except ε β) (items : List α) (results : List β)
    (success : items.mapM f = .ok results) :
    List.Forall₂ (fun item b => f item = .ok b) items results := by
  induction items generalizing results with
  | nil =>
      cases success
      exact List.Forall₂.nil
  | cons item rest ih =>
      rw [List.mapM_cons] at success
      cases first : f item with
      | error fault =>
          rw [first] at success
          cases success
      | ok b =>
          rw [first] at success
          cases later : rest.mapM f with
          | error fault =>
              rw [later] at success
              cases success
          | ok others =>
              rw [later] at success
              cases success
              exact List.Forall₂.cons first (ih others later)

/-- What each turn ensures of its result holds of all results. -/
theorem mapM_ensures (f : α → Except ε β) (P : β → Prop) (items : List α) (results : List β)
    (each : ∀ item b, f item = .ok b → P b) (success : items.mapM f = .ok results) :
    ∀ b ∈ results, P b := by
  intro b member
  obtain ⟨index, inside, rfl⟩ := List.mem_iff_getElem.mp member
  have related := mapM_forall₂ f items results success
  exact each _ _ (related.get (related.length_eq ▸ inside) inside)

end Results

section Settled

variable {refused : ε → Prop}

/-- The run does not end with a failure of that kind. -/
def Passes (refused : ε → Prop) (run : Except ε α) : Prop :=
  ∀ fault, refused fault → run ≠ .error fault

/-- Among the runs that pass, those that yield the property are told by a condition. -/
def Settles (refused : ε → Prop) (run : Except ε α) (P : α → Prop) (D : Prop) : Prop :=
  Passes refused run → (Yields run P ↔ D)

theorem Passes.first {first : Except ε α} {next : α → Except ε β}
    (passes : Passes refused (first >>= next)) : Passes refused first := by
  rintro fault kind rfl
  exact passes fault kind rfl

theorem passes_ok (a : α) : Passes refused (.ok a : Except ε α) := by
  intro fault _ failed
  cases failed

theorem passes_error {fault : ε} (other : ¬ refused fault) :
    Passes refused (.error fault : Except ε α) := by
  intro fault' kind failed
  cases failed
  exact other kind

theorem Passes.bind {first : Except ε α} {next : α → Except ε β} (passes : Passes refused first)
    (later : ∀ a, first = .ok a → Passes refused (next a)) : Passes refused (first >>= next) := by
  cases first with
  | error fault =>
      intro fault' kind failed
      cases failed
      exact passes fault kind rfl
  | ok a => exact later a rfl

theorem Passes.foldlM {step : β → α → Except ε β} (items : List α) (start : β)
    (each : ∀ state, ∀ item ∈ items, Passes refused (step state item)) :
    Passes refused (items.foldlM step start) := by
  induction items generalizing start with
  | nil => exact passes_ok start
  | cons item rest ih =>
      rw [List.foldlM_cons]
      refine (each start item List.mem_cons_self).bind fun state _ => ih state ?_
      exact fun state other member => each state other (List.mem_cons_of_mem _ member)

theorem settles_ok (a : α) (P : α → Prop) : Settles refused (.ok a : Except ε α) P (P a) :=
  fun _ => yields_ok a P

theorem Settles.congr {run : Except ε α} {P : α → Prop} {D D' : Prop} (same : D ↔ D')
    (settles : Settles refused run P D) : Settles refused run P D' :=
  fun passes => (settles passes).trans same

/-- The first part yields its property exactly if its part of the condition holds. -/
theorem Settles.bind {first : Except ε α} {next : α → Except ε β} {P : α → Prop}
    {Q : β → Prop} {D E : Prop} (settled : Settles refused first P D) (needed : E → D)
    (later : ∀ a, first = .ok a → (P a ↔ D) → Settles refused (next a) Q E) :
    Settles refused (first >>= next) Q E := by
  intro passes
  have decided := settled passes.first
  cases first with
  | error fault =>
      apply iff_of_false (yields_error fault Q)
      exact fun holds => yields_error fault P (decided.mpr (needed holds))
  | ok a =>
      rw [yields_ok] at decided
      exact later a rfl decided passes

/-- A check that a passing run has passed. -/
theorem Settles.after {first : Except ε α} {next : α → Except ε β} {P : α → Prop}
    {Q : β → Prop} {E : Prop} (given : Passes refused first → Yields first P)
    (later : ∀ a, P a → Settles refused (next a) Q E) :
    Settles refused (first >>= next) Q E := by
  intro passes
  obtain ⟨a, rfl, holds⟩ := given passes.first
  exact later a holds passes

theorem Settles.mapM {f : α → Except ε β} {P : β → Prop} {D : α → Prop} (items : List α)
    (each : ∀ item ∈ items, Settles refused (f item) P (D item)) :
    Settles refused (items.mapM f) (fun results => ∀ b ∈ results, P b)
      (∀ item ∈ items, D item) := by
  induction items with
  | nil =>
      rw [List.mapM_nil]
      exact (settles_ok _ _).congr (by simp)
  | cons item rest ih =>
      obtain ⟨head, tail⟩ := List.forall_mem_cons.mp each
      rw [List.mapM_cons]
      refine head.bind (fun all => all item List.mem_cons_self) fun b _ first => ?_
      refine (ih tail).bind (fun all => (List.forall_mem_cons.mp all).2) fun results _ others => ?_
      refine (settles_ok _ _).congr ?_
      rw [List.forall_mem_cons, List.forall_mem_cons, first, others]

end Settled

section Effects

variable {m : Type → Type} [Monad m] [LawfulMonad m] {ι : Type} (effect : ι → m Unit)

/-- Collecting pure values after some effects each is all the effects, then the values. -/
theorem mapM_effects (f : α → m β) (before : α → List ι) (value : α → β) (items : List α)
    (each : ∀ item ∈ items,
      f item = forM (before item) effect >>= fun _ => pure (value item)) :
    items.mapM f = forM (items.flatMap before) effect >>= fun _ => pure (items.map value) := by
  induction items with
  | nil => simp
  | cons item rest ih =>
      rw [List.mapM_cons, each item (by simp), ih fun other member => each other (by simp [member])]
      simp [List.forM_append]

end Effects

end Outcomes
