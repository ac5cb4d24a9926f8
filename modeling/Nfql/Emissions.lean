import Mathlib.Data.List.Basic

set_option autoImplicit false

/- Fallible programs that perform actions, and the protocols that they follow. -/
namespace Emissions

/-- A run: the actions it performs, up to its failure if it fails. -/
@[ext]
structure Emitted (ω ε α : Type) where
  actions : List ω
  result : Except ε α

namespace Emitted

variable {ω ε α β γ : Type}

def ok (value : α) : Emitted ω ε α := ⟨[], .ok value⟩

def error (fault : ε) : Emitted ω ε α := ⟨[], .error fault⟩

def bind (run : Emitted ω ε α) (next : α → Emitted ω ε β) : Emitted ω ε β :=
  match run.result with
  | .error fault => ⟨run.actions, .error fault⟩
  | .ok value => ⟨run.actions ++ (next value).actions, (next value).result⟩

instance : Monad (Emitted ω ε) where
  pure := ok
  bind := bind

/-- A part that performs no action. -/
def of (result : Except ε α) : Emitted ω ε α := ⟨[], result⟩

def perform (actions : List ω) : Emitted ω ε Unit := ⟨actions, .ok ()⟩

@[simp] theorem pure_result (value : α) : (pure value : Emitted ω ε α).result = .ok value := rfl

@[simp] theorem of_result (result : Except ε α) : (of result : Emitted ω ε α).result = result := rfl

@[simp] theorem perform_result (actions : List ω) :
    (perform actions : Emitted ω ε Unit).result = .ok () := rfl

/-- Without its actions, a sequence is the sequence of the results. -/
@[simp] theorem bind_result (run : Emitted ω ε α) (next : α → Emitted ω ε β) :
    (run >>= next).result = run.result >>= fun value => (next value).result := by
  show (bind run next).result = _
  rw [bind]
  cases run.result with
  | error fault => rfl
  | ok value => rfl

theorem bind_actions_of_ok {run : Emitted ω ε α} (next : α → Emitted ω ε β) {value : α}
    (success : run.result = .ok value) :
    (run >>= next).actions = run.actions ++ (next value).actions := by
  show (bind run next).actions = _
  rw [bind, success]

theorem bind_actions_of_error {run : Emitted ω ε α} (next : α → Emitted ω ε β) {fault : ε}
    (failed : run.result = .error fault) : (run >>= next).actions = run.actions := by
  show (bind run next).actions = _
  rw [bind, failed]

instance : LawfulMonad (Emitted ω ε) := LawfulMonad.mk' (Emitted ω ε)
  (by
    rintro α ⟨actions, result⟩
    cases result with
    | error fault => rfl
    | ok value => exact congrArg (Emitted.mk · _) (List.append_nil actions))
  (fun value next => rfl)
  (by
    rintro α β γ ⟨actions, result⟩ next later
    cases result with
    | error fault => rfl
    | ok value =>
        show bind (bind ⟨actions, .ok value⟩ next) later =
          bind ⟨actions, .ok value⟩ fun value => bind (next value) later
        unfold bind
        dsimp only
        cases (next value).result with
        | error fault => rfl
        | ok value' => exact congrArg (Emitted.mk · _) (List.append_assoc ..))

@[simp] theorem map_result (f : α → β) (run : Emitted ω ε α) :
    (f <$> run).result = f <$> run.result := by
  rw [← bind_pure_comp, bind_result, ← bind_pure_comp]
  rfl

@[simp] theorem map_actions (f : α → β) (run : Emitted ω ε α) :
    (f <$> run).actions = run.actions := by
  rw [← bind_pure_comp]
  cases ended : run.result with
  | error fault => exact bind_actions_of_error _ ended
  | ok value => rw [bind_actions_of_ok _ ended]; exact List.append_nil _

/-- Loops have the results of loops, if their turns do. -/
theorem foldlM_result (plain : β → α → Except ε β) (items : List α)
    {body : β → α → Emitted ω ε β} (start : β)
    (turn : ∀ value, ∀ item ∈ items, (body value item).result = plain value item) :
    (items.foldlM body start).result = items.foldlM plain start := by
  induction items generalizing start with
  | nil => rfl
  | cons item rest ih =>
      have here := turn start item List.mem_cons_self
      rw [List.foldlM_cons, List.foldlM_cons, bind_result, here]
      refine bind_congr fun value => ih value ?_
      exact fun value other member => turn value other (List.mem_cons_of_mem _ member)

theorem forM_result (items : List α) {body : α → Emitted ω ε Unit}
    (turn : ∀ item ∈ items, (body item).result = .ok ()) :
    (items.forM body).result = .ok () := by
  induction items with
  | nil => rfl
  | cons item rest ih =>
      show (body item >>= fun _ => rest.forM body).result = _
      rw [bind_result, turn item List.mem_cons_self]
      exact ih fun other member => turn other (List.mem_cons_of_mem _ member)

end Emitted

section Protocols

variable {σ ω ε α β γ : Type} (step : σ → ω → Option σ)

/-- The state that a protocol is in after some actions; `none` if one breaks it. -/
def follow (state : σ) (actions : List ω) : Option σ := actions.foldlM step state

/-- The actions keep to the protocol, and at every moment its state has the property. -/
def Safe (P : σ → Prop) : σ → List ω → Prop
  | state, [] => P state
  | state, action :: later => P state ∧ ∃ next, step state action = some next ∧ Safe P next later

variable {step} {P : σ → Prop}

theorem Safe.start {state : σ} {actions : List ω} (safe : Safe step P state actions) : P state := by
  cases actions with
  | nil => exact safe
  | cons action later => exact safe.1

theorem follow_cons {state next : σ} {action : ω} (later : List ω)
    (taken : step state action = some next) :
    follow step state (action :: later) = follow step next later := by
  rw [follow, List.foldlM_cons, taken]
  rfl

theorem follow_append {state reached : σ} {first : List ω}
    (before : follow step state first = some reached) (second : List ω) :
    follow step state (first ++ second) = follow step reached second := by
  unfold follow at before ⊢
  rw [List.foldlM_append, before]
  rfl

theorem follow_split {state reached : σ} {first second : List ω}
    (run : follow step state (first ++ second) = some reached) :
    ∃ middle, follow step state first = some middle ∧ follow step middle second = some reached := by
  rw [follow, List.foldlM_append] at run
  exact Option.bind_eq_some_iff.mp run

theorem Safe.append {state : σ} {first second : List ω} (before : Safe step P state first)
    (after : ∀ reached, follow step state first = some reached → Safe step P reached second) :
    Safe step P state (first ++ second) := by
  induction first generalizing state with
  | nil => exact after state rfl
  | cons action first ih =>
      obtain ⟨holds, next, taken, later⟩ := before
      refine ⟨holds, next, taken, ih later fun reached run => after reached ?_⟩
      rwa [follow_cons first taken]

/-- After any of its actions a safe run is in a state with the property. -/
theorem Safe.moment {state : σ} {first second : List ω}
    (safe : Safe step P state (first ++ second)) :
    ∃ reached, follow step state first = some reached ∧ Safe step P reached second := by
  induction first generalizing state with
  | nil => exact ⟨state, rfl, safe⟩
  | cons action first ih =>
      obtain ⟨-, next, taken, later⟩ := safe
      obtain ⟨reached, run, rest⟩ := ih later
      exact ⟨reached, by rw [follow_cons first taken, run], rest⟩

/-- Whatever part of the actions has been done, the property holds. -/
theorem Safe.of_moments {state : σ} {actions : List ω}
    (moments : ∀ first second, actions = first ++ second →
      ∃ reached, follow step state first = some reached ∧ P reached) :
    Safe step P state actions := by
  induction actions generalizing state with
  | nil =>
      obtain ⟨reached, run, holds⟩ := moments [] [] rfl
      cases run
      exact holds
  | cons action later ih =>
      obtain ⟨start, run, holds⟩ := moments [] (action :: later) rfl
      cases run
      obtain ⟨_, taken, -⟩ := moments [action] later rfl
      rw [follow, List.foldlM_cons] at taken
      obtain ⟨next, taken, -⟩ := Option.bind_eq_some_iff.mp taken
      refine ⟨holds, next, taken, ih fun first second whole => ?_⟩
      have moment := moments (action :: first) second (by rw [whole, List.cons_append])
      rwa [follow_cons first taken] at moment

theorem Safe.imp {P' : σ → Prop} (weaker : ∀ state, P state → P' state) {state : σ}
    {actions : List ω} (safe : Safe step P state actions) : Safe step P' state actions := by
  induction actions generalizing state with
  | nil => exact weaker state safe
  | cons action later ih =>
      obtain ⟨holds, next, taken, rest⟩ := safe
      exact ⟨weaker state holds, next, taken, ih rest⟩

/-- A protocol that allows less. -/
theorem Safe.weaken {step' : σ → ω → Option σ}
    (allowed : ∀ state action next, step state action = some next → step' state action = some next)
    {state : σ} {actions : List ω} (safe : Safe step P state actions) :
    Safe step' P state actions := by
  induction actions generalizing state with
  | nil => exact safe
  | cons action later ih =>
      obtain ⟨holds, next, taken, rest⟩ := safe
      exact ⟨holds, next, allowed state action next taken, ih rest⟩

theorem follow_weaken {step' : σ → ω → Option σ}
    (allowed : ∀ state action next, step state action = some next → step' state action = some next)
    {state reached : σ} {actions : List ω} (run : follow step state actions = some reached) :
    follow step' state actions = some reached := by
  induction actions generalizing state with
  | nil => exact run
  | cons action later ih =>
      rw [follow, List.foldlM_cons] at run
      obtain ⟨next, taken, run⟩ := Option.bind_eq_some_iff.mp run
      rw [follow_cons later (allowed state action next taken)]
      exact ih run

/-- The protocol allows each of the actions somewhere. -/
theorem Safe.allows {state : σ} {actions : List ω} (safe : Safe step P state actions) {action : ω}
    (member : action ∈ actions) : ∃ before next, step before action = some next := by
  induction actions generalizing state with
  | nil => cases member
  | cons head later ih =>
      obtain ⟨-, next, taken, rest⟩ := safe
      rcases List.mem_cons.mp member with rfl | member
      · exact ⟨state, next, taken⟩
      · exact ih rest member

/-- Safe actions lead somewhere, and the property holds there. -/
theorem Safe.reaches {state : σ} {actions : List ω} (safe : Safe step P state actions) :
    ∃ reached, follow step state actions = some reached ∧ P reached := by
  have whole : Safe step P state (actions ++ []) := by rwa [List.append_nil]
  obtain ⟨reached, run, ends⟩ := whole.moment
  exact ⟨reached, run, ends⟩

variable (step P)

/-- From one state a run keeps to the protocol and, if it succeeds, ends in another. -/
structure Keeps (before : σ) (run : Emitted ω ε α) (after : σ) : Prop where
  safe : Safe step P before run.actions
  ends : ∀ value, run.result = .ok value → follow step before run.actions = some after

variable {step P} {before middle after : σ}

theorem Keeps.of (holds : P before) (result : Except ε α) :
    Keeps step P before (Emitted.of result : Emitted ω ε α) before :=
  ⟨holds, fun _ _ => rfl⟩

theorem Keeps.pure (holds : P before) (value : α) :
    Keeps step P before (pure value : Emitted ω ε α) before :=
  ⟨holds, fun _ _ => rfl⟩

theorem Keeps.error (holds : P before) (fault : ε) :
    Keeps step P before (Emitted.error fault : Emitted ω ε α) after :=
  ⟨holds, fun _ success => nomatch success⟩

theorem Keeps.action {action : ω} (holds : P before) (taken : step before action = some after)
    (holds' : P after) :
    Keeps step P before (Emitted.perform [action] : Emitted ω ε Unit) after :=
  ⟨⟨holds, after, taken, holds'⟩, fun _ _ => follow_cons [] taken⟩

theorem Keeps.bind {run : Emitted ω ε α} {next : α → Emitted ω ε β}
    (first : Keeps step P before run middle)
    (second : ∀ value, run.result = .ok value → Keeps step P middle (next value) after) :
    Keeps step P before (run >>= next) after := by
  cases ended : run.result with
  | error fault =>
      constructor
      · rw [Emitted.bind_actions_of_error next ended]
        exact first.safe
      · intro value success
        rw [Emitted.bind_result, ended] at success
        cases success
  | ok value =>
      have through := first.ends value ended
      have later := second value ended
      constructor
      · rw [Emitted.bind_actions_of_ok next ended]
        refine first.safe.append fun reached run => ?_
        rw [through, Option.some.injEq] at run
        rw [← run]
        exact later.safe
      · intro result success
        rw [Emitted.bind_result, ended] at success
        rw [Emitted.bind_actions_of_ok next ended, follow_append through]
        exact later.ends result success

/-- A loop whose turns come back to the same state. -/
theorem Keeps.forM (items : List α) {body : α → Emitted ω ε Unit} (holds : P before)
    (turn : ∀ item ∈ items, Keeps step P before (body item) before) :
    Keeps step P before (items.forM body) before := by
  induction items with
  | nil => exact Keeps.pure holds _
  | cons item rest ih =>
      refine (turn item List.mem_cons_self).bind fun _ _ => ?_
      exact ih fun other member => turn other (List.mem_cons_of_mem _ member)

/-- A loop whose turns move on with the items that are left. -/
theorem Keeps.forM_rest (state : List α → σ) (items : List α) {body : α → Emitted ω ε Unit}
    (holds : P (state []))
    (turn : ∀ item rest, item :: rest <:+ items →
      Keeps step P (state (item :: rest)) (body item) (state rest)) :
    Keeps step P (state items) (items.forM body) (state []) := by
  induction items with
  | nil => exact Keeps.pure holds _
  | cons item rest ih =>
      refine (turn item rest List.suffix_rfl).bind fun _ _ => ih ?_
      exact fun other later suffix => turn other later (suffix.trans (List.suffix_cons item rest))

theorem Keeps.foldlM (items : List α) {body : β → α → Emitted ω ε β} (start : β) (holds : P before)
    (turn : ∀ value, ∀ item ∈ items, Keeps step P before (body value item) before) :
    Keeps step P before (items.foldlM body start) before := by
  induction items generalizing start with
  | nil => exact Keeps.pure holds _
  | cons item rest ih =>
      rw [List.foldlM_cons]
      refine (turn start item List.mem_cons_self).bind fun value _ => ih value ?_
      exact fun value other member => turn value other (List.mem_cons_of_mem _ member)

end Protocols

end Emissions
