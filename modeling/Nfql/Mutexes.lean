import Mathlib.Algebra.BigOperators.Group.Finset.Basic
import Mathlib.Algebra.Order.BigOperators.Group.Finset
import Nfql.Emissions
import Nfql.Interleavings

set_option autoImplicit false

/- Threads that share a state and a mutex. Each thread keeps to a protocol of its own; the
shared state goes along with all of them. -/
namespace Mutexes

open Emissions Interleavings

inductive Call (α : Type) where
  | lock
  | unlock
  | act (action : α)
  deriving DecidableEq, Repr

variable {ι α σ τ : Type} [DecidableEq ι]

/-- The mutex, with the thread that has it, and the state. -/
@[ext]
structure Shared (ι σ : Type) where
  holder : Option ι
  state : σ

/-- What a thread knows: whether it has the mutex, and its part of the state. -/
@[ext]
structure Own (τ : Type) where
  inside : Bool
  part : τ

section Steps

variable (sharedAction : Bool → σ → α → Option σ) (ownAction : ι → Bool → τ → α → Option τ)

/-- A thread waits where it locks a mutex that is taken. Whether an action is allowed may
depend on whether its thread has the mutex. -/
def Shared.step (shared : Shared ι σ) : ι × Call α → Option (Shared ι σ)
  | (thread, .lock) =>
      if shared.holder = none then some { shared with holder := some thread } else none
  | (thread, .unlock) =>
      if shared.holder = some thread then some { shared with holder := none } else none
  | (thread, .act action) =>
      (sharedAction (decide (shared.holder = some thread)) shared.state action).map
        fun state => { shared with state }

def Own.step (own : Own τ) : ι × Call α → Option (Own τ)
  | (_, .lock) => if own.inside then none else some { own with inside := true }
  | (_, .unlock) => if own.inside then some { own with inside := false } else none
  | (thread, .act action) =>
      (ownAction thread own.inside own.part action).map fun part => { own with part }

/-- What a thread has left keeps to its protocol, and gives the mutex back in the end. -/
def Finishes (owns : ι → Own τ) (threads : ι → List (ι × Call α)) : Prop :=
  ∀ thread, ∃ ends, follow (Own.step ownAction) (owns thread) (threads thread) = some ends ∧
    ends.inside = false

variable (related : σ → (ι → τ) → Prop)

/-- The shared state is what the threads' own parts say, and the mutex is with the thread
that knows to have it. -/
structure Agrees (shared : Shared ι σ) (owns : ι → Own τ) : Prop where
  state : related shared.state fun thread => (owns thread).part
  holder : ∀ thread, shared.holder = some thread ↔ (owns thread).inside = true

end Steps

/-- Taking or giving back the mutex leaves the parts. -/
theorem update_parts (owns : ι → Own τ) (thread : ι) (inside : Bool) :
    (fun other => (Function.update owns thread { owns thread with inside } other).part) =
      fun other => (owns other).part := by
  funext other
  by_cases same : other = thread
  · subst same
    rw [Function.update_self]
  · rw [Function.update_of_ne same]

section Finishing

variable {ownAction : ι → Bool → τ → α → Option τ} {owns : ι → Own τ}
  {threads : ι → List (ι × Call α)} {thread : ι} {call : ι × Call α} {later : List (ι × Call α)}

omit [DecidableEq ι] in
theorem Finishes.first (finishes : Finishes ownAction owns threads)
    (next : threads thread = call :: later) :
    ∃ own, Own.step ownAction (owns thread) call = some own ∧
      ∃ ends, follow (Own.step ownAction) own later = some ends ∧ ends.inside = false := by
  obtain ⟨ends, run, outside⟩ := finishes thread
  rw [next, follow, List.foldlM_cons] at run
  obtain ⟨own, taken, run⟩ := Option.bind_eq_some_iff.mp run
  exact ⟨own, taken, ends, run, outside⟩

theorem Finishes.step (finishes : Finishes ownAction owns threads)
    (next : threads thread = call :: later) {own : Own τ}
    (taken : Own.step ownAction (owns thread) call = some own) :
    Finishes ownAction (Function.update owns thread own) (Function.update threads thread later) := by
  intro other
  by_cases same : other = thread
  · subst same
    obtain ⟨own', taken', ends⟩ := finishes.first next
    rw [taken, Option.some.injEq] at taken'
    subst taken'
    rw [Function.update_self, Function.update_self]
    exact ends
  · rw [Function.update_of_ne same, Function.update_of_ne same]
    exact finishes other

end Finishing

section Simulation

variable {sharedAction : Bool → σ → α → Option σ} {ownAction : ι → Bool → τ → α → Option τ}
  {related : σ → (ι → τ) → Prop}
  (allows : ∀ state parts thread inside action part, related state parts →
    ownAction thread inside (parts thread) action = some part →
      ∃ next, sharedAction inside state action = some next ∧
        related next (Function.update parts thread part))
  {shared reached : Shared ι σ} {owns : ι → Own τ} {threads rest : ι → List (ι × Call α)}
  {schedule : List (ι × Call α)}

theorem Agrees.lock (agrees : Agrees related shared owns) (thread : ι) (own : Own τ)
    (taken : Own.step ownAction (owns thread) (thread, .lock) = some own) :
    (∃ next, Shared.step sharedAction shared (thread, .lock) = some next ∧
      Agrees related next (Function.update owns thread own)) ∨
      ∃ other, other ≠ thread ∧ shared.holder = some other := by
  rw [Own.step] at taken
  by_cases inside : (owns thread).inside = true
  · rw [if_pos inside] at taken
    cases taken
  · rw [if_neg inside, Option.some.injEq] at taken
    subst taken
    cases held : shared.holder with
    | some other =>
        refine .inr ⟨other, ?_, rfl⟩
        rintro rfl
        exact inside ((agrees.holder other).mp held)
    | none =>
        refine .inl ⟨{ shared with holder := some thread }, if_pos held, ?_, fun other => ?_⟩
        · rw [update_parts]
          exact agrees.state
        · by_cases same : other = thread
          · subst same
            rw [Function.update_self]
            exact iff_of_true rfl rfl
          · have outside := agrees.holder other
            rw [held] at outside
            rw [Function.update_of_ne same, Option.some.injEq]
            exact iff_of_false (Ne.symm same) (mt outside.mpr (by simp))

theorem Agrees.unlock (agrees : Agrees related shared owns) (thread : ι) (own : Own τ)
    (taken : Own.step ownAction (owns thread) (thread, .unlock) = some own) :
    ∃ next, Shared.step sharedAction shared (thread, .unlock) = some next ∧
      Agrees related next (Function.update owns thread own) := by
  rw [Own.step] at taken
  by_cases inside : (owns thread).inside = true
  · rw [if_pos inside, Option.some.injEq] at taken
    subst taken
    have held := (agrees.holder thread).mpr inside
    refine ⟨{ shared with holder := none }, if_pos held, ?_, fun other => ?_⟩
    · rw [update_parts]
      exact agrees.state
    · by_cases same : other = thread
      · subst same
        rw [Function.update_self]
        exact iff_of_false (by simp) (by simp)
      · have outside := agrees.holder other
        rw [held, Option.some.injEq] at outside
        rw [Function.update_of_ne same]
        exact iff_of_false (by simp) (mt outside.mpr (Ne.symm same))
  · rw [if_neg inside] at taken
    cases taken

include allows

theorem Agrees.act (agrees : Agrees related shared owns) (thread : ι) (action : α) (own : Own τ)
    (taken : Own.step ownAction (owns thread) (thread, .act action) = some own) :
    ∃ next, Shared.step sharedAction shared (thread, .act action) = some next ∧
      Agrees related next (Function.update owns thread own) := by
  rw [Own.step] at taken
  obtain ⟨part, acted, rfl⟩ := Option.map_eq_some_iff.mp taken
  have has : decide (shared.holder = some thread) = (owns thread).inside := by
    rw [Bool.eq_iff_iff, decide_eq_true_iff]
    exact agrees.holder thread
  obtain ⟨state, moved, holds⟩ := allows shared.state _ thread _ action part agrees.state acted
  refine ⟨{ shared with state }, ?_, ?_, fun other => ?_⟩
  · rw [Shared.step, has, moved]
    rfl
  · have parts : (fun other => (Function.update owns thread { owns thread with part } other).part) =
        Function.update (fun other => (owns other).part) thread part := by
      funext other
      by_cases same : other = thread
      · subst same
        rw [Function.update_self, Function.update_self]
      · rw [Function.update_of_ne same, Function.update_of_ne same]
    rw [parts]
    exact holds
  · rw [agrees.holder other]
    by_cases same : other = thread
    · subst same
      rw [Function.update_self]
    · rw [Function.update_of_ne same]

/-- A call that the thread's own protocol allows is made, or the thread waits for the
mutex that another one has. -/
theorem Agrees.step (agrees : Agrees related shared owns) (thread : ι) (call : Call α)
    (own : Own τ) (taken : Own.step ownAction (owns thread) (thread, call) = some own) :
    (∃ next, Shared.step sharedAction shared (thread, call) = some next ∧
      Agrees related next (Function.update owns thread own)) ∨
      call = .lock ∧ ∃ other, other ≠ thread ∧ shared.holder = some other := by
  cases call with
  | lock => exact (agrees.lock thread own taken).imp_right fun waits => ⟨rfl, waits⟩
  | unlock => exact .inl (agrees.unlock thread own taken)
  | act action => exact .inl (agrees.act allows thread action own taken)

/-- After any part of a schedule the shared state is what the threads' own parts say, and
the threads can still finish. -/
theorem Agrees.run (agrees : Agrees related shared owns) (owned : Owned Prod.fst threads)
    (finishes : Finishes ownAction owns threads) (run : Runs threads schedule rest)
    (valid : follow (Shared.step sharedAction) shared schedule = some reached) :
    ∃ owns', Agrees related reached owns' ∧ ∀ thread,
      follow (Own.step ownAction) (owns' thread) (rest thread) =
        follow (Own.step ownAction) (owns thread) (threads thread) := by
  induction run generalizing shared owns with
  | done threads =>
      cases valid
      exact ⟨owns, agrees, fun _ => rfl⟩
  | @step threads rest schedule thread call later next _ ih =>
      obtain ⟨turn, call⟩ := call
      have same : turn = thread := owned thread (turn, call) (by rw [next]; exact List.mem_cons_self)
      subst same
      rw [follow, List.foldlM_cons] at valid
      obtain ⟨shared', moved, valid⟩ := Option.bind_eq_some_iff.mp valid
      obtain ⟨own, taken, ends⟩ := finishes.first next
      rcases agrees.step allows turn call own taken with ⟨reached', moved', agrees'⟩ | ⟨rfl, waits⟩
      · rw [moved, Option.some.injEq] at moved'
        subst moved'
        have through := finishes.step next taken
        obtain ⟨owns', holds, left⟩ := ih agrees' (owned.later next) through valid
        refine ⟨owns', holds, fun other => (left other).trans ?_⟩
        by_cases same : other = turn
        · subst same
          rw [Function.update_self, Function.update_self, next, follow_cons later taken]
        · rw [Function.update_of_ne same, Function.update_of_ne same]
      · obtain ⟨other, -, held⟩ := waits
        rw [Shared.step, held] at moved
        cases moved

/-- While some thread has calls left, one of them can make its next call. -/
theorem Agrees.progress (owned : Owned Prod.fst threads) (agrees : Agrees related shared owns)
    (finishes : Finishes ownAction owns threads) (unfinished : ∃ thread, threads thread ≠ []) :
    ∃ thread call later next, threads thread = call :: later ∧
      Shared.step sharedAction shared call = some next := by
  have makes (thread : ι) (some_call : threads thread ≠ []) :
      (∃ call later next, threads thread = call :: later ∧
        Shared.step sharedAction shared call = some next) ∨
      (owns thread).inside = false ∧ ∃ other, shared.holder = some other := by
    obtain ⟨⟨turn, call⟩, later, next⟩ := List.exists_cons_of_ne_nil some_call
    have same : turn = thread := owned thread (turn, call) (by rw [next]; exact List.mem_cons_self)
    subst same
    obtain ⟨own, taken, -⟩ := finishes.first next
    rcases agrees.step allows turn call own taken with ⟨reached, moved, -⟩ | ⟨rfl, other, -, held⟩
    · exact .inl ⟨_, later, reached, next, moved⟩
    · refine .inr ⟨?_, other, held⟩
      by_contra inside
      rw [Bool.not_eq_false] at inside
      rw [Own.step, if_pos inside] at taken
      cases taken
  obtain ⟨thread, some_call⟩ := unfinished
  rcases makes thread some_call with ⟨call, later, next, made⟩ | ⟨-, other, held⟩
  · exact ⟨thread, call, later, next, made⟩
  · have inside := (agrees.holder other).mp held
    have some_call' : threads other ≠ [] := by
      intro none
      obtain ⟨ends, run, outside⟩ := finishes other
      rw [none] at run
      cases run
      rw [inside] at outside
      cases outside
    rcases makes other some_call' with ⟨call, later, next, made⟩ | ⟨outside, -⟩
    · exact ⟨other, call, later, next, made⟩
    · rw [inside] at outside
      cases outside

/-- However far the threads have come, there is a schedule that runs them to their end. -/
theorem Agrees.completes (parties : Finset ι)
    (others : ∀ thread, thread ∉ parties → threads thread = []) (owned : Owned Prod.fst threads)
    (agrees : Agrees related shared owns) (finishes : Finishes ownAction owns threads) :
    ∃ schedule reached, Interleaves threads schedule ∧
      follow (Shared.step sharedAction) shared schedule = some reached := by
  induction total : ∑ thread ∈ parties, (threads thread).length using Nat.strong_induction_on
    generalizing shared owns threads with
  | h calls ih =>
      by_cases unfinished : ∃ thread, threads thread ≠ []
      · obtain ⟨thread, ⟨turn, call⟩, later, next, found, moved⟩ :=
          agrees.progress allows owned finishes unfinished
        have same : turn = thread := owned thread (turn, call) (by rw [found]; exact List.mem_cons_self)
        subst same
        obtain ⟨own, taken, -⟩ := finishes.first found
        rcases agrees.step allows turn call own taken with
          ⟨reached, moved', agrees'⟩ | ⟨rfl, waits⟩
        · rw [moved, Option.some.injEq] at moved'
          subst moved'
          have inside : turn ∈ parties := by
            by_contra outside
            rw [others turn outside] at found
            cases found
          have others' : ∀ thread, thread ∉ parties → Function.update threads turn later thread = [] := by
            intro thread outside
            rw [Function.update_of_ne (by rintro rfl; exact outside inside)]
            exact others thread outside
          have fewer : ∑ thread ∈ parties, (Function.update threads turn later thread).length <
              calls := by
            rw [← total]
            refine Finset.sum_lt_sum (fun thread _ => ?_) ⟨turn, inside, ?_⟩
            · by_cases same : thread = turn
              · subst same
                rw [Function.update_self, found, List.length_cons]
                omega
              · rw [Function.update_of_ne same]
            · rw [Function.update_self, found, List.length_cons]
              omega
          obtain ⟨schedule, ends, run, valid⟩ := ih _ fewer others' (owned.later found) agrees'
            (finishes.step found taken) rfl
          refine ⟨(turn, call) :: schedule, ends, Runs.step turn _ later found run, ?_⟩
          rw [follow_cons schedule moved]
          exact valid
        · obtain ⟨other, -, held⟩ := waits
          rw [Shared.step, held] at moved
          cases moved
      · have none : threads = fun _ => [] := by
          funext thread
          by_contra some_call
          exact unfinished ⟨thread, some_call⟩
        rw [none]
        exact ⟨[], shared, Runs.done _, rfl⟩

end Simulation

end Mutexes
