import Mathlib.Data.List.Basic
import Mathlib.Logic.Function.Basic

set_option autoImplicit false

/- Interleavings of threads, each a sequence of actions. -/
namespace Interleavings

variable {ι α : Type} [DecidableEq ι]

/-- A schedule runs threads: each step is the next action of one of them. The last
argument is what they have left. -/
inductive Runs : (ι → List α) → List α → (ι → List α) → Prop where
  | done (threads : ι → List α) : Runs threads [] threads
  | step {threads rest : ι → List α} {schedule : List α} (thread : ι) (action : α)
      (later : List α) (next : threads thread = action :: later)
      (run : Runs (Function.update threads thread later) schedule rest) :
      Runs threads (action :: schedule) rest

/-- The schedule runs all threads to their end. -/
def Interleaves (threads : ι → List α) (schedule : List α) : Prop :=
  Runs threads schedule fun _ => []

section Schedules

variable {threads rest : ι → List α} {schedule : List α}

theorem Runs.append {first second : List α} {middle : ι → List α}
    (run : Runs threads first middle) (later : Runs middle second rest) :
    Runs threads (first ++ second) rest := by
  induction run with
  | done threads => exact later
  | step thread action remaining next _ ih => exact Runs.step thread action remaining next (ih later)

/-- A run can be looked at after any of its steps. -/
theorem Runs.split {first second : List α} (run : Runs threads (first ++ second) rest) :
    ∃ middle, Runs threads first middle ∧ Runs middle second rest := by
  induction first generalizing threads with
  | nil => exact ⟨threads, Runs.done threads, run⟩
  | cons action first ih =>
      cases run with
      | step thread _ later next run =>
          obtain ⟨middle, before, after⟩ := ih run
          exact ⟨middle, Runs.step thread action later next before, after⟩

/-- One thread runs to its end while the others wait. -/
theorem Runs.alone (threads : ι → List α) (thread : ι) :
    Runs threads (threads thread) (Function.update threads thread []) := by
  induction actions : threads thread generalizing threads with
  | nil =>
      have same : Function.update threads thread [] = threads := by
        rw [← actions, Function.update_eq_self]
      rw [same]
      exact Runs.done threads
  | cons action later ih =>
      have turn := ih (Function.update threads thread later) (Function.update_self ..)
      rw [Function.update_idem] at turn
      exact Runs.step thread action later actions turn

/-- Running the threads one after the other is one of the interleavings. -/
theorem Interleaves.sequential (order : List ι) (distinct : order.Nodup) (threads : ι → List α)
    (others : ∀ thread, thread ∉ order → threads thread = []) :
    Interleaves threads (order.flatMap threads) := by
  induction order generalizing threads with
  | nil =>
      have none : threads = fun _ => [] := funext fun thread => others thread (by simp)
      rw [none]
      exact Runs.done _
  | cons thread order ih =>
      obtain ⟨fresh, distinct⟩ := List.nodup_cons.mp distinct
      have later := ih distinct (Function.update threads thread []) (by
        intro other outside
        by_cases same : other = thread
        · rw [same, Function.update_self]
        · rw [Function.update_of_ne same]
          exact others other (by simp [same, outside]))
      have unchanged : order.flatMap (Function.update threads thread []) =
          order.flatMap threads := by
        apply List.flatMap_congr
        intro other member
        have apart : other ≠ thread := by
          rintro rfl
          exact fresh member
        rw [Function.update_of_ne apart]
      rw [unchanged] at later
      rw [List.flatMap_cons]
      exact (Runs.alone threads thread).append later

end Schedules

section Owners

variable {threads rest : ι → List α} {schedule : List α} (owner : α → ι)

/-- Every action of a thread belongs to it. -/
def Owned (threads : ι → List α) : Prop :=
  ∀ thread, ∀ action ∈ threads thread, owner action = thread

theorem Owned.later {owner : α → ι} (owned : Owned owner threads) {thread : ι} {action : α}
    {later : List α} (next : threads thread = action :: later) :
    Owned owner (Function.update threads thread later) := by
  intro other action' member
  by_cases same : other = thread
  · subst same
    rw [Function.update_self] at member
    exact owned other action' (by rw [next]; exact List.mem_cons_of_mem _ member)
  · rw [Function.update_of_ne same] at member
    exact owned other action' member

/-- What a schedule has of a thread's actions, followed by what the thread has left, is
the thread: the other threads neither reorder nor interrupt it. -/
theorem Runs.own (run : Runs threads schedule rest) (owned : Owned owner threads) (thread : ι) :
    schedule.filter (fun action => owner action = thread) ++ rest thread = threads thread := by
  induction run with
  | done threads => rfl
  | step turn action later next _ ih =>
      have remaining := ih (owned.later next)
      have owns : owner action = turn := owned turn action (by rw [next]; exact List.mem_cons_self)
      by_cases same : thread = turn
      · subst same
        rw [Function.update_self] at remaining
        rw [List.filter_cons_of_pos (by simpa using owns), List.cons_append, remaining, next]
      · rw [Function.update_of_ne same] at remaining
        rw [List.filter_cons_of_neg (by simpa [owns] using Ne.symm same), remaining]

/-- In a complete schedule every thread's actions occur, in their order. -/
theorem Interleaves.own (run : Interleaves threads schedule) (owned : Owned owner threads)
    (thread : ι) : schedule.filter (fun action => owner action = thread) = threads thread := by
  have whole := Runs.own owner run owned thread
  rwa [List.append_nil] at whole

end Owners

end Interleavings
