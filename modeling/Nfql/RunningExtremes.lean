import Mathlib.Order.Bounds.Basic

set_option autoImplicit false

/- A loop that keeps the best value it has seen. -/
namespace RunningExtremes

variable {α β : Type}

/-- A total preorder, and the strict comparison that a loop makes. -/
structure Ordered (within better : β → β → Prop) : Prop where
  refl : ∀ a, within a a
  trans : ∀ a b c, within a b → within b c → within a c
  wins : ∀ a b, better a b → within a b
  loses : ∀ a b, ¬ better a b → within b a

/-- A value is attained by one of the items, and bounds all of them. -/
structure Extreme (within : β → β → Prop) (value : α → β) (items : List α) (best : β) : Prop where
  attained : ∃ item ∈ items, value item = best
  bound : ∀ item ∈ items, within best (value item)

section Loop

variable {within better : β → β → Prop} {value : α → β}

theorem Extreme.start (ordered : Ordered within better) (item : α) :
    Extreme within value [item] (value item) where
  attained := ⟨item, List.mem_singleton_self item, rfl⟩
  bound other inside := by
    rw [List.mem_singleton.mp inside]
    exact ordered.refl _

/-- A better value takes the place of the best one. -/
theorem Extreme.step [DecidableRel better] (ordered : Ordered within better) {items : List α}
    {best : β} (extreme : Extreme within value items best) (item : α) :
    Extreme within value (items ++ [item])
      (if better (value item) best then value item else best) := by
  obtain ⟨⟨kept, inside, rfl⟩, bound⟩ := extreme
  split
  · rename_i improved
    refine ⟨⟨item, by simp, rfl⟩, ?_⟩
    intro other member
    rcases List.mem_append.mp member with before | last
    · exact ordered.trans _ _ _ (ordered.wins _ _ improved) (bound other before)
    · rw [List.mem_singleton.mp last]
      exact ordered.refl _
  · rename_i kept
    refine ⟨⟨_, List.mem_append_left _ inside, rfl⟩, ?_⟩
    intro other member
    rcases List.mem_append.mp member with before | last
    · exact bound other before
    · rw [List.mem_singleton.mp last]
      exact ordered.loses _ _ kept

end Loop

variable [LE β] {value : α → β} {items : List α} {best : β}

theorem Extreme.isLeast (extreme : Extreme (· ≤ ·) value items best) :
    IsLeast {b | ∃ item ∈ items, value item = b} best := by
  refine ⟨extreme.attained, ?_⟩
  rintro _ ⟨item, inside, rfl⟩
  exact extreme.bound item inside

theorem Extreme.isGreatest (extreme : Extreme (· ≥ ·) value items best) :
    IsGreatest {b | ∃ item ∈ items, value item = b} best := by
  refine ⟨extreme.attained, ?_⟩
  rintro _ ⟨item, inside, rfl⟩
  exact extreme.bound item inside

end RunningExtremes
