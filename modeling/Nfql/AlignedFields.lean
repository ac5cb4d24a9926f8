import Mathlib.Algebra.Order.Ring.Nat
import Mathlib.Data.List.Basic

set_option autoImplicit false

/- Fields laid out one after the other, each at a multiple of its own size, and the
same layout with its gaps filled. -/
namespace AlignedFields

section RoundUp

/-- The next multiple of a size. -/
def roundUp (position size : Nat) : Nat :=
  if position % size = 0 then position else position + (size - position % size)

theorem le_roundUp (position size : Nat) : position ≤ roundUp position size := by
  unfold roundUp
  split <;> omega

theorem roundUp_lt (position size : Nat) (positive : 0 < size) :
    roundUp position size < position + size := by
  have rest := Nat.mod_lt position positive
  unfold roundUp
  split <;> omega

theorem roundUp_aligned (position size : Nat) (positive : 0 < size) :
    roundUp position size % size = 0 := by
  unfold roundUp
  split
  · assumption
  · have rest := Nat.mod_lt position positive
    have whole := Nat.mod_add_div position size
    have multiple : position + (size - position % size) = size * (position / size + 1) := by
      rw [Nat.mul_add, Nat.mul_one]
      omega
    rw [multiple, Nat.mul_mod_right]

end RoundUp

section Laid

variable {α : Type} (offset size : α → Nat)

/-- The fields lie between `start` and `stop`, each at the first multiple of its size. -/
def Laid : Nat → List α → Nat → Prop
  | start, [], stop => start = stop
  | start, field :: rest, stop =>
      offset field = roundUp start (size field) ∧ Laid (offset field + size field) rest stop

variable {offset size} {start stop : Nat} {fields : List α}

theorem Laid.snoc (laid : Laid offset size start fields stop) (field : α)
    (next : offset field = roundUp stop (size field)) :
    Laid offset size start (fields ++ [field]) (offset field + size field) := by
  induction fields generalizing start with
  | nil =>
      cases laid
      exact ⟨next, rfl⟩
  | cons first rest ih => exact ⟨laid.1, ih laid.2⟩

theorem Laid.start_le (laid : Laid offset size start fields stop) : start ≤ stop := by
  induction fields generalizing start with
  | nil => exact Nat.le_of_eq laid
  | cons first rest ih =>
      have inside := le_roundUp start (size first)
      have later := ih laid.2
      rw [laid.1] at later
      omega

theorem Laid.inside (laid : Laid offset size start fields stop) :
    ∀ field ∈ fields, start ≤ offset field ∧ offset field + size field ≤ stop := by
  induction fields generalizing start with
  | nil => simp
  | cons first rest ih =>
      have here : start ≤ offset first := by
        rw [laid.1]
        exact le_roundUp start (size first)
      intro field member
      rcases List.mem_cons.mp member with rfl | later
      · exact ⟨here, laid.2.start_le⟩
      · obtain ⟨after, before⟩ := ih laid.2 field later
        exact ⟨by omega, before⟩

/-- No field overlaps a later one. -/
theorem Laid.ordered (laid : Laid offset size start fields stop) :
    fields.Pairwise fun field later => offset field + size field ≤ offset later := by
  induction fields generalizing start with
  | nil => exact List.Pairwise.nil
  | cons first rest ih =>
      exact List.Pairwise.cons (fun later member => (laid.2.inside later member).1) (ih laid.2)

theorem Laid.aligned (laid : Laid offset size start fields stop)
    (positive : ∀ field ∈ fields, 0 < size field) :
    ∀ field ∈ fields, offset field % size field = 0 := by
  induction fields generalizing start with
  | nil => simp
  | cons first rest ih =>
      obtain ⟨here, others⟩ := List.forall_mem_cons.mp positive
      refine List.forall_mem_cons.mpr ⟨?_, ih laid.2 others⟩
      rw [laid.1]
      exact roundUp_aligned start _ here

theorem Laid.last (laid : Laid offset size start fields stop) (field : α)
    (last : fields.getLast? = some field) : offset field + size field = stop := by
  induction fields generalizing start with
  | nil => cases last
  | cons first rest ih =>
      cases rest with
      | nil =>
          cases last
          exact laid.2
      | cons second rest =>
          rw [List.getLast?_cons_cons] at last
          exact ih laid.2 last

/-- Alignment wastes less than one field's size for each field. -/
theorem Laid.stop_le (laid : Laid offset size start fields stop) (most : Nat)
    (sizes : ∀ field ∈ fields, 0 < size field ∧ size field ≤ most) :
    stop ≤ start + fields.length * (2 * most) := by
  induction fields generalizing start with
  | nil =>
      cases laid
      exact Nat.le_add_right _ _
  | cons first rest ih =>
      obtain ⟨here, others⟩ := List.forall_mem_cons.mp sizes
      have later := ih laid.2 others
      have near := roundUp_lt start (size first) here.1
      have one : (rest.length + 1) * (2 * most) = rest.length * (2 * most) + 2 * most :=
        Nat.succ_mul _ _
      rw [laid.1] at later
      rw [List.length_cons, one]
      omega

end Laid

section Filled

variable {α β : Type}

/-- Where consecutive pieces of the given lengths start. -/
def positions : Nat → List (β × Nat) → List (β × Nat)
  | _, [] => []
  | start, (piece, length) :: rest => (piece, start) :: positions (start + length) rest

def extent (pieces : List (β × Nat)) : Nat := (pieces.map Prod.snd).sum

variable (offset size : α → Nat)

/-- The fields with a piece for each gap between them. -/
def filled : Nat → List α → List (Option α × Nat)
  | _, [] => []
  | start, field :: rest =>
      (if offset field = start then [] else [(none, offset field - start)]) ++
        (some field, size field) :: filled (offset field + size field) rest

theorem extent_cons (piece : β × Nat) (rest : List (β × Nat)) :
    extent (piece :: rest) = piece.2 + extent rest := rfl

theorem extent_append (pieces rest : List (β × Nat)) :
    extent (pieces ++ rest) = extent pieces + extent rest := by
  rw [extent, List.map_append, List.sum_append]
  rfl

theorem positions_append (start : Nat) (pieces rest : List (β × Nat)) :
    positions start (pieces ++ rest) =
      positions start pieces ++ positions (start + extent pieces) rest := by
  induction pieces generalizing start with
  | nil => rfl
  | cons piece pieces ih =>
      rw [List.cons_append, positions, positions, ih, extent_cons, Nat.add_assoc]
      rfl

theorem mem_positions (start : Nat) (pieces : List (β × Nat)) (placed : β × Nat)
    (member : placed ∈ positions start pieces) : ∃ length, (placed.1, length) ∈ pieces := by
  induction pieces generalizing start with
  | nil => cases member
  | cons piece pieces ih =>
      rcases List.mem_cons.mp member with rfl | later
      · exact ⟨piece.2, List.mem_cons_self⟩
      · obtain ⟨length, inside⟩ := ih _ later
        exact ⟨length, List.mem_cons_of_mem _ inside⟩

/-- Renaming the pieces does not move them. -/
theorem positions_map {γ : Type} (rename : β → γ) (start : Nat) (pieces : List (β × Nat)) :
    positions start (pieces.map (Prod.map rename id)) =
      (positions start pieces).map (Prod.map rename id) := by
  induction pieces generalizing start with
  | nil => rfl
  | cons piece pieces ih =>
      rw [List.map_cons, positions, positions, List.map_cons]
      exact congrArg _ (ih _)

variable {offset size} {start stop : Nat} {fields : List α}

/-- Placed one after the other, the pieces put each field at its offset. -/
theorem Laid.filled_positions (laid : Laid offset size start fields stop) :
    ((positions start (filled offset size start fields)).filterMap fun piece =>
      piece.1.map fun field => (field, piece.2)) = fields.map fun field => (field, offset field) := by
  induction fields generalizing start with
  | nil => rfl
  | cons first rest ih =>
      have inside := le_roundUp start (size first)
      rw [← laid.1] at inside
      have later := ih laid.2
      rw [filled]
      split
      · rename_i here
        rw [List.nil_append, positions, List.filterMap_cons, List.map_cons, ← here]
        rw [later]
        rfl
      · rw [List.singleton_append, positions, positions, List.filterMap_cons, List.filterMap_cons,
          List.map_cons, Nat.add_sub_cancel' inside, later]
        rfl

theorem Laid.filled_extent (laid : Laid offset size start fields stop) :
    start + extent (filled offset size start fields) = stop := by
  induction fields generalizing start with
  | nil =>
      cases laid
      rfl
  | cons first rest ih =>
      have inside := le_roundUp start (size first)
      rw [← laid.1] at inside
      have later := ih laid.2
      rw [filled]
      split
      · rw [List.nil_append, extent_cons]
        omega
      · rw [List.singleton_append, extent_cons, extent_cons]
        omega

/-- A gap that is not empty, or one of the fields with its own size. -/
def IsPiece (size : α → Nat) (fields : List α) : Option α × Nat → Prop
  | (none, gap) => 0 < gap
  | (some field, length) => field ∈ fields ∧ length = size field

theorem Laid.filled_pieces (laid : Laid offset size start fields stop) :
    ∀ piece ∈ filled offset size start fields, IsPiece size fields piece := by
  induction fields generalizing start with
  | nil => simp [filled]
  | cons first rest ih =>
      have inside := le_roundUp start (size first)
      rw [← laid.1] at inside
      intro piece member
      rw [filled] at member
      rcases List.mem_append.mp member with gap | later
      · split at gap
        · cases gap
        · rw [List.mem_singleton.mp gap]
          show 0 < offset first - start
          omega
      · rcases List.mem_cons.mp later with rfl | later
        · exact ⟨List.mem_cons_self, rfl⟩
        · have found := ih laid.2 piece later
          obtain ⟨kind, length⟩ := piece
          cases kind with
          | none => exact found
          | some field => exact ⟨List.mem_cons_of_mem _ found.1, found.2⟩

end Filled

end AlignedFields
