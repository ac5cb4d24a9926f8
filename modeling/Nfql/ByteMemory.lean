import Mathlib.Algebra.Order.Ring.Nat

set_option autoImplicit false

/- Byte-addressed memory with little-endian loads and stores of any width. -/
namespace ByteMemory

/-- The bytes behind a pointer, by offset. -/
abbrev Memory := Nat → BitVec 8

/-- The little-endian value of the `count` bytes from `offset` on. -/
def load (memory : Memory) (offset : Nat) : Nat → Nat
  | 0 => 0
  | count + 1 => (memory offset).toNat + 256 * load memory (offset + 1) count

/-- Overwrite the `count` bytes from `offset` on with the low bytes of `value`. -/
def store (memory : Memory) (offset count value : Nat) : Memory := fun index =>
  if offset ≤ index ∧ index < offset + count then
    BitVec.ofNat 8 (value / 256 ^ (index - offset))
  else memory index

/-- The two byte ranges share no position. -/
def Apart (offset count offset' count' : Nat) : Prop :=
  offset + count ≤ offset' ∨ offset' + count' ≤ offset

theorem Apart.symm {offset count offset' count' : Nat}
    (apart : Apart offset count offset' count') : Apart offset' count' offset count :=
  Or.symm apart

theorem load_lt (memory : Memory) (offset count : Nat) :
    load memory offset count < 256 ^ count := by
  induction count generalizing offset with
  | zero => simp [load]
  | succ count ih =>
      have low := (memory offset).isLt
      have high := ih (offset + 1)
      rw [load, Nat.pow_succ]
      omega

/-- A load depends only on the bytes it covers. -/
theorem load_congr (memory memory' : Memory) (offset count : Nat)
    (same : ∀ index, offset ≤ index → index < offset + count → memory index = memory' index) :
    load memory offset count = load memory' offset count := by
  induction count generalizing offset with
  | zero => rfl
  | succ count ih =>
      rw [load, load, same offset (Nat.le_refl _) (by omega),
        ih (offset + 1) (fun index lower upper => same index (by omega) (by omega))]

/-- Byte `index` of a loaded value is the byte of memory it came from. -/
theorem load_byte (memory : Memory) (offset count index : Nat) (inside : index < count) :
    BitVec.ofNat 8 (load memory offset count / 256 ^ index) = memory (offset + index) := by
  induction count generalizing offset index with
  | zero => omega
  | succ count ih =>
      have low := (memory offset).isLt
      cases index with
      | zero =>
          apply BitVec.eq_of_toNat_eq
          simp only [load, BitVec.toNat_ofNat, Nat.pow_zero, Nat.div_one, Nat.add_zero]
          omega
      | succ index =>
          have shifted : load memory offset (count + 1) / 256 ^ (index + 1) =
              load memory (offset + 1) count / 256 ^ index := by
            rw [load, Nat.pow_succ', ← Nat.div_div_eq_div_mul]
            congr 1
            omega
          rw [shifted, ih (offset + 1) index (by omega), Nat.add_assoc, Nat.add_comm 1]

/-- Memory that was never written holds 0 everywhere. -/
theorem load_zero (offset count : Nat) : load (fun _ => 0#8) offset count = 0 := by
  induction count generalizing offset with
  | zero => rfl
  | succ count ih => simp [load, ih]

/-- Equal loaded values come from equal bytes. -/
theorem load_injective (memory memory' : Memory) (offset count : Nat)
    (same : load memory offset count = load memory' offset count) (index : Nat)
    (lower : offset ≤ index) (upper : index < offset + count) :
    memory index = memory' index := by
  have left := load_byte memory offset count (index - offset) (by omega)
  have right := load_byte memory' offset count (index - offset) (by omega)
  rw [Nat.add_sub_cancel' lower] at left right
  rw [← left, ← right, same]

theorem store_inside (memory : Memory) (offset count value index : Nat)
    (lower : offset ≤ index) (upper : index < offset + count) :
    store memory offset count value index = BitVec.ofNat 8 (value / 256 ^ (index - offset)) := by
  simp only [store, lower, upper, and_self, ↓reduceIte]

theorem store_outside (memory : Memory) (offset count value index : Nat)
    (outside : index < offset ∨ offset + count ≤ index) :
    store memory offset count value index = memory index := by
  have absent : ¬ (offset ≤ index ∧ index < offset + count) := by omega
  simp only [store, absent, ↓reduceIte]

/-- Storing a loaded value copies its bytes and frames every other byte. -/
theorem store_load (memory source : Memory) (offset count index : Nat) :
    store memory offset count (load source offset count) index =
      if offset ≤ index ∧ index < offset + count then source index else memory index := by
  by_cases inside : offset ≤ index ∧ index < offset + count
  · rw [store_inside _ _ _ _ _ inside.1 inside.2,
      load_byte source offset count (index - offset) (by omega),
      Nat.add_sub_cancel' inside.1]
    simp only [inside, and_self, ↓reduceIte]
  · simp only [store, inside, ↓reduceIte]

theorem load_store_apart (memory : Memory) (offset count value offset' count' : Nat)
    (apart : Apart offset count offset' count') :
    load (store memory offset count value) offset' count' = load memory offset' count' := by
  apply load_congr
  intro index lower upper
  apply store_outside
  rcases apart with before | after
  · exact Or.inr (by omega)
  · exact Or.inl (by omega)

private theorem load_of_bytes (memory : Memory) (offset count value : Nat)
    (bytes : ∀ index, index < count →
      memory (offset + index) = BitVec.ofNat 8 (value / 256 ^ index)) :
    load memory offset count = value % 256 ^ count := by
  induction count generalizing offset value with
  | zero => simp [load, Nat.mod_one]
  | succ count ih =>
      have first := bytes 0 (by omega)
      have rest := ih (offset + 1) (value / 256) (by
        intro index inside
        have byte := bytes (index + 1) (by omega)
        rw [Nat.div_div_eq_div_mul, ← Nat.pow_succ']
        rwa [show offset + 1 + index = offset + (index + 1) by omega])
      rw [load, rest]
      rw [Nat.add_zero, Nat.pow_zero, Nat.div_one] at first
      have split : 256 ^ (count + 1) = 256 * 256 ^ count := Nat.pow_succ'
      rw [first, BitVec.toNat_ofNat, split, Nat.mod_mul]

/-- Reading back a stored value truncates it to the stored width. -/
theorem load_store_same (memory : Memory) (offset count value : Nat) :
    load (store memory offset count value) offset count = value % 256 ^ count := by
  apply load_of_bytes
  intro index inside
  rw [store_inside _ _ _ _ _ (by omega) (by omega), Nat.add_sub_cancel_left]

section LastCovering

variable {α : Type} (covers : α → Bool)

/-- The last of some writes that covers a position. -/
def lastCovering (writes : List α) : Option α := writes.reverse.find? covers

theorem lastCovering_snoc (writes : List α) (write : α) :
    lastCovering covers (writes ++ [write]) =
      if covers write then some write else lastCovering covers writes := by
  rw [lastCovering, List.reverse_append, List.reverse_singleton, List.singleton_append,
    List.find?_cons]
  cases covers write <;> rfl

variable {covers}

theorem lastCovering_some {writes : List α} {write : α}
    (last : lastCovering covers writes = some write) : write ∈ writes ∧ covers write = true :=
  ⟨List.mem_reverse.mp (List.mem_of_find?_eq_some last), List.find?_some last⟩

end LastCovering

end ByteMemory
