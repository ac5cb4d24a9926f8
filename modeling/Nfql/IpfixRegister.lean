import Mathlib.Data.List.Pairwise
import Nfql.IpfixLayout

set_option autoImplicit false

/- Registering an information element when memory may be short. -/
namespace Nfql

open AlignedFields

section Memory

/-- `ipfix_templ_t` as it lies in memory; `none` for a NULL array. -/
structure TemplMemory where
  arr : Option (List IpfixIe)
  len : Nat
  nextOffset : Nat
  deriving DecidableEq, Repr

/-- `calloc(1, sizeof(ipfix_templ_t))`. -/
def TemplMemory.empty : TemplMemory := ⟨none, 0, 0⟩

/-- `ipfix_templ_get_ie`. -/
def TemplMemory.getIe (templ : TemplMemory) (ieName : String) : Except Fault (Option IpfixIe) :=
  if templ.len = 0 then .ok none
  else
    match templ.arr with
    | none => .error .nullPointer
    | some arr => .ok ((arr.take templ.len).find? fun ie => decide (ieName = ie.name))

/-- `ipfix_templ_ie_register`, and whether it returns 0. When the array is not allocated,
its pointer is already overwritten and the offset of the next element already padded. -/
def TemplMemory.register (templ : TemplMemory) (ieName : String) (allocated : Bool) :
    Except Fault (Bool × TemplMemory) := do
  match ← templ.getIe ieName with
  | some _ => .ok (true, templ)
  | none =>
      let ieType := getIpfixType ieName
      if ieType = .unknown then .ok (false, templ)
      else
        let size := sizeT (ipfixIeTypeSizeof ieType)
        let nextOffset := paddedOffset templ.nextOffset size
        if allocated then do
          assert (nextOffset % size == 0) "new_ie->offset % new_ie->size == 0"
          let arr := (templ.arr.getD []).take templ.len
          .ok (true, ⟨some (arr ++ [⟨ieName, nextOffset, size, ieType⟩]), templ.len + 1,
            sizeT (nextOffset + size)⟩)
        else .ok (false, ⟨none, templ.len, nextOffset⟩)

/-- A template that has not lost its array. -/
def IpfixTempl.memory (templ : IpfixTempl) : TemplMemory where
  arr := if templ.arr.isEmpty then none else some templ.arr
  len := templ.arr.length
  nextOffset := templ.nextOffset

variable (templ : IpfixTempl) (ieName : String)

theorem memory_occupied (occupied : templ.arr ≠ []) :
    templ.memory = ⟨some templ.arr, templ.arr.length, templ.nextOffset⟩ := by
  rw [IpfixTempl.memory, List.isEmpty_eq_false_iff.mpr occupied, if_neg Bool.false_ne_true]

theorem memory_getIe : templ.memory.getIe ieName = .ok (ipfixTemplGetIe templ ieName) := by
  obtain ⟨arr, nextOffset⟩ := templ
  cases arr with
  | nil => rfl
  | cons ie rest =>
      simp only [TemplMemory.getIe, IpfixTempl.memory, List.length_cons, Nat.add_one_ne_zero,
        ↓reduceIte, List.isEmpty_cons, Bool.false_eq_true, ipfixTemplGetIe]
      rw [← List.length_cons, List.take_length]

theorem memory_arr : templ.memory.arr.getD [] = templ.arr := by
  obtain ⟨arr, nextOffset⟩ := templ
  cases arr <;> rfl

theorem memory_append (arr : List IpfixIe) (ie : IpfixIe) (nextOffset : Nat) :
    (IpfixTempl.mk (arr ++ [ie]) nextOffset).memory =
      ⟨some (arr ++ [ie]), arr.length + 1, nextOffset⟩ := by
  rw [memory_occupied _ (List.append_ne_nil_of_right_ne_nil _ (List.cons_ne_nil _ _)),
    List.length_append, List.length_singleton]

/-- What the caller sees of a registration for which memory was at hand. -/
def IpfixTempl.returned : Option IpfixTempl → Bool × TemplMemory
  | none => (false, templ.memory)
  | some registered => (true, registered.memory)

/-- With memory at hand the registration is the one of the template alone. -/
theorem register_allocated :
    templ.memory.register ieName true =
      (ipfixTemplIeRegister templ ieName).map templ.returned := by
  have offset : templ.memory.nextOffset = templ.nextOffset := rfl
  have length : templ.memory.len = templ.arr.length := rfl
  rw [TemplMemory.register, memory_getIe, ok_bind, memory_arr, offset, length, List.take_length,
    ipfixTemplIeRegister]
  cases found : ipfixTemplGetIe templ ieName with
  | some ie => rfl
  | none =>
      by_cases unknown : getIpfixType ieName = .unknown
      · simp only [unknown, ↓reduceIte, Option.isSome_none, Bool.false_eq_true, Except.map,
          IpfixTempl.returned]
      · simp only [unknown, ↓reduceIte, Option.isSome_none, Bool.false_eq_true]
        cases assert _ _ with
        | error fault => rfl
        | ok _ => exact congrArg (fun state => Except.ok (true, state)) (memory_append _ _ _).symm

end Memory

section Registration

/-- The registered element: it has its true size and an aligned place of its own, and the
elements that were there have kept theirs. -/
structure Entered (templ templ' : TemplMemory) (ieName : String) (arr : List IpfixIe)
    (ie : IpfixIe) : Prop where
  array : templ'.arr = some arr
  length : templ'.len = arr.length
  kept : templ.arr.getD [] <+: arr
  member : ie ∈ arr
  name : ie.name = ieName
  positive : 0 < ie.size
  size : (ie.size : Int) = ipfixIeTypeSizeof (getIpfixType ieName)
  aligned : ie.offset % ie.size = 0
  apart : ∀ other ∈ arr, other ≠ ie →
    ByteMemory.Apart other.offset other.size ie.offset ie.size
  lower : templ.nextOffset ≤ templ'.nextOffset
  upper : templ'.nextOffset ≤ templ.nextOffset + (15 + 16)

/-- The registration succeeds completely or leaves the template alone, and it refuses
elements without a fixed size. -/
def AllOrNothing (templ : TemplMemory) (ieName : String) (allocated : Bool) : Prop :=
  ∃ success templ', templ.register ieName allocated = .ok (success, templ') ∧
    (success = true → ∃ arr ie, Entered templ templ' ieName arr ie) ∧
    (success = false → templ' = templ) ∧ (¬ FixedSize ieName → success = false)

/-- The name is there already or is not known, or it has a fixed size and memory is at
hand, or a template that is still empty cannot be allocated. -/
def Registrable (templ : TemplMemory) (ieName : String) (allocated : Bool) : Prop :=
  (∃ ie, templ.getIe ieName = .ok (some ie)) ∨ getIpfixType ieName = .unknown ∨
    (FixedSize ieName ∧ allocated = true) ∨ (allocated = false ∧ templ = .empty)

/-- Registrations one after the other, whether they succeed or not. -/
def registerSteps : TemplMemory → List (String × Bool) → Except Fault TemplMemory
  | templ, [] => .ok templ
  | templ, (ieName, allocated) :: rest => do
      let (_, templ) ← templ.register ieName allocated
      registerSteps templ rest

/-- Each of the registrations meets the condition in the state that it finds. -/
def RegistrableSteps : TemplMemory → List (String × Bool) → Prop
  | _, [] => True
  | templ, (ieName, allocated) :: rest =>
      Registrable templ ieName allocated ∧ ∀ success templ',
        templ.register ieName allocated = .ok (success, templ') → RegistrableSteps templ' rest

variable {templ templ' : IpfixTempl} {ieName : String}

theorem IpfixTempl.Aligned.known (aligned : templ.Aligned) {ie : IpfixIe}
    (found : ipfixTemplGetIe templ ieName = some ie) : FixedSize ieName := by
  have listed := (ipfixTemplGetIe_isSome ieName).mp (by rw [found]; rfl : _ = true)
  obtain ⟨other, inside, rfl⟩ := List.mem_map.mp listed
  exact aligned.fixed other inside

/-- An element of an aligned template has been entered properly. -/
theorem IpfixTempl.Aligned.entered (aligned : templ'.Aligned) {ie : IpfixIe}
    (member : ie ∈ templ'.arr) (kept : templ.arr <+: templ'.arr)
    (lower : templ.nextOffset ≤ templ'.nextOffset)
    (upper : templ'.nextOffset ≤ templ.nextOffset + (15 + 16)) :
    Entered templ.memory templ'.memory ie.name templ'.arr ie where
  array := by rw [memory_occupied templ' (List.ne_nil_of_mem member)]
  length := rfl
  kept := by rwa [memory_arr]
  member := member
  name := rfl
  positive := (aligned.size_pos ie member).1
  size := by
    rw [aligned.sizes ie member]
    exact (sizeT_sizeof ie.name (aligned.fixed ie member)).1
  aligned := aligned.laid.aligned (fun ie member => (aligned.size_pos ie member).1) ie member
  apart := by
    have ordered := aligned.laid.ordered.imp
      (S := fun a b : IpfixIe => ByteMemory.Apart a.offset a.size b.offset b.size) Or.inl
    have symm : Std.Symm fun a b : IpfixIe => ByteMemory.Apart a.offset a.size b.offset b.size :=
      ⟨fun _ _ => ByteMemory.Apart.symm⟩
    exact fun other isElement differ => ordered.forall isElement member differ
  lower := lower
  upper := upper

/-- The registration is all or nothing, and the template is laid out after it as before. -/
def IpfixTempl.Registers (templ : IpfixTempl) (ieName : String) (allocated : Bool) : Prop :=
  AllOrNothing templ.memory ieName allocated ∧
    ∃ (success : Bool) (templ' : IpfixTempl), templ'.Aligned ∧
      templ.memory.register ieName allocated = .ok (success, templ'.memory)

theorem registers_known (aligned : templ.Aligned) (allocated : Bool) {ie : IpfixIe}
    (found : ipfixTemplGetIe templ ieName = some ie) : templ.Registers ieName allocated := by
  have run : templ.memory.register ieName allocated = .ok (true, templ.memory) := by
    rw [TemplMemory.register, memory_getIe, ok_bind, found]
  have member := List.mem_of_find?_eq_some found
  have name : ieName = ie.name := by
    have same := List.find?_some found
    exact of_decide_eq_true same
  have entered := aligned.entered member List.prefix_rfl (Nat.le_refl _) (Nat.le_add_right _ _)
  rw [← name] at entered
  refine ⟨⟨true, _, run, fun _ => ⟨_, ie, entered⟩, by simp, ?_⟩, true, templ, aligned, run⟩
  exact fun variable_size => absurd (aligned.known found) variable_size

theorem registers_refused (aligned : templ.Aligned) {allocated : Bool}
    (run : templ.memory.register ieName allocated = .ok (false, templ.memory)) :
    templ.Registers ieName allocated :=
  ⟨⟨false, _, run, by simp, fun _ => rfl, fun _ => rfl⟩, false, templ, aligned, run⟩

/-- An element of fixed size is entered at the next aligned offset. -/
theorem registers_fixed (aligned : templ.Aligned) (fixed : FixedSize ieName)
    (missing : ieName ∉ templ.arr.map IpfixIe.name) : templ.Registers ieName true := by
  obtain ⟨ie, templ', step, rfl, offset, arr, aligned'⟩ := register_new aligned ieName fixed missing
  have run := register_allocated templ ie.name
  rw [step] at run
  have member : ie ∈ templ'.arr := by simp [arr]
  have sizes := aligned'.size_pos ie member
  have stop := aligned'.laid.last ie (by simp [arr])
  have padding := roundUp_lt templ.nextOffset ie.size sizes.1
  have start := le_roundUp templ.nextOffset ie.size
  have kept : templ.arr <+: templ'.arr := arr ▸ List.prefix_append _ _
  have entered := aligned'.entered member kept (by omega) (by omega)
  exact ⟨⟨true, _, run, fun _ => ⟨_, ie, entered⟩, by simp,
    fun variable_size => absurd fixed variable_size⟩, true, templ', aligned', run⟩

/-- A registration that meets the condition is all or nothing, and keeps the layout. -/
theorem register_registrable (aligned : templ.Aligned) (allocated : Bool)
    (registrable : Registrable templ.memory ieName allocated) :
    templ.Registers ieName allocated := by
  cases found : ipfixTemplGetIe templ ieName with
  | some ie => exact registers_known aligned allocated found
  | none =>
      rcases registrable with ⟨ie, known⟩ | unknown | ⟨fixed, rfl⟩ | ⟨rfl, isEmpty⟩
      · rw [memory_getIe, found] at known
        cases known
      · apply registers_refused aligned
        rw [TemplMemory.register, memory_getIe, ok_bind, found]
        simp only [unknown, ↓reduceIte]
      · apply registers_fixed aligned fixed
        rw [← ipfixTemplGetIe_isSome, found]
        simp
      · apply registers_refused aligned
        by_cases unknown : getIpfixType ieName = .unknown
        · rw [TemplMemory.register, memory_getIe, ok_bind, found]
          simp only [unknown, ↓reduceIte]
        · -- offset 0 needs no padding, and there was no array to lose
          rw [TemplMemory.register, memory_getIe, ok_bind, found]
          simp only [unknown, ↓reduceIte, Bool.false_eq_true, isEmpty, TemplMemory.empty,
            paddedOffset, Nat.zero_mod, ne_eq, not_true_eq_false]

/-- A registration that does not meet the condition loses the array or enters an element
that has no size. -/
theorem registrable_of_allOrNothing (aligned : templ.Aligned) (allocated : Bool)
    (allOrNothing : AllOrNothing templ.memory ieName allocated) :
    Registrable templ.memory ieName allocated := by
  obtain ⟨success, state, run, -, failed, refused⟩ := allOrNothing
  rw [TemplMemory.register, memory_getIe, ok_bind] at run
  cases found : ipfixTemplGetIe templ ieName with
  | some ie => exact .inl ⟨ie, by rw [memory_getIe, found]⟩
  | none =>
      by_cases unknown : getIpfixType ieName = .unknown
      · exact .inr (.inl unknown)
      simp only [found, unknown, ↓reduceIte] at run
      cases allocated with
      | true =>
          refine .inr (.inr (.inl ⟨?_, rfl⟩))
          by_contra variable_size
          have no := refused variable_size
          obtain ⟨_, -, result⟩ := bind_eq_ok run
          cases result
          cases no
      | false =>
          simp only [Bool.false_eq_true, ↓reduceIte] at run
          cases run
          have same := failed rfl
          have nothing : templ.arr = [] := by
            by_contra occupied
            rw [memory_occupied templ occupied] at same
            cases congrArg TemplMemory.arr same
          have start : 0 = templ.nextOffset := by
            have laid := aligned.laid
            rw [nothing] at laid
            exact laid
          refine .inr (.inr (.inr ⟨rfl, ?_⟩))
          rw [IpfixTempl.memory, nothing, ← start]
          rfl

theorem allOrNothing_iff (aligned : templ.Aligned) (allocated : Bool) :
    AllOrNothing templ.memory ieName allocated ↔ Registrable templ.memory ieName allocated :=
  ⟨registrable_of_allOrNothing aligned allocated,
    fun registrable => (register_registrable aligned allocated registrable).1⟩

/-- A run of such registrations ends in a template that has kept its layout. -/
theorem registerSteps_aligned (aligned : templ.Aligned) (steps : List (String × Bool))
    (registrable : RegistrableSteps templ.memory steps) :
    ∃ templ' : IpfixTempl, templ'.Aligned ∧
      registerSteps templ.memory steps = .ok templ'.memory := by
  induction steps generalizing templ with
  | nil => exact ⟨templ, aligned, rfl⟩
  | cons first rest ih =>
      obtain ⟨ieName, allocated⟩ := first
      obtain ⟨-, success, next, aligned', run⟩ :=
        register_registrable aligned allocated registrable.1
      obtain ⟨templ', aligned'', later⟩ := ih aligned' (registrable.2 success _ run)
      refine ⟨templ', aligned'', ?_⟩
      rw [registerSteps, run]
      exact later

end Registration

/-- In every run of registrations that meet the condition, the next registration is all or
nothing exactly if it meets the condition too. -/
theorem register_allOrNothing_iff (steps : List (String × Bool))
    (registrable : RegistrableSteps .empty steps) :
    ∃ templ, registerSteps .empty steps = .ok templ ∧ ∀ (ieName : String) (allocated : Bool),
      AllOrNothing templ ieName allocated ↔ Registrable templ ieName allocated := by
  obtain ⟨templ, aligned, run⟩ :=
    registerSteps_aligned IpfixTempl.Aligned.empty steps registrable
  exact ⟨templ.memory, run, fun ieName allocated => allOrNothing_iff aligned allocated⟩

theorem register_allOrNothing_again :
    ∃ templ, registerSteps .empty [("flowStartMilliseconds", true)] = .ok templ ∧
      ∀ (ieName : String) (allocated : Bool),
        AllOrNothing templ ieName allocated ↔ Registrable templ ieName allocated :=
  register_allOrNothing_iff [("flowStartMilliseconds", true)]
    ⟨.inr (.inr (.inl ⟨by decide +kernel, rfl⟩)), fun _ _ _ => trivial⟩

/-- An element of a string type is registered, with a size of 2^64 - 1. -/
theorem register_fail :
    ¬ ∀ (steps : List (String × Bool)) (templ : TemplMemory),
      registerSteps .empty steps = .ok templ → ∀ (ieName : String) (allocated : Bool),
        AllOrNothing templ ieName allocated := by
  intro allOrNothing
  obtain ⟨success, templ', run, -, -, refused⟩ := allOrNothing [] .empty rfl "VRFname" true
  have failed := refused (by decide +kernel)
  subst failed
  have registered : (TemplMemory.empty.register "VRFname" true).map Prod.fst = .ok true := by
    decide +kernel
  rw [run] at registered
  cases registered

end Nfql
