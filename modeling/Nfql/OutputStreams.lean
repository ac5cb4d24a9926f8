import Mathlib.Data.Finset.Basic
import Nfql.Emissions
import Nfql.Interleavings

set_option autoImplicit false

/- Files that are written through streams: a stream is created, which empties its file,
written record by record, and closed. -/
namespace OutputStreams

open Emissions Interleavings

inductive StreamOp (φ ρ : Type) where
  | create (file : φ)
  | write (file : φ) (record : ρ)
  | close (file : φ)
  deriving DecidableEq, Repr

variable {φ ψ ρ : Type}

def StreamOp.file : StreamOp φ ρ → φ
  | .create file | .write file _ | .close file => file

def StreamOp.rename (name : φ → ψ) : StreamOp φ ρ → StreamOp ψ ρ
  | .create file => .create (name file)
  | .write file record => .write (name file) record
  | .close file => .close (name file)

@[simp] theorem StreamOp.rename_file (name : φ → ψ) (op : StreamOp φ ρ) :
    (op.rename name).file = name op.file := by
  cases op <;> rfl

section Contents

/-- What the files of a directory hold; `none` where there is no file. -/
abbrev Directory (φ ρ : Type) := φ → Option (List ρ)

variable [DecidableEq φ] [DecidableEq ψ]

def StreamOp.apply (op : StreamOp φ ρ) (directory : Directory φ ρ) : Directory φ ρ :=
  match op with
  | .create file => Function.update directory file (some [])
  | .write file record =>
      Function.update directory file ((directory file).map (· ++ [record]))
  | .close _ => directory

def replay (ops : List (StreamOp φ ρ)) (directory : Directory φ ρ) : Directory φ ρ :=
  ops.foldl (fun directory op => op.apply directory) directory

@[simp] theorem replay_nil (directory : Directory φ ρ) : replay [] directory = directory := rfl

@[simp] theorem replay_cons (op : StreamOp φ ρ) (ops : List (StreamOp φ ρ))
    (directory : Directory φ ρ) : replay (op :: ops) directory = replay ops (op.apply directory) :=
  rfl

theorem replay_append (first second : List (StreamOp φ ρ)) (directory : Directory φ ρ) :
    replay (first ++ second) directory = replay second (replay first directory) :=
  List.foldl_append

theorem StreamOp.apply_other (op : StreamOp φ ρ) (directory : Directory φ ρ) (file : φ)
    (other : op.file ≠ file) : op.apply directory file = directory file := by
  cases op with
  | create => exact Function.update_of_ne other.symm ..
  | write => exact Function.update_of_ne other.symm ..
  | close => rfl

theorem StreamOp.apply_congr (op : StreamOp φ ρ) (directory directory' : Directory φ ρ) (file : φ)
    (same : directory file = directory' file) :
    op.apply directory file = op.apply directory' file := by
  by_cases here : op.file = file
  · subst here
    cases op with
    | create => simp only [apply, StreamOp.file, Function.update_self]
    | write =>
        simp only [StreamOp.file] at same
        simp only [apply, StreamOp.file, Function.update_self, same]
    | close => exact same
  · rw [op.apply_other directory file here, op.apply_other directory' file here, same]

/-- What a file holds depends on the operations on that file alone. -/
theorem replay_filter (keep : StreamOp φ ρ → Bool) (file : φ) (ops : List (StreamOp φ ρ))
    (kept : ∀ op ∈ ops, op.file = file → keep op = true) (directory directory' : Directory φ ρ)
    (same : directory file = directory' file) :
    replay ops directory file = replay (ops.filter keep) directory' file := by
  induction ops generalizing directory directory' with
  | nil => exact same
  | cons op ops ih =>
      have later := ih fun other member => kept other (List.mem_cons_of_mem _ member)
      by_cases here : keep op = true
      · rw [List.filter_cons_of_pos here, replay_cons, replay_cons]
        exact later _ _ (op.apply_congr directory directory' file same)
      · rw [List.filter_cons_of_neg here, replay_cons]
        refine later _ _ ((op.apply_other directory file ?_).trans same)
        exact fun same => here (kept op List.mem_cons_self same)

/-- A file without operations is left alone. -/
theorem replay_untouched (file : φ) (ops : List (StreamOp φ ρ))
    (others : ∀ op ∈ ops, op.file ≠ file) (directory : Directory φ ρ) :
    replay ops directory file = directory file := by
  have none := replay_filter (fun _ => false) file ops
    (fun op member same => absurd same (others op member)) directory directory rfl
  rwa [List.filter_false] at none

/-- Files with different names do not get in each other's way. -/
theorem replay_rename (name : φ → ψ) (injective : Function.Injective name)
    (ops : List (StreamOp φ ρ)) (directory : Directory ψ ρ) (file : φ) :
    replay (ops.map (StreamOp.rename name)) directory (name file) =
      replay ops (fun file => directory (name file)) file := by
  induction ops generalizing directory with
  | nil => rfl
  | cons op ops ih =>
      rw [List.map_cons, replay_cons, ih, replay_cons]
      apply congrArg (fun directory : Directory φ ρ => replay ops directory file)
      cases op with
      | create => exact Function.update_comp_eq_of_injective directory injective _ _
      | write => exact Function.update_comp_eq_of_injective directory injective _ _
      | close => rfl

/-- What a file holds after an interleaving of threads that work on files of their own
is what it holds after its thread. -/
theorem interleaved_replay {ι : Type} [DecidableEq ι] (owner : φ → ι)
    {threads : ι → List (StreamOp φ ρ)} {schedule : List (StreamOp φ ρ)}
    (run : Interleaves threads schedule) (owned : Owned (fun op => owner op.file) threads)
    (directory : Directory φ ρ) (file : φ) :
    replay schedule directory file = replay (threads (owner file)) directory file := by
  rw [replay_filter (fun op => owner op.file = owner file) file schedule
    (fun op _ same => by rw [same, decide_eq_true_eq]) directory directory rfl]
  rw [run.own (fun op => owner op.file) owned (owner file)]

end Contents

section Filling

variable [DecidableEq φ] {ε α β : Type}

/-- What operations make of what a file holds. -/
def content (file : φ) (ops : List (StreamOp φ ρ)) (before : Option (List ρ)) :
    Option (List ρ) := replay ops (fun _ => before) file

theorem replay_content (file : φ) (ops : List (StreamOp φ ρ)) (directory : Directory φ ρ) :
    replay ops directory file = content file ops (directory file) := by
  have same := replay_filter (fun _ => true) file ops (fun _ _ _ => rfl) directory
    (fun _ => directory file) rfl
  rwa [List.filter_true] at same

theorem content_append (file : φ) (first second : List (StreamOp φ ρ)) (before : Option (List ρ)) :
    content file (first ++ second) before = content file second (content file first before) := by
  rw [content, replay_append, replay_content]
  rfl

/-- If the run succeeds then its result and what the file holds afterwards are related. -/
def Fills (file : φ) (before : Option (List ρ)) (run : Emitted (StreamOp φ ρ) ε α)
    (after : α → Option (List ρ) → Prop) : Prop :=
  ∀ value, run.result = .ok value → after value (content file run.actions before)

variable {file : φ} {before : Option (List ρ)} {run : Emitted (StreamOp φ ρ) ε α}
  {after : α → Option (List ρ) → Prop}

theorem Fills.imp {after' : α → Option (List ρ) → Prop} (fills : Fills file before run after)
    (weaker : ∀ value held, after value held → after' value held) :
    Fills file before run after' :=
  fun value success => weaker value _ (fills value success)

theorem Fills.pure {value : α} (holds : after value before) :
    Fills file before (pure value : Emitted (StreamOp φ ρ) ε α) after := by
  intro result success
  cases success
  exact holds

theorem Fills.of {result : Except ε α} (holds : ∀ value, result = .ok value → after value before) :
    Fills file before (Emitted.of result : Emitted (StreamOp φ ρ) ε α) after :=
  fun value success => holds value success

theorem Fills.error (fault : ε) :
    Fills file before (Emitted.error fault : Emitted (StreamOp φ ρ) ε α) after :=
  fun _ success => nomatch success

/-- What the first part leaves is what the second part finds. -/
theorem Fills.bind {next : α → Emitted (StreamOp φ ρ) ε β} {later : β → Option (List ρ) → Prop}
    (first : Fills file before run after)
    (second : ∀ value held, run.result = .ok value → after value held →
      Fills file held (next value) later) : Fills file before (run >>= next) later := by
  intro result success
  cases ended : run.result with
  | error fault =>
      rw [Emitted.bind_result, ended] at success
      cases success
  | ok value =>
      rw [Emitted.bind_result, ended] at success
      rw [Emitted.bind_actions_of_ok next ended, content_append]
      exact second value _ ended (first value ended) result success

/-- What holds between the turns of a loop holds after it. -/
theorem Fills.foldlM {items : List β} {body : α → β → Emitted (StreamOp φ ρ) ε α} {start : α}
    (invariant : List β → α → Option (List ρ) → Prop) (holds : invariant items start before)
    (turn : ∀ item rest value held, item :: rest <:+ items → invariant (item :: rest) value held →
      Fills file held (body value item) (invariant rest)) :
    Fills file before (items.foldlM body start) (invariant []) := by
  induction items generalizing start before with
  | nil => exact Fills.pure holds
  | cons item rest ih =>
      rw [List.foldlM_cons]
      refine (turn item rest start before List.suffix_rfl holds).bind fun value held _ invariant' => ?_
      refine ih invariant' fun other later value held suffix => ?_
      exact turn other later value held (suffix.trans (List.suffix_cons item rest))

theorem Fills.forM {items : List β} {body : β → Emitted (StreamOp φ ρ) ε Unit}
    (invariant : List β → Option (List ρ) → Prop) (holds : invariant items before)
    (turn : ∀ item rest held, item :: rest <:+ items → invariant (item :: rest) held →
      Fills file held (body item) fun _ => invariant rest) :
    Fills file before (items.forM body) fun _ => invariant [] := by
  induction items generalizing before with
  | nil => exact Fills.pure holds
  | cons item rest ih =>
      refine (turn item rest before List.suffix_rfl holds).bind fun value held _ invariant' => ?_
      refine ih invariant' fun other later held suffix => ?_
      exact turn other later held (suffix.trans (List.suffix_cons item rest))

/-- A run that performs nothing on a file leaves it alone. -/
theorem Fills.untouched (others : ∀ op ∈ run.actions, op.file ≠ file) :
    Fills file before run fun _ held => held = before :=
  fun _ _ => replay_untouched file _ others _

end Filling

section Refusals

/-- A file system grants an operation or refuses it, after those that it has performed. -/
abbrev FileSystem (φ ρ : Type) := List (StreamOp φ ρ) → StreamOp φ ρ → Bool

/-- Each of the operations is granted after those before it. -/
def Grants (fileSystem : FileSystem φ ρ) (ops : List (StreamOp φ ρ)) : Prop :=
  ∀ before op after, ops = before ++ op :: after → fileSystem before op = true

variable {fileSystem : FileSystem φ ρ}

theorem Grants.nil : Grants fileSystem [] := by
  intro before op after none
  simp at none

theorem Grants.snoc {ops : List (StreamOp φ ρ)} {op : StreamOp φ ρ}
    (granted : Grants fileSystem ops) (last : fileSystem ops op = true) :
    Grants fileSystem (ops ++ [op]) := by
  intro before other after whole
  rcases List.append_eq_append_iff.mp whole with ⟨between, rfl, rest⟩ | ⟨between, rfl, rest⟩
  · cases between with
    | nil =>
        cases rest
        rw [List.append_nil]
        exact last
    | cons head between => simp at rest
  · cases between with
    | nil =>
        cases rest
        rw [List.append_nil] at last
        exact last
    | cons head between =>
        cases rest
        exact granted before other between rfl

/-- Operations are granted up to the first that is refused. -/
theorem grants_or_refuses (fileSystem : FileSystem φ ρ) (ops : List (StreamOp φ ρ)) :
    Grants fileSystem ops ∨ ∃ before op after, ops = before ++ op :: after ∧
      Grants fileSystem before ∧ fileSystem before op = false := by
  induction ops using List.reverseRecOn with
  | nil => exact .inl Grants.nil
  | append_singleton ops op ih =>
      rcases ih with granted | ⟨before, other, after, rfl, granted, refused⟩
      · cases last : fileSystem ops op with
        | true => exact .inl (granted.snoc last)
        | false => exact .inr ⟨ops, op, [], rfl, granted, last⟩
      · exact .inr ⟨before, other, after ++ [op], by simp, granted, refused⟩

end Refusals

section Protocol

variable [DecidableEq φ]

/-- The protocol of the streams: what is created is not yet open, and what is written or
closed is. The state is the set of the open files. -/
def StreamOp.step (opened : Finset φ) : StreamOp φ ρ → Option (Finset φ)
  | .create file => if file ∈ opened then none else some (insert file opened)
  | .write file _ => if file ∈ opened then some opened else none
  | .close file => if file ∈ opened then some (opened.erase file) else none

theorem StreamOp.step_create {file : φ} {opened : Finset φ} (fresh : file ∉ opened) :
    StreamOp.step opened (.create file : StreamOp φ ρ) = some (insert file opened) := if_neg fresh

theorem StreamOp.step_write {file : φ} {opened : Finset φ} (isOpen : file ∈ opened) (record : ρ) :
    StreamOp.step opened (.write file record) = some opened := if_pos isOpen

theorem StreamOp.step_close {file : φ} {opened : Finset φ} (isOpen : file ∈ opened) :
    StreamOp.step opened (.close file : StreamOp φ ρ) = some (opened.erase file) := if_pos isOpen

/-- The protocol, for some of the files only. -/
def StreamOp.stepOn (mine : φ → Prop) [DecidablePred mine] (opened : Finset φ)
    (op : StreamOp φ ρ) : Option (Finset φ) :=
  if mine op.file then StreamOp.step opened op else none

theorem StreamOp.stepOn_step {mine : φ → Prop} [DecidablePred mine] (opened : Finset φ)
    (op : StreamOp φ ρ) (next : Finset φ) (taken : StreamOp.stepOn mine opened op = some next) :
    StreamOp.step opened op = some next := by
  rw [stepOn] at taken
  split at taken
  · exact taken
  · cases taken

theorem StreamOp.stepOn_mine {mine : φ → Prop} [DecidablePred mine] {opened next : Finset φ}
    {op : StreamOp φ ρ} (taken : StreamOp.stepOn mine opened op = some next) : mine op.file := by
  rw [stepOn] at taken
  split at taken
  · assumption
  · cases taken

/-- The protocol for more files allows more. -/
theorem StreamOp.stepOn_imp {mine mine' : φ → Prop} [DecidablePred mine] [DecidablePred mine']
    (more : ∀ file, mine file → mine' file) (opened : Finset φ) (op : StreamOp φ ρ)
    (next : Finset φ) (taken : StreamOp.stepOn mine opened op = some next) :
    StreamOp.stepOn mine' opened op = some next := by
  rw [stepOn, if_pos (more _ (stepOn_mine taken))]
  exact stepOn_step opened op next taken

variable {ι : Type} [DecidableEq ι] (owner : φ → ι)

/-- What the protocol says of a thread's operation depends on the files that this thread
has open, and the others keep theirs. -/
theorem StreamOp.step_owned (opened mine : Finset φ) (op : StreamOp φ ρ) (thread : ι)
    (own : owner op.file = thread)
    (taken : StreamOp.step (opened.filter fun file => owner file = thread) op = some mine) :
    ∃ next, StreamOp.step opened op = some next ∧
      (next.filter fun file => owner file = thread) = mine ∧
      ∀ other, other ≠ thread →
        (next.filter fun file => owner file = other) = opened.filter fun file => owner file = other := by
  have mem (file : φ) (own : owner file = thread) :
      file ∈ (opened.filter fun file => owner file = thread) ↔ file ∈ opened := by
    rw [Finset.mem_filter, and_iff_left own]
  cases op with
  | create file =>
      have own : owner file = thread := own
      simp only [step, mem file own] at taken
      by_cases isOpen : file ∈ opened
      · rw [if_pos isOpen] at taken
        cases taken
      · rw [if_neg isOpen, Option.some.injEq] at taken
        refine ⟨_, step_create isOpen, ?_, ?_⟩
        · rw [Finset.filter_insert, if_pos own, taken]
        · intro other apart
          rw [Finset.filter_insert, if_neg (own.trans_ne apart.symm)]
  | write file record =>
      have own : owner file = thread := own
      simp only [step, mem file own] at taken
      by_cases isOpen : file ∈ opened
      · rw [if_pos isOpen, Option.some.injEq] at taken
        exact ⟨opened, step_write isOpen record, taken, fun _ _ => rfl⟩
      · rw [if_neg isOpen] at taken
        cases taken
  | close file =>
      have own : owner file = thread := own
      simp only [step, mem file own] at taken
      by_cases isOpen : file ∈ opened
      · rw [if_pos isOpen, Option.some.injEq] at taken
        refine ⟨_, step_close isOpen, ?_, ?_⟩
        · rw [Finset.filter_erase, taken]
        · intro other apart
          rw [Finset.filter_erase, Finset.erase_eq_of_notMem]
          exact fun inside => apart ((Finset.mem_filter.mp inside).2.symm.trans own)
      · rw [if_neg isOpen] at taken
        cases taken

/-- Threads that keep to the protocol, each on files of its own, keep to it in every
interleaving: at each moment everyone's open files are as if it ran alone. -/
theorem interleaved_safe {P : ι → Finset φ → Prop} {threads rest : ι → List (StreamOp φ ρ)}
    {schedule : List (StreamOp φ ρ)} (run : Runs threads schedule rest)
    (owned : Owned (fun op => owner op.file) threads) (opened : Finset φ)
    (safe : ∀ thread,
      Safe StreamOp.step (P thread) (opened.filter fun file => owner file = thread)
        (threads thread)) :
    ∃ reached, follow StreamOp.step opened schedule = some reached ∧ ∀ thread,
      Safe StreamOp.step (P thread) (reached.filter fun file => owner file = thread)
          (rest thread) ∧
        follow StreamOp.step (reached.filter fun file => owner file = thread) (rest thread) =
          follow StreamOp.step (opened.filter fun file => owner file = thread)
            (threads thread) := by
  induction run generalizing opened with
  | done threads => exact ⟨opened, rfl, fun thread => ⟨safe thread, rfl⟩⟩
  | @step threads rest schedule turn action later next _ ih =>
      have own : owner action.file = turn :=
        owned turn action (by rw [next]; exact List.mem_cons_self)
      have mine := safe turn
      rw [next] at mine
      obtain ⟨-, state, taken, remaining⟩ := mine
      obtain ⟨opened', step, here, there⟩ := action.step_owned owner opened state turn own taken
      obtain ⟨reached, followed, ends⟩ := ih (owned.later next) opened' (by
        intro thread
        by_cases same : thread = turn
        · subst same
          rw [here, Function.update_self]
          exact remaining
        · rw [there thread same, Function.update_of_ne same]
          exact safe thread)
      refine ⟨reached, by rw [follow_cons schedule step, followed], fun thread => ?_⟩
      obtain ⟨holds, same⟩ := ends thread
      refine ⟨holds, same.trans ?_⟩
      by_cases same : thread = turn
      · subst same
        rw [here, Function.update_self, next, follow_cons later taken]
      · rw [there thread same, Function.update_of_ne same]

end Protocol

end OutputStreams
