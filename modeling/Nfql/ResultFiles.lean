import Nfql.OutputStreams
import Nfql.StageFiles

set_option autoImplicit false

/- The files of the result directory, those of the grouper and of all other stages. -/
namespace Nfql

open Emissions OutputStreams

section Names

/-- A stream's number is the loop's `int i`. -/
inductive ResultFile where
  | filteredRecords (branchId : Nat)
  | grouper (file : StageFile)
  | filteredGroups (branchId : Nat)
  | mergedGroups
  | toBeMergedGroups
  | stream (index : Nat)
  deriving DecidableEq, Repr

/-- The names that `asprintf` makes. -/
def ResultFile.name (dirpath suffix : String) : ResultFile → String
  | .filteredRecords branchId =>
      dirpath ++ "/filter-branch-" ++ toString branchId ++ "-filtered-records." ++ suffix
  | .grouper file => file.name dirpath suffix
  | .filteredGroups branchId =>
      dirpath ++ "/groupfilter-branch-" ++ toString branchId ++ "-filtered-groups." ++ suffix
  | .mergedGroups => dirpath ++ "/merger-merged-groups." ++ suffix
  | .toBeMergedGroups => dirpath ++ "/merger-to-be-merged-groups." ++ suffix
  | .stream index => dirpath ++ "/ungrouper-stream-" ++ toString index ++ "." ++ suffix

/-- The first nine characters after the directory tell which kind of file it is. -/
def ResultFile.kind : ResultFile → String
  | .filteredRecords _ => "/filter-b"
  | .grouper _ => "/grouper-"
  | .filteredGroups _ => "/groupfil"
  | .mergedGroups => "/merger-m"
  | .toBeMergedGroups => "/merger-t"
  | .stream _ => "/ungroupe"

theorem ResultFile.name_kind (dirpath suffix : String) (file : ResultFile) :
    ((file.name dirpath suffix).toList.drop dirpath.toList.length).take 9 = file.kind.toList := by
  cases file <;>
    simp only [name, kind, StageFile.name, String.append_assoc, String.toList_append,
      List.drop_left] <;>
    rw [List.take_append_of_le_length (by decide)] <;> decide

/-- Different files of the result directory have different names. -/
theorem ResultFile.name_injective (dirpath suffix : String) :
    Function.Injective (ResultFile.name dirpath suffix) := by
  intro file other same
  have kinds : file.kind = other.kind := by
    rw [← String.toList_inj, ← name_kind dirpath suffix, ← name_kind dirpath suffix, same]
  cases file with
  | filteredRecords branchId =>
      cases other with
      | filteredRecords branchId' =>
          rw [name, name, String.append_left_inj, String.append_left_inj,
            String.append_right_inj] at same
          exact congrArg _ (Nat.repr_injective same)
      | _ => exact absurd kinds (by simp only [kind]; decide)
  | grouper stageFile =>
      cases other with
      | grouper stageFile' => exact congrArg _ (StageFile.name_injective dirpath suffix same)
      | _ => exact absurd kinds (by simp only [kind]; decide)
  | filteredGroups branchId =>
      cases other with
      | filteredGroups branchId' =>
          rw [name, name, String.append_left_inj, String.append_left_inj,
            String.append_right_inj] at same
          exact congrArg _ (Nat.repr_injective same)
      | _ => exact absurd kinds (by simp only [kind]; decide)
  | mergedGroups =>
      cases other with
      | mergedGroups => rfl
      | _ => exact absurd kinds (by simp only [kind]; decide)
  | toBeMergedGroups =>
      cases other with
      | toBeMergedGroups => rfl
      | _ => exact absurd kinds (by simp only [kind]; decide)
  | stream index =>
      cases other with
      | stream index' =>
          rw [name, name, String.append_left_inj, String.append_left_inj,
            String.append_right_inj] at same
          exact congrArg _ (Nat.repr_injective same)
      | _ => exact absurd kinds (by simp only [kind]; decide)

/-- The branch whose thread writes the file. -/
def ResultFile.branchId : ResultFile → Nat
  | .filteredRecords branchId | .filteredGroups branchId => branchId
  | .grouper file => file.branchId
  | .mergedGroups | .toBeMergedGroups | .stream _ => 0

end Names

section Emission

/-- A part of a run, with what it does to the streams of the result directory. -/
abbrev Emission (α : Type) := Emitted (StreamOp ResultFile Record) Fault α

variable (options : OutputOptions)

/-- `if (asked && file)`. -/
def OutputOptions.emit (asked : Bool) (op : StreamOp ResultFile Record) : Emission Unit :=
  if asked && options.file then .perform [op] else pure ()

/-- `get_wronly_fd` and `io_write_init`. -/
def OutputOptions.create (asked : Bool) (file : ResultFile) : Emission Unit :=
  options.emit asked (.create file)

/-- `io_write_record`. -/
def OutputOptions.write (asked : Bool) (file : ResultFile) (record : Record) : Emission Unit :=
  options.emit asked (.write file record)

/-- `io_write_close`. -/
def OutputOptions.close (asked : Bool) (file : ResultFile) : Emission Unit :=
  options.emit asked (.close file)

/-- What stream operations leave in the file system. -/
def OutputOptions.leave (actions : List (StreamOp ResultFile Record)) (files : Files) : Files :=
  match options.dirpath with
  | none => files
  | some dirpath => replay (actions.map (StreamOp.rename (·.name dirpath options.suffix))) files

/-- What a file of the result directory holds. -/
def OutputOptions.holds (files : Files) (file : ResultFile) : Option (List Record) :=
  options.dirpath.bind fun dirpath => files (file.name dirpath options.suffix)

@[simp] theorem emit_result (asked : Bool) (op : StreamOp ResultFile Record) :
    (options.emit asked op).result = .ok () := by
  unfold OutputOptions.emit
  split <;> rfl

@[simp] theorem create_result (asked : Bool) (file : ResultFile) :
    (options.create asked file).result = .ok () := emit_result options asked _

@[simp] theorem write_result (asked : Bool) (file : ResultFile) (record : Record) :
    (options.write asked file record).result = .ok () := emit_result options asked _

@[simp] theorem close_result (asked : Bool) (file : ResultFile) :
    (options.close asked file).result = .ok () := emit_result options asked _

@[simp] theorem leave_nil (files : Files) : options.leave [] files = files := by
  unfold OutputOptions.leave
  split <;> rfl

theorem leave_append (first second : List (StreamOp ResultFile Record)) (files : Files) :
    options.leave (first ++ second) files = options.leave second (options.leave first files) := by
  unfold OutputOptions.leave
  split
  · rfl
  · rw [List.map_append, replay_append]

/-- The names of the files keep them apart. -/
theorem holds_leave (actions : List (StreamOp ResultFile Record)) (files : Files)
    (file : ResultFile) (directory : options.file = true) :
    options.holds (options.leave actions files) file =
      replay actions (options.holds files) file := by
  obtain ⟨dirpath, given⟩ := Option.isSome_iff_exists.mp directory
  have named : options.holds files = fun file => files (file.name dirpath options.suffix) := by
    funext file
    rw [OutputOptions.holds, given, Option.bind_some]
  rw [named, OutputOptions.holds, OutputOptions.leave, given, Option.bind_some]
  exact replay_rename _ (ResultFile.name_injective dirpath options.suffix) actions files file

/-- Operations that leave the same in every directory leave the same files. -/
theorem leave_congr (actions actions' : List (StreamOp ResultFile Record))
    (same : ∀ directory file, replay actions directory file = replay actions' directory file)
    (files : Files) : options.leave actions files = options.leave actions' files := by
  unfold OutputOptions.leave
  cases options.dirpath with
  | none => rfl
  | some dirpath =>
      funext name
      dsimp only
      by_cases known : ∃ file : ResultFile, file.name dirpath options.suffix = name
      · obtain ⟨file, rfl⟩ := known
        have injective := ResultFile.name_injective dirpath options.suffix
        rw [replay_rename _ injective, replay_rename _ injective, same]
      · have others (actions : List (StreamOp ResultFile Record)) :
            ∀ op ∈ actions.map (StreamOp.rename (·.name dirpath options.suffix)),
              op.file ≠ name := by
          intro op member
          obtain ⟨action, -, rfl⟩ := List.mem_map.mp member
          rw [StreamOp.rename_file]
          exact fun same => known ⟨action.file, same⟩
        rw [replay_untouched name _ (others actions), replay_untouched name _ (others actions')]

/-- The grouper's files are altered as without the log of operations. -/
theorem leave_create (asked : Bool) (file : StageFile) (files : Files) :
    options.leave (options.create asked (.grouper file)).actions files =
      options.writeInit asked file files := by
  unfold OutputOptions.leave OutputOptions.create OutputOptions.emit OutputOptions.writeInit
    OutputOptions.alter OutputOptions.file
  cases asked <;> cases options.dirpath <;> rfl

theorem leave_write (asked : Bool) (file : StageFile) (record : Record) (files : Files) :
    options.leave (options.write asked (.grouper file) record).actions files =
      options.writeRecord asked file record files := by
  unfold OutputOptions.leave OutputOptions.write OutputOptions.emit OutputOptions.writeRecord
    OutputOptions.alter OutputOptions.file
  cases asked <;> cases options.dirpath <;> rfl

theorem leave_close (asked : Bool) (file : ResultFile) (files : Files) :
    options.leave (options.close asked file).actions files = files := by
  unfold OutputOptions.leave OutputOptions.close OutputOptions.emit OutputOptions.file
  cases asked <;> cases options.dirpath <;> rfl

/-- The result of a run, with the files that it leaves. -/
def OutputOptions.outcome {α : Type} (run : Emission α) (files : Files) :
    Except Fault (α × Files) :=
  run.result.map fun value => (value, options.leave run.actions files)

section Outcome

variable {α β : Type} (files : Files)

@[simp] theorem outcome_pure (value : α) :
    options.outcome (pure value) files = .ok (value, files) :=
  congrArg (fun files => Except.ok (value, files)) (leave_nil options files)

@[simp] theorem outcome_error (fault : Fault) :
    options.outcome (.error fault : Emission α) files = .error fault := rfl

@[simp] theorem outcome_of (result : Except Fault α) :
    options.outcome (.of result) files = result >>= fun value => .ok (value, files) := by
  cases result with
  | error fault => rfl
  | ok value => exact outcome_pure options files value

/-- What comes later finds the files as they were left before. -/
@[simp] theorem outcome_bind (run : Emission α) (next : α → Emission β) :
    options.outcome (run >>= next) files =
      options.outcome run files >>= fun done => options.outcome (next done.1) done.2 := by
  unfold OutputOptions.outcome
  cases ended : run.result with
  | error fault =>
      rw [Emitted.bind_result, ended]
      rfl
  | ok value =>
      rw [Emitted.bind_result, Emitted.bind_actions_of_ok next ended, ended, leave_append]
      rfl

@[simp] theorem outcome_create (asked : Bool) (file : StageFile) :
    options.outcome (options.create asked (.grouper file)) files =
      .ok ((), options.writeInit asked file files) := by
  rw [OutputOptions.outcome, create_result, leave_create]
  rfl

@[simp] theorem outcome_write (asked : Bool) (file : StageFile) (record : Record) :
    options.outcome (options.write asked (.grouper file) record) files =
      .ok ((), options.writeRecord asked file record files) := by
  rw [OutputOptions.outcome, write_result, leave_write]
  rfl

@[simp] theorem outcome_close (asked : Bool) (file : ResultFile) :
    options.outcome (options.close asked file) files = .ok ((), files) := by
  rw [OutputOptions.outcome, close_result, leave_close]
  rfl

end Outcome

end Emission

end Nfql
