import Mathlib
import Nfql.Pipeline

set_option autoImplicit false

/- The files that the grouper leaves in the result directory. -/
namespace Nfql

section Names

/-- The files of a branch's grouper. A group's number is printed with `%d`. -/
inductive StageFile where
  | sortedRecords (branchId : Nat)
  | groups (branchId : Nat)
  | groupRecords (branchId : Nat) (group : Int)
  deriving DecidableEq, Repr

def StageFile.branchId : StageFile → Nat
  | .sortedRecords branchId | .groups branchId | .groupRecords branchId _ => branchId

/-- What follows the branch in a file's name. -/
def StageFile.part : StageFile → String
  | .sortedRecords _ => "sorted-records."
  | .groups _ => "groups."
  | .groupRecords _ group => "group-" ++ toString group ++ "-records."

/-- The name that `asprintf` makes. -/
def StageFile.name (dirpath suffix : String) (file : StageFile) : String :=
  dirpath ++ "/grouper-branch-" ++ toString file.branchId ++ "-" ++ file.part ++ suffix

/-- A number ends before the first character that is no digit. -/
theorem digits_dash (m n : Nat) (rest rest' : List Char)
    (same : m.repr.toList ++ '-' :: rest = n.repr.toList ++ '-' :: rest') :
    m = n ∧ rest = rest' := by
  have digits (n : Nat) (rest : List Char) :
      (n.repr.toList ++ '-' :: rest).takeWhile Char.isDigit = n.repr.toList := by
    rw [Nat.toList_repr, List.takeWhile_append_of_pos fun c inside =>
      Nat.isDigit_of_mem_toDigits (by decide) (by decide) inside]
    exact List.append_nil _
  have number := congrArg (List.takeWhile Char.isDigit) same
  rw [digits, digits] at number
  rw [number] at same
  exact ⟨Nat.repr_injective (String.toList_inj.mp number),
    (List.cons.inj (List.append_cancel_left same)).2⟩

theorem StageFile.part_injective (file other : StageFile) (branch : file.branchId = other.branchId)
    (same : file.part = other.part) : file = other := by
  have numbered (group : Int) : ("group-" ++ toString group ++ "-records.").toList =
      "group-".toList ++ (toString group ++ "-records.").toList := by
    rw [String.append_assoc, String.toList_append]
  have chars := congrArg String.toList same
  cases file with
  | sortedRecords branchId =>
      cases other with
      | sortedRecords => exact congrArg _ branch
      | groups =>
          rw [part, part] at same
          exact absurd same (by decide)
      | groupRecords =>
          rw [part, part, numbered] at chars
          cases chars
  | groups branchId =>
      cases other with
      | sortedRecords =>
          rw [part, part] at same
          exact absurd same (by decide)
      | groups => exact congrArg _ branch
      | groupRecords =>
          rw [part, part, numbered] at chars
          cases chars
  | groupRecords branchId group =>
      cases other with
      | sortedRecords | groups =>
          rw [part, part, numbered] at chars
          cases chars
      | groupRecords branchId' group' =>
          rw [part, part, String.append_left_inj, String.append_right_inj] at same
          exact congrArg₂ _ branch (Int.repr_injective same)

/-- Different files of the result directory have different names. -/
theorem StageFile.name_injective (dirpath suffix : String) :
    Function.Injective (StageFile.name dirpath suffix) := by
  intro file other same
  rw [name, name, String.append_left_inj] at same
  simp only [String.append_assoc, String.append_right_inj] at same
  have chars := congrArg String.toList same
  simp only [String.toList_append] at chars
  obtain ⟨branch, part⟩ := digits_dash _ _ _ _ chars
  exact StageFile.part_injective _ _ branch (String.toList_inj.mp part)

end Names

section Writing

/-- The records of each file, in the order they were written. -/
abbrev Files := String → Option (List Record)

/-- The command line's choice of output: the flags of `--verbose`, and the directory
that sets `file`. The io handler knows its format suffix. -/
structure OutputOptions where
  verboseV : Bool
  verboseVv : Bool
  dirpath : Option String
  suffix : String

def OutputOptions.file (options : OutputOptions) : Bool := options.dirpath.isSome

/-- `case 'v'`: `HIGH` falls through to `MEDIUM`, and `MEDIUM` to `LOW`. -/
def OutputOptions.verbose (options : OutputOptions) (level : Int) : Except Fault OutputOptions :=
  if level = 3 ∨ level = 2 then .ok { options with verboseV := true, verboseVv := true }
  else if level = 1 then .ok { options with verboseV := true }
  else .error (.errExit "valid verbosity levels: (1-3)")

/-- Change a file `if (asked && file)`. -/
def OutputOptions.alter (options : OutputOptions) (asked : Bool) (file : StageFile)
    (change : Option (List Record) → Option (List Record)) (files : Files) : Files :=
  match asked, options.dirpath with
  | true, some dirpath =>
      Function.update files (file.name dirpath options.suffix)
        (change (files (file.name dirpath options.suffix)))
  | _, _ => files

/-- `io_write_init` on a file that `get_wronly_fd` opened and truncated. -/
def OutputOptions.writeInit (options : OutputOptions) (asked : Bool) (file : StageFile) :
    Files → Files :=
  options.alter asked file fun _ => some []

/-- `io_write_record` to the stream of a file. -/
def OutputOptions.writeRecord (options : OutputOptions) (asked : Bool) (file : StageFile)
    (record : Record) : Files → Files :=
  options.alter asked file (Option.map (· ++ [record]))

/-- `io_write_record` in a loop over records. -/
def OutputOptions.writeRecords (options : OutputOptions) (asked : Bool) (file : StageFile)
    (records : List RecordPtr) (files : Files) : Files :=
  records.foldl (fun files item => options.writeRecord asked file item.record files) files

/-- What a file of the result directory holds; without a directory there is none. -/
def OutputOptions.contents (options : OutputOptions) (files : Files) (file : StageFile) :
    Option (List Record) :=
  options.dirpath.bind fun dirpath => files (file.name dirpath options.suffix)

/-- From verbosity 2 on both flags are set. -/
theorem OutputOptions.verbose_two (before options : OutputOptions) (level : Int)
    (set : before.verbose level = .ok options) (high : 2 ≤ level) :
    options.verboseV = true ∧ options.verboseVv = true := by
  unfold verbose at set
  split at set
  · cases set
    exact ⟨rfl, rfl⟩
  · split at set
    · omega
    · cases set

variable (options : OutputOptions) (asked : Bool) (file other : StageFile)
  (change : Option (List Record) → Option (List Record)) (record : Record) (files : Files)

theorem contents_alter (set : asked = true) (directory : options.file = true) :
    options.contents (options.alter asked file change files) file =
      change (options.contents files file) := by
  obtain ⟨dirpath, given⟩ := Option.isSome_iff_exists.mp directory
  simp only [OutputOptions.contents, OutputOptions.alter, set, given, Option.bind_some,
    Function.update_self]

theorem contents_alter_other (apart : other ≠ file) :
    options.contents (options.alter asked file change files) other =
      options.contents files other := by
  cases given : options.dirpath with
  | none => simp only [OutputOptions.contents, given, Option.bind_none]
  | some dirpath =>
      have names := (StageFile.name_injective dirpath options.suffix).ne apart
      cases asked with
      | false => simp only [OutputOptions.contents, OutputOptions.alter]
      | true => simp only [OutputOptions.contents, OutputOptions.alter, given, Option.bind_some,
          Function.update_of_ne names]

theorem contents_writeInit (set : asked = true) (directory : options.file = true) :
    options.contents (options.writeInit asked file files) file = some [] :=
  contents_alter options asked file _ files set directory

theorem contents_writeInit_other (apart : other ≠ file) :
    options.contents (options.writeInit asked file files) other = options.contents files other :=
  contents_alter_other options asked file other _ files apart

theorem contents_writeRecord (set : asked = true) (directory : options.file = true) :
    options.contents (options.writeRecord asked file record files) file =
      (options.contents files file).map (· ++ [record]) :=
  contents_alter options asked file _ files set directory

theorem contents_writeRecord_other (apart : other ≠ file) :
    options.contents (options.writeRecord asked file record files) other =
      options.contents files other :=
  contents_alter_other options asked file other _ files apart

theorem contents_writeRecords (records : List RecordPtr) (set : asked = true)
    (directory : options.file = true) :
    options.contents (options.writeRecords asked file records files) file =
      (options.contents files file).map (· ++ records.map RecordPtr.record) := by
  induction records generalizing files with
  | nil =>
      simp only [OutputOptions.writeRecords, List.foldl_nil, List.map_nil, List.append_nil,
        Option.map_id']
  | cons item rest ih =>
      have tail := ih (options.writeRecord asked file item.record files)
      rw [contents_writeRecord options asked file item.record files set directory,
        Option.map_map] at tail
      rw [OutputOptions.writeRecords, List.foldl_cons, ← OutputOptions.writeRecords, tail]
      simp only [Function.comp_def, List.append_assoc, List.map_cons, List.singleton_append]

/-- A file that is created and then written holds the records, whatever was in it. -/
theorem contents_written (records : List RecordPtr) (set : asked = true)
    (directory : options.file = true) :
    options.contents (options.writeRecords asked file records (options.writeInit asked file files))
      file = some (records.map RecordPtr.record) := by
  rw [contents_writeRecords options asked file _ records set directory,
    contents_writeInit options asked file files set directory]
  rfl

theorem contents_written_other (records : List RecordPtr) (apart : other ≠ file) :
    options.contents (options.writeRecords asked file records (options.writeInit asked file files))
      other = options.contents files other := by
  rw [← contents_writeInit_other options asked file other files apart]
  generalize options.writeInit asked file files = created
  induction records generalizing created with
  | nil => rfl
  | cons item rest ih =>
      exact (ih _).trans (contents_writeRecord_other options asked file other item.record _ apart)

end Writing

end Nfql
