import Mathlib.Algebra.Order.Ring.Int
import Mathlib.Data.List.Basic

set_option autoImplicit false

/- JSON values, and what json-c's accessors return for them. NULL is `none`. -/
namespace JsonC

/-- The values a program dumps when it builds objects of numbers and names. -/
inductive Json where
  | int (value : Int)
  | str (text : String)
  | arr (items : List Json)
  | obj (members : List (String × Json))

/-- `json_object_object_get`. -/
def objectGet (json : Option Json) (key : String) : Option Json :=
  match json with
  | some (.obj members) => members.lookup key
  | _ => none

/-- `json_object_array_length`, which takes the length of an array for granted. -/
def arrayLength (json : Option Json) : Option Nat :=
  match json with
  | some (.arr items) => some items.length
  | _ => none

/-- `json_object_array_get_idx`. -/
def arrayGetIdx (json : Option Json) (index : Nat) : Option Json :=
  match json with
  | some (.arr items) => items[index]?
  | _ => none

/-- How `json_object_get_int` makes a signed 32-bit `int` of a number: exactly where it
can, and to some `int`, by clamping or truncation, where it cannot. -/
structure IntConversion where
  getInt : Int → Int
  exact : ∀ value, -2 ^ 31 ≤ value → value < 2 ^ 31 → getInt value = value
  lower : ∀ value, -2 ^ 31 ≤ getInt value
  upper : ∀ value, getInt value < 2 ^ 31

def IntConversion.clamp : IntConversion where
  getInt value := max (-2 ^ 31) (min value (2 ^ 31 - 1))
  exact value lower upper := by omega
  lower value := by omega
  upper value := by omega

def IntConversion.truncate : IntConversion where
  getInt value := (value + 2 ^ 31) % 2 ^ 32 - 2 ^ 31
  exact value lower upper := by omega
  lower value := by omega
  upper value := by omega

/-- The library as a program uses it: besides the conversion of numbers, what it makes
of values of other types. -/
structure Library where
  conversion : IntConversion
  intOfOther : Json → Int
  textOfOther : Json → String

/-- `json_object_get_int`. -/
def getInt (library : Library) (json : Option Json) : Int :=
  match json with
  | none => 0
  | some (.int value) => library.conversion.getInt value
  | some other => library.intOfOther other

/-- `json_object_get_string`. -/
def getString (library : Library) (json : Option Json) : Option String :=
  match json with
  | none => none
  | some (.str text) => some text
  | some other => some (library.textOfOther other)

/-- The numbers that survive the conversion to an `int` and from there to 64 bits. -/
def IntConversion.Keeps (conversion : IntConversion) (value : Int) : Prop :=
  (0 ≤ value ∧ value < 2 ^ 31) ∨
    (2 ^ 64 - 2 ^ 31 ≤ value ∧ value < 2 ^ 64 ∧ conversion.getInt value = value - 2 ^ 64)

theorem keeps_iff (conversion : IntConversion) (value : Int) :
    ((BitVec.ofInt 64 (conversion.getInt value)).toNat : Int) = value ↔
      conversion.Keeps value := by
  have lower := conversion.lower value
  have upper := conversion.upper value
  have exact := conversion.exact value
  rw [BitVec.toNat_ofInt, IntConversion.Keeps]
  omega

theorem clamp_keeps_iff (value : Int) :
    IntConversion.clamp.Keeps value ↔ 0 ≤ value ∧ value < 2 ^ 31 := by
  show _ ∨ (_ ∧ _ ∧ max (-2 ^ 31) (min value (2 ^ 31 - 1)) = value - 2 ^ 64) ↔ _
  omega

theorem truncate_keeps_iff (value : Int) : IntConversion.truncate.Keeps value ↔
    (0 ≤ value ∧ value < 2 ^ 31) ∨ (2 ^ 64 - 2 ^ 31 ≤ value ∧ value < 2 ^ 64) := by
  show _ ∨ (_ ∧ _ ∧ (value + 2 ^ 31) % 2 ^ 32 - 2 ^ 31 = value - 2 ^ 64) ↔ _
  omega

end JsonC
