import SelectList.Number
import SelectList.Text

namespace SelectList.Json

inductive Found
  | null
  | boolean (b : Bool)
  | natural (n : Nat)
  | negative (n : Nat)
  | double (x : Double)
  | text (s : String)
  | sequence
  | map
deriving DecidableEq, Repr

namespace Found

def describe : Found → String
  | .null => "null"
  | .boolean true => "boolean `true`"
  | .boolean false => "boolean `false`"
  | .natural n => "integer `" ++ String.ofList (Decimal.digits n) ++ "`"
  | .negative n => "integer `-" ++ String.ofList (Decimal.digits n) ++ "`"
  | .double x => "floating point `" ++ x.text ++ "`"
  | .text s => "string " ++ Text.shown s
  | .sequence => "sequence"
  | .map => "map"

end Found

inductive Expected
  | text
  | natural
  | sequence
  | unit
  | structure (name : String)
deriving DecidableEq, Repr

namespace Expected

def describe : Expected → String
  | .text => "a string"
  | .natural => "usize"
  | .sequence => "a sequence"
  | .unit => "unit"
  | .structure name => "struct " ++ name

end Expected

inductive Mismatch
  | wrongType (found : Found) (expected : Expected)
  | wrongValue (found : Found) (expected : Expected)
  | wrongLength (length : Nat) (name : String) (members : Nat)
  | missingMember (member : String)
  | repeatedMember (member : String)
  | unknownVariant (name : String) (variants : List String)
deriving DecidableEq, Repr

namespace Mismatch

def between (what : String) (found : Found) (expected : Expected) : String :=
  what ++ ": " ++ found.describe ++ ", expected " ++ expected.describe

def message : Mismatch → String
  | .wrongType found expected => between "invalid type" found expected
  | .wrongValue found expected => between "invalid value" found expected
  | .wrongLength length name members =>
    "invalid length " ++ String.ofList (Decimal.digits length) ++ ", expected struct " ++ name ++
      " with " ++ String.ofList (Decimal.digits members) ++ " elements"
  | .missingMember member => "missing field `" ++ member ++ "`"
  | .repeatedMember member => "duplicate field `" ++ member ++ "`"
  | .unknownVariant name variants =>
    "unknown variant `" ++ name ++ "`, expected one of " ++
      ", ".intercalate (variants.map fun v => "`" ++ v ++ "`")

end Mismatch

inductive Fault
  | malformed
  | endOfText
  | mismatch (m : Mismatch)
deriving DecidableEq, Repr

theorem bind_eq_ok {α β : Type} {x : Except Fault α} {f : α → Except Fault β} {b : β}
    (h : x.bind f = .ok b) : ∃ a, x = .ok a ∧ f a = .ok b := by
  cases x with
  | error => simp [Except.bind] at h
  | ok a => exact ⟨a, rfl, h⟩

end SelectList.Json
