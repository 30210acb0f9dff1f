/-
# Fields of decoded documents

A document that has been decoded is read field by field: a field may be missing, may hold a
value of the wrong kind, or may hold something of the right kind that will not do.  The
errors name the field, so that a reader of a large document can find it.
-/
import Swarm.Bencode.Value

namespace Swarm

open Bencode

/-! ## 1. What can be wrong with a field -/

/-- Why the content of a field will not do, though its kind is right. -/
inductive FieldFault
  | notText
  | negative (n : Int64)
  | notPositive (n : Int64)
  | notPathComponent (component : String)
  | emptyPath
  | totalTooLarge
  | tooManyPieces
  | notAddress
  /-- No URL, for the reason that the reader of URLs gives. -/
  | notUrl (wording : String)
  | unsupportedScheme (scheme : String)
  deriving DecidableEq

/-- The wording of it. -/
def FieldFault.message : FieldFault → String
  | notText => "not valid utf-8"
  | negative n => "must not be negative, got " ++ toString n.toInt
  | notPositive n => "must be positive, got " ++ toString n.toInt
  | notPathComponent component => Text.quoted component ++ " is not a valid path component"
  | emptyPath => "empty path"
  | totalTooLarge => "total length overflows"
  | tooManyPieces => "too many pieces"
  | notAddress => "not an ip address"
  | notUrl wording => wording
  | unsupportedScheme scheme => "unsupported tracker scheme `" ++ scheme ++ "`"

/-- What is wrong with a field. -/
inductive FieldError
  | missing (name : String)
  | wrongKind (name : String) (expected got : Kind)
  | invalid (name : String) (fault : FieldFault)
  deriving DecidableEq

/-- The wording of it. -/
def FieldError.message : FieldError → String
  | missing name => "Missing field `" ++ name ++ "`"
  | wrongKind name expected got =>
    "Field `" ++ name ++ "` has wrong type, expected " ++ expected.name ++ " but got " ++ got.name
  | invalid name fault => "Field `" ++ name ++ "` is invalid: " ++ fault.message

/-! ## 2. Reading a field -/

namespace Field

/-- The field of a dictionary, if it is there. -/
def find? (d : Dictionary Value) (key : String) : Option Value := d.get? (Text.utf8 key)

/-- The field of a dictionary, under the name that an error is to give it. -/
def requiredAs (d : Dictionary Value) (key name : String) : Except FieldError Value :=
  match find? d key with
  | some v => .ok v
  | none => .error (.missing name)

/-- A field that must be there. -/
def required (d : Dictionary Value) (key : String) : Except FieldError Value :=
  requiredAs d key key

/-- A dictionary. -/
def dictionary (name : String) (v : Value) : Except FieldError (Dictionary Value) :=
  match v with
  | .dictionary entries => .ok entries
  | other => .error (.wrongKind name .dictionary other.kind)

/-- A list. -/
def list (name : String) (v : Value) : Except FieldError (List Value) :=
  match v with
  | .list items => .ok items
  | other => .error (.wrongKind name .list other.kind)

/-- A number. -/
def integer (name : String) (v : Value) : Except FieldError Int64 :=
  match v with
  | .integer n => .ok n
  | other => .error (.wrongKind name .integer other.kind)

/-- A byte string. -/
def bytes (name : String) (v : Value) : Except FieldError Bytes :=
  match v with
  | .byteString s => .ok s
  | other => .error (.wrongKind name .byteString other.kind)

/-- A byte string that is text. -/
def text (name : String) (v : Value) : Except FieldError String := do
  match Text.text? (← bytes name v) with
  | some t => .ok t
  | none => .error (.invalid name .notText)

/-- A number that is not negative. -/
def count (name : String) (v : Value) : Except FieldError UInt64 := do
  let n ← integer name v
  if n.toInt < 0 then .error (.invalid name (.negative n)) else .ok (UInt64.ofNat n.toInt.toNat)

/-- A field that may be missing, but must be right if it is there. -/
def optional {α : Type} (read : String → Value → Except FieldError α) (d : Dictionary Value)
    (key : String) : Except FieldError (Option α) :=
  match find? d key with
  | some v => (read key v).map some
  | none => .ok none

/-- A text that is taken as it is: nothing unless the field holds a byte string. -/
def looseText? (d : Dictionary Value) (key : String) : Option String :=
  (find? d key >>= Value.byteString?).map Text.lossyText

/-- **One item after another**, each with its index, up to the first failure. -/
def each {α β ε : Type} (read : Nat → α → Except ε β) :
    Nat → List α → Except ε (List β)
  | _, [] => .ok []
  | i, x :: xs =>
    match read i x with
    | .error e => .error e
    | .ok y =>
      match each read (i + 1) xs with
      | .error e => .error e
      | .ok ys => .ok (y :: ys)

end Field
end Swarm
