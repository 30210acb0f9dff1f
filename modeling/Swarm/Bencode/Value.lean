/-
# Values of the notation

A value is a whole number of 64 bits, a byte string, a list of values, or a dictionary from
byte strings to values.  Dictionaries ascend by type (`Swarm.Bencode.Entries`), so equality
of values is plain equality, and it is decidable.
-/
import Swarm.Bencode.Dictionary
import Swarm.Text.Quoted
import Swarm.Text.Utf8

namespace Swarm.Bencode

/-! ## 1. Values and their kinds -/

/-- The four kinds of value. -/
inductive Kind
  | integer
  | byteString
  | list
  | dictionary
  deriving DecidableEq, Repr

/-- How a kind is called in messages. -/
def Kind.name : Kind → String
  | integer => "integer"
  | byteString => "byte string"
  | list => "list"
  | dictionary => "dictionary"

/-- A value of the notation. -/
inductive Value
  | integer (n : Int64)
  | byteString (s : Bytes)
  | list (items : List Value)
  | dictionary (entries : Entries Value none)

instance : Inhabited Value := ⟨.integer 0⟩

namespace Value

/-- The kind of a value. -/
def kind : Value → Kind
  | integer _ => .integer
  | byteString _ => .byteString
  | list _ => .list
  | dictionary _ => .dictionary

/-- The byte string of a text. -/
def text (t : String) : Value := byteString (Text.utf8 t)

/-- The dictionary without entries. -/
def empty : Value := dictionary .nil

/-! ## 2. What a value holds -/

/-- The number, if it is one. -/
def integer? : Value → Option Int64
  | integer n => some n
  | _ => none

/-- The byte string, if it is one. -/
def byteString? : Value → Option Bytes
  | byteString s => some s
  | _ => none

/-- The text of a byte string, if it is one and is text. -/
def text? (v : Value) : Option String := v.byteString? >>= Text.text?

/-- The items, if it is a list. -/
def list? : Value → Option (List Value)
  | list items => some items
  | _ => none

/-- The entries, if it is a dictionary. -/
def dictionary? : Value → Option (Dictionary Value)
  | dictionary entries => some entries
  | _ => none

/-- The value of a key; nothing is found in what is not a dictionary. -/
def get? (k : Key) (v : Value) : Option Value := v.dictionary? >>= (·.get? k)

/-- Gives a key a value, and says whether that took effect: what is not a dictionary stays as it
is. -/
def insert (v : Value) (k : Key) (x : Value) : Bool × Value :=
  match v with
  | dictionary entries => (true, dictionary (Dictionary.insert k x entries))
  | other => (false, other)

/-- The value with a key given a value, handed on whether that took effect or not. -/
def withEntry (v : Value) (k : Key) (x : Value) : Value := (v.insert k x).2

/-! ## 3. Equality is decidable -/

mutual

/-- Decides whether two values are equal. -/
def decEq : (v w : Value) → Decidable (v = w)
  | integer m, integer n => if h : m = n then isTrue (by rw [h]) else isFalse (by simp [h])
  | byteString s, byteString t =>
    if h : s = t then isTrue (by rw [h]) else isFalse (by simp [h])
  | list xs, list ys =>
    match decEqItems xs ys with
    | isTrue h => isTrue (by rw [h])
    | isFalse h => isFalse (by simp [h])
  | dictionary d, dictionary e =>
    match decEqEntries d e with
    | isTrue h => isTrue (by rw [h])
    | isFalse h => isFalse (by simp [h])
  | integer _, byteString _ | integer _, list _ | integer _, dictionary _
  | byteString _, integer _ | byteString _, list _ | byteString _, dictionary _
  | list _, integer _ | list _, byteString _ | list _, dictionary _
  | dictionary _, integer _ | dictionary _, byteString _ | dictionary _, list _ =>
    isFalse nofun

/-- Decides whether two lists of values are equal. -/
def decEqItems : (xs ys : List Value) → Decidable (xs = ys)
  | [], [] => isTrue rfl
  | x :: xs, y :: ys =>
    match decEq x y, decEqItems xs ys with
    | isTrue h, isTrue h' => isTrue (by rw [h, h'])
    | isFalse h, _ => isFalse (by simp [h])
    | _, isFalse h => isFalse (by simp [h])
  | [], _ :: _ | _ :: _, [] => isFalse nofun

/-- Decides whether two runs of entries are equal. -/
def decEqEntries {lo : Option Key} : (d e : Entries Value lo) → Decidable (d = e)
  | .nil, .nil => isTrue rfl
  | .cons k _ v d, .cons k' _ v' d' =>
    if hk : k = k' then by
      subst hk
      exact match decEq v v', decEqEntries d d' with
        | isTrue h, isTrue h' => isTrue (by rw [h, h'])
        | isFalse h, _ => isFalse (by simp [h])
        | _, isFalse h => isFalse (by simp [h])
    else isFalse (by simp [hk])
  | .nil, .cons .. | .cons .., .nil => isFalse nofun

end

instance : DecidableEq Value := decEq

/-! ## 4. How a value is shown -/

mutual

/-- The value as shown to a reader: byte strings that are text are quoted, others are only
counted, and keys are shown as text whatever they are. -/
def display : Value → String
  | integer n => toString n.toInt
  | byteString s =>
    match Text.text? s with
    | some t => Text.quoted t
    | none => "<" ++ toString s.length ++ " bytes>"
  | list items => "[" ++ ", ".intercalate (displayItems items) ++ "]"
  | dictionary entries => "\x7b" ++ ", ".intercalate (displayEntries entries) ++ "\x7d"

/-- The items, each as it is shown. -/
def displayItems : List Value → List String
  | [] => []
  | v :: vs => v.display :: displayItems vs

/-- The entries, each as it is shown. -/
def displayEntries {lo : Option Key} : Entries Value lo → List String
  | .nil => []
  | .cons key _ value rest =>
    (Text.quoted (Text.lossyText key) ++ ": " ++ value.display) :: displayEntries rest

end

end Value
end Swarm.Bencode
