/-
# Reading values

A reader takes bytes and gives a value together with the bytes that follow it, or stops.  It
knows nothing of positions: a stop either says that the bytes ran out, which can only be at
their end, or carries the bytes from the fault on, and the position of either is found from
their number afterwards (`Stop.locate`).  What is read at one place is therefore read in the
same way at any other.

Nesting is limited: a value more than `maxDepth` containers deep is refused at its first
byte, whatever it is.  So the readers recurse over the levels that are left.  The loop over
the items of a container is bounded by the number of bytes there are, since every item takes
at least one.

`decodeAt` reads one value at a position, `decode` reads one value that takes up all bytes.
Dictionaries may list their keys in any order and more than once; the last value of a key
counts.
-/
import Swarm.Bencode.Encoding
import Swarm.Bencode.Fault

namespace Swarm.Bencode

/-- The deepest level at which a value may stand; the outermost value stands at level 0. -/
def maxDepth : Nat := 64

/-! ## 1. Stops -/

/-- Why a reader stopped. -/
inductive Stop
  /-- The bytes ran out. -/
  | short
  /-- Something is wrong where the given bytes begin. -/
  | bad (reason : Malformed) (rest : Bytes)
  deriving DecidableEq, Repr

/-- The error at its position, for a reading of `length` bytes that began at `start`. -/
def Stop.locate (start length : Nat) : Stop → DecodeError
  | short => .endOfInput (start + length)
  | bad reason rest => .malformed (start + (length - rest.length)) reason

/-- What a reader gives: a result and the bytes after it, or a stop. -/
abbrev Reading (α : Type) := Except Stop (α × Bytes)

/-! ## 2. Numbers and byte strings -/

/-- A number of 64 bits, if it is in their range. -/
def int64? (n : Int) : Option Int64 :=
  if Int64.minValue.toInt ≤ n ∧ n ≤ Int64.maxValue.toInt then some (Int64.ofInt n) else none

/-- The number that a sign and a run of digits write, if they write one in the only way. -/
def integerOf? (negative : Bool) (run : Bytes) : Option Int64 :=
  if Text.isPlain run && !(negative && run == [48]) then
    let n := Text.ofDigits run
    int64? (if negative then -n else n)
  else none

/-- The length that a run of digits writes, if they write one in the only way and it fits
into 64 bits. -/
def lengthOf? (run : Bytes) : Option Nat :=
  if Text.isPlain run && Text.ofDigits run < UInt64.size then some (Text.ofDigits run) else none

/-- The sign in front of the digits of a number, and what follows it. -/
def splitSign : Bytes → Bool × Bytes
  | [] => (false, [])
  | b :: rest => if b = Mark.minus then (true, rest) else (false, b :: rest)

/-- The leading digits, and what follows them. -/
def splitDigits (s : Bytes) : Bytes × Bytes := (s.takeWhile Text.isDigit, s.dropWhile Text.isDigit)

/-- Reads a number, given the bytes from its mark on and those behind the mark. -/
def readInteger (whole body : Bytes) : Reading Int64 :=
  let (negative, unsigned) := splitSign body
  let (run, after) := splitDigits unsigned
  match after with
  | [] => .error .short
  | b :: rest =>
    if b = Mark.close then
      match integerOf? negative run with
      | some n => .ok (n, rest)
      | none => .error (.bad .invalidInteger whole)
    else .error (.bad .invalidInteger after)

/-- Reads a byte string, given the bytes from its length on. -/
def readBytes (s : Bytes) : Reading Bytes :=
  let (run, after) := splitDigits s
  match after with
  | [] => .error .short
  | b :: rest =>
    if b = Mark.colon then
      match lengthOf? run with
      | none => .error (.bad .invalidLength s)
      | some n =>
        match Bytes.cut? n rest with
        | none => .error .short
        | some result => .ok result
    else .error (.bad .invalidLength after)

/-! ## 3. Containers -/

/-- Reads items up to the closing mark, at most `bound` of them. -/
def readItems {α : Type} (item : Bytes → Reading α) : Nat → Bytes → Reading (List α)
  | 0, _ => .error .short
  | _ + 1, [] => .error .short
  | bound + 1, b :: rest =>
    if b = Mark.close then .ok ([], rest)
    else
      match item (b :: rest) with
      | .error stop => .error stop
      | .ok (x, s) =>
        match readItems item bound s with
        | .error stop => .error stop
        | .ok (xs, s') => .ok (x :: xs, s')

/-- Where a value stands among the bytes: those from its first one on, and those behind it. -/
structure Extent where
  start : Bytes
  stop : Bytes

/-- Reads a key and the value behind it, and says where the value stands. -/
def readEntry (value : Bytes → Reading Value) : Bytes → Reading (Key × Value × Extent)
  | [] => .error .short
  | b :: rest =>
    if Text.isDigit b then
      match readBytes (b :: rest) with
      | .error stop => .error stop
      | .ok (key, s) =>
        match value s with
        | .error stop => .error stop
        | .ok (v, s') => .ok ((key, v, ⟨s, s'⟩), s')
    else .error (.bad .nonStringKey (b :: rest))

/-- The dictionary of the entries that were read. -/
def dictionaryOf (entries : List (Key × Value × Extent)) : Dictionary Value :=
  Dictionary.ofList (entries.map fun e => (e.1, e.2.1))

/-- Reads a value with so many levels left, in bytes of at most `bound` items. -/
def readValue (bound : Nat) : Nat → Bytes → Reading Value
  | 0, s => .error (.bad .nestingTooDeep s)
  | _ + 1, [] => .error .short
  | levels + 1, b :: rest =>
    if b = Mark.integer then
      match readInteger (b :: rest) rest with
      | .error stop => .error stop
      | .ok (n, s) => .ok (.integer n, s)
    else if Text.isDigit b then
      match readBytes (b :: rest) with
      | .error stop => .error stop
      | .ok (x, s) => .ok (.byteString x, s)
    else if b = Mark.list then
      match readItems (readValue bound levels) bound rest with
      | .error stop => .error stop
      | .ok (items, s) => .ok (.list items, s)
    else if b = Mark.dictionary then
      match readItems (readEntry (readValue bound levels)) bound rest with
      | .error stop => .error stop
      | .ok (entries, s) => .ok (.dictionary (dictionaryOf entries), s)
    else .error (.bad (.unknownTag b) (b :: rest))

/-! ## 4. Reading at a position -/

/-- Reads the value at a position; gives it with the position just past it. -/
def decodeAt (data : Bytes) (position : Nat) : Except DecodeError (Value × Nat) :=
  let s := data.drop position
  match readValue s.length (maxDepth + 1) s with
  | .error stop => .error (stop.locate position s.length)
  | .ok (v, rest) => .ok (v, position + (s.length - rest.length))

/-- Reads one value that takes up all the bytes. -/
def decode (data : Bytes) : Except DecodeError Value :=
  match decodeAt data 0 with
  | .error e => .error e
  | .ok (v, next) =>
    if next = data.length then .ok v else .error (.malformed next .trailingData)

/-- **One value after another**, from a position on, up to the end of the bytes or the first
error.  At least one reading is tried. -/
def decodeFrom (data : Bytes) : Nat → Nat → List (Except DecodeError (Value × Nat))
  | 0, _ => []
  | count + 1, position =>
    match decodeAt data position with
    | .error e => [.error e]
    | .ok (v, next) =>
      .ok (v, next) :: if next < data.length then decodeFrom data count next else []

/-- The values that stand one after another in the bytes. -/
def decodeSequence (data : Bytes) : List (Except DecodeError (Value × Nat)) :=
  decodeFrom data (data.length + 1) 0

end Swarm.Bencode
