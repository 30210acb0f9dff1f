/-
# Writing values

Every value has one writing: numbers and lengths in decimal without spare digits, the
entries of a dictionary in the ascending order of their keys.  A number stands between `i`
and `e`, a byte string behind its length and a colon, the items of a list between `l` and
`e`, the keys and values of a dictionary between `d` and `e`.

`Value.encode` gives the writing, `Value.encodeAfter` puts it behind other bytes.
-/
import Swarm.Bencode.Value
import Swarm.Text.Numeral

namespace Swarm.Bencode

/-! ## 1. The marks of the notation -/

namespace Mark

/-- Opens a number: `i`. -/
def integer : UInt8 := 105

/-- Opens a list: `l`. -/
def list : UInt8 := 108

/-- Opens a dictionary: `d`. -/
def dictionary : UInt8 := 100

/-- Closes what was opened: `e`. -/
def close : UInt8 := 101

/-- Stands between the length of a byte string and the bytes: `:`. -/
def colon : UInt8 := 58

/-- Opens the digits of a negative number: `-`. -/
def minus : UInt8 := 45

end Mark

/-! ## 2. The writing of a value -/

/-- The writing of a byte string. -/
def encodeBytes (s : Bytes) : Bytes := Text.decimal s.length ++ Mark.colon :: s

namespace Value

mutual

/-- The writing of a value. -/
def encode : Value → Bytes
  | integer n => Mark.integer :: (Text.signedDecimal n.toInt ++ [Mark.close])
  | byteString s => encodeBytes s
  | list items => Mark.list :: (encodeItems items ++ [Mark.close])
  | dictionary entries => Mark.dictionary :: (encodeEntries entries ++ [Mark.close])

/-- The writings of the items, one after another. -/
def encodeItems : List Value → Bytes
  | [] => []
  | v :: vs => v.encode ++ encodeItems vs

/-- The writings of the keys and values, one after another. -/
def encodeEntries {lo : Option Key} : Entries Value lo → Bytes
  | .nil => []
  | .cons key _ value rest => encodeBytes key ++ (value.encode ++ encodeEntries rest)

end

theorem encodeItems_eq_flatMap : ∀ items : List Value,
    encodeItems items = items.flatMap encode
  | [] => rfl
  | v :: vs => by simp [encodeItems, encodeItems_eq_flatMap vs]

theorem encodeEntries_eq_flatMap : ∀ {lo : Option Key} (d : Entries Value lo),
    encodeEntries d = d.toList.flatMap fun e => encodeBytes e.1 ++ e.2.encode
  | _, .nil => rfl
  | _, .cons _ _ _ rest => by
    simp [encodeEntries, encodeEntries_eq_flatMap rest]

end Value

/-! ## 3. Writing into a buffer

A writer that fills one buffer puts every mark, number and byte string behind what is there,
and looks at nothing of it. -/

/-- Puts a byte string behind what a buffer holds. -/
def writeBytes (buffer : Array UInt8) (s : Bytes) : Array UInt8 :=
  (buffer ++ Text.decimal s.length).push Mark.colon ++ s

namespace Value

mutual

/-- Puts a value behind what a buffer holds. -/
def write (buffer : Array UInt8) : Value → Array UInt8
  | integer n => (buffer.push Mark.integer ++ Text.signedDecimal n.toInt).push Mark.close
  | byteString s => writeBytes buffer s
  | list items => (writeItems (buffer.push Mark.list) items).push Mark.close
  | dictionary entries => (writeEntries (buffer.push Mark.dictionary) entries).push Mark.close

/-- Puts the items there, one after another. -/
def writeItems (buffer : Array UInt8) : List Value → Array UInt8
  | [] => buffer
  | v :: vs => writeItems (v.write buffer) vs

/-- Puts the keys and values there, one after another. -/
def writeEntries (buffer : Array UInt8) {lo : Option Key} : Entries Value lo → Array UInt8
  | .nil => buffer
  | .cons key _ value rest => writeEntries (value.write (writeBytes buffer key)) rest

end

/-- The writing of a value behind what has been written already. -/
def encodeAfter (front : Bytes) (v : Value) : Bytes := (v.write front.toArray).toList

end Value
end Swarm.Bencode
