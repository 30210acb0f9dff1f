/-
# Percent escapes

A byte that must not stand for itself is written as `%` and two upper case hexadecimal
digits.  Which bytes these are differs from place to place; bytes outside ASCII and control
bytes are always among them.
-/
import Swarm.Text.Numeral
import Swarm.Text.Utf8

namespace Swarm.Net.Percent

/-- Which bytes are escaped. -/
abbrev EscapeSet := UInt8 → Bool

/-- Bytes that are never left as they are: controls and everything outside ASCII. -/
def isControl : EscapeSet := fun b => b < 0x20 || 0x7F ≤ b

/-- The bytes of a set and some more characters. -/
def EscapeSet.with (set : EscapeSet) (more : List Char) : EscapeSet :=
  fun b => set b || (more.map Text.ascii).contains b

/-- One byte, escaped or as it is. -/
def escapeByte (set : EscapeSet) (b : UInt8) : List Char :=
  if set b then ['%', Text.hexDigitUpper (b.toNat / 16), Text.hexDigitUpper (b.toNat % 16)]
  else [Char.ofNat b.toNat]

/-- The escaped writing of bytes. -/
def escape (set : EscapeSet) (s : Bytes) : String :=
  String.ofList (s.flatMap (escapeByte set))

/-- The escaped writing of a text. -/
def escapeText (set : EscapeSet) (t : String) : String := escape set (Text.utf8 t)

/-- The bytes that an escaped writing stands for; a `%` without two digits behind it stands
for itself. -/
def unescape : Bytes → Bytes
  | [] => []
  | [b] => [b]
  | [b, c] => [b, c]
  | b :: c :: d :: rest =>
    if b = 0x25 then
      match Text.hexValue? (Char.ofNat c.toNat), Text.hexValue? (Char.ofNat d.toNat) with
      | some high, some low => UInt8.ofNat (16 * high + low) :: unescape rest
      | _, _ => b :: unescape (c :: d :: rest)
    else b :: unescape (c :: d :: rest)

end Swarm.Net.Percent
