/-
# Numerals

A numeral is a run of digits, most significant first.  Decimal numerals are written with as
few digits as the number needs; read back they must be `plain`, that is non-empty and without
a leading zero, wherever a format asks for exactly one spelling of a number.  Hexadecimal
digits are needed for single bytes (two digits) and for small numbers (as few as needed).
-/
import Swarm.Bytes

namespace Swarm.Text

/-! ## 1. Decimal numerals over bytes -/

/-- The byte of an ASCII character. -/
def ascii (c : Char) : UInt8 := UInt8.ofNat c.toNat

/-- One of the bytes `0` to `9`. -/
def isDigit (b : UInt8) : Bool := 48 ≤ b && b ≤ 57

/-- What a digit counts. -/
def digitValue (b : UInt8) : Nat := b.toNat - 48

/-- The decimal writing of a number. -/
def decimal (n : Nat) : Bytes := (Nat.toDigits 10 n).map ascii

/-- The number that a run of digits writes. -/
def ofDigits (run : Bytes) : Nat := run.foldl (fun n b => 10 * n + digitValue b) 0

/-- At least one digit, and none of them a leading zero. -/
def isPlain : Bytes → Bool
  | [] => false
  | [_] => true
  | b :: _ :: _ => b != 48

/-- The decimal writing of a whole number, with its sign if it is negative. -/
def signedDecimal (n : Int) : Bytes :=
  if n < 0 then 45 :: decimal n.natAbs else decimal n.natAbs

/-! ## 2. Hexadecimal -/

/-- The lower case digit of a number below sixteen. -/
def hexDigit (n : Nat) : Char := Nat.digitChar n

/-- The upper case digit of a number below sixteen. -/
def hexDigitUpper (n : Nat) : Char := (Nat.digitChar n).toUpper

/-- A number with as few lower case hexadecimal digits as it needs. -/
def hex (n : Nat) : List Char := Nat.toDigits 16 n

/-- Two lower case digits for each byte. -/
def hexOfBytes (s : Bytes) : String :=
  String.ofList (s.flatMap fun b => [hexDigit (b.toNat / 16), hexDigit (b.toNat % 16)])

/-- What a hexadecimal digit of either case counts. -/
def hexValue? (c : Char) : Option Nat :=
  if '0' ≤ c && c ≤ '9' then some (c.toNat - '0'.toNat)
  else if 'a' ≤ c && c ≤ 'f' then some (c.toNat - 'a'.toNat + 10)
  else if 'A' ≤ c && c ≤ 'F' then some (c.toNat - 'A'.toNat + 10)
  else none

/-- The bytes that pairs of hexadecimal digits write. -/
def bytesOfHex? : List Char → Option Bytes
  | [] => some []
  | [_] => none
  | c :: d :: rest => do
    let high ← hexValue? c
    let low ← hexValue? d
    let bytes ← bytesOfHex? rest
    return UInt8.ofNat (16 * high + low) :: bytes

/-- Pads a run of characters with zeros on the left up to a width. -/
def padZero (width : Nat) (run : List Char) : List Char :=
  List.replicate (width - run.length) '0' ++ run

end Swarm.Text
