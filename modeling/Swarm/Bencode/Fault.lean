/-
# Why a text of the notation is refused

A refusal either says that the bytes ran out, or names what is wrong and at which byte.
-/
import Swarm.Text.Numeral

namespace Swarm.Bencode

/-- What is wrong with the bytes at a position. -/
inductive Malformed
  /-- No digits, a leading zero, a negative zero, a stray character, or out of 64 bits. -/
  | invalidInteger
  /-- A stray character, a leading zero, or a length out of 64 bits. -/
  | invalidLength
  /-- A key that is no byte string. -/
  | nonStringKey
  /-- A byte that opens no value. -/
  | unknownTag (tag : UInt8)
  /-- More bytes after the one value that was asked for. -/
  | trailingData
  /-- A value more than `maxDepth` levels deep. -/
  | nestingTooDeep
  deriving DecidableEq, Repr

/-- The wording of it. -/
def Malformed.message : Malformed → String
  | invalidInteger => "invalid integer"
  | invalidLength => "invalid byte string length"
  | nonStringKey => "dictionary key is not a byte string"
  | unknownTag tag => "unknown tag byte 0x" ++ Text.hexOfBytes [tag]
  | trailingData => "trailing data after value"
  | nestingTooDeep => "nesting too deep"

/-- Why bytes could not be read as a value. -/
inductive DecodeError
  | malformed (position : Nat) (reason : Malformed)
  | endOfInput (position : Nat)
  deriving DecidableEq, Repr

/-- The wording of it. -/
def DecodeError.message : DecodeError → String
  | malformed position reason =>
    "Malformed bencode at byte " ++ toString position ++ ": " ++ reason.message
  | endOfInput position => "Unexpected end of input at byte " ++ toString position

end Swarm.Bencode
