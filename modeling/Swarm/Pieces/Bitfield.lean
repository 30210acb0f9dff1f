/-
# The set of owned pieces

One bit for each piece, set if the piece is owned.  On the wire the bits of eight pieces make
a byte, the first of them the most significant; the last byte is filled up with zeros.  Bytes
that are missing count as zeros, and bits beyond the last piece are dropped.
-/
import Swarm.Error

namespace Swarm

/-- Which of a number of pieces are owned. -/
structure Bitfield where
  amount : UInt32
  bits : Vector Bool amount.toNat
  deriving DecidableEq

namespace Bitfield

/-! ## 1. From and to the wire -/

/-- No piece is owned. -/
def new (amount : UInt32) : Bitfield := ⟨amount, Vector.replicate amount.toNat false⟩

/-- The bits of a byte, the most significant one first. -/
def bitsOf (b : UInt8) : List Bool := (List.range 8).map fun j => b.toNat.testBit (7 - j)

/-- The set that bytes of the wire give for a number of pieces: the bits of all bytes, of which
those behind the last piece are cut off, and with zeros for the pieces that they do not reach. -/
def ofBytes (bytes : Bytes) (amount : UInt32) : Bitfield :=
  let bits := (bytes.flatMap bitsOf).take amount.toNat
  let grown := bits ++ List.replicate (amount.toNat - bits.length) false
  have hbits : bits.length ≤ amount.toNat := List.length_take_le ..
  ⟨amount, grown.toArray, by simp only [grown, List.size_toArray, List.length_append,
    List.length_replicate, Nat.add_sub_of_le hbits]⟩

/-- The number of a byte's eight bits, the first of them the most significant. -/
def byteOf (bit : Nat → Bool) : UInt8 :=
  UInt8.ofNat ((List.range 8).foldl (fun n j => 2 * n + (bit j).toNat) 0)

/-- The bytes on the wire. -/
def toBytes (f : Bitfield) : Bytes :=
  (List.range ((f.amount.toNat + 7) / 8)).map fun k => byteOf fun j => f.bits.getD (8 * k + j) false

/-! ## 2. Single pieces -/

/-- Does something with the bit of a piece, if there is such a piece. -/
def withPiece {α : Type} (f : Bitfield) (index : UInt32)
    (act : Fin f.amount.toNat → α) : Except Error α :=
  if h : index.toNat < f.amount.toNat then .ok (act ⟨index.toNat, h⟩)
  else .error (.indexOutOfRange index.toNat f.amount.toNat)

/-- Whether a piece is owned. -/
def isSet (f : Bitfield) (index : UInt32) : Except Error Bool :=
  f.withPiece index fun i => f.bits[i]

/-- Marks a piece as owned; says whether it was not before. -/
def set (f : Bitfield) (index : UInt32) : Except Error (Bool × Bitfield) :=
  f.withPiece index fun i => (!f.bits[i], ⟨f.amount, f.bits.set i true⟩)

/-- Marks a piece as not owned; says whether it was before. -/
def unset (f : Bitfield) (index : UInt32) : Except Error (Bool × Bitfield) :=
  f.withPiece index fun i => (f.bits[i], ⟨f.amount, f.bits.set i false⟩)

/-! ## 3. All pieces -/

/-- How many pieces are owned. -/
def count (f : Bitfield) : Nat := f.bits.toList.countP id

/-- Whether every piece is owned. -/
def isComplete (f : Bitfield) : Bool := f.bits.toList.all id

/-- The first piece that is owned. -/
def firstSet? (f : Bitfield) : Option Nat := f.bits.toList.findIdx? id

/-- The first piece that is not owned. -/
def firstUnset? (f : Bitfield) : Option Nat := f.bits.toList.findIdx? (!·)

/-- How the set is shown: a digit for each piece. -/
def display (f : Bitfield) : String :=
  "Bitfield \x7b amount_of_pieces: " ++ toString f.amount.toNat ++ ", bits: " ++
    String.ofList (f.bits.toList.map fun b => if b then '1' else '0') ++ " \x7d"

/-- The set of a torrent of which nothing is owned yet. -/
def ofPieceCount (count : Nat) : Bitfield := new (UInt32.ofNat count)

end Bitfield
end Swarm
