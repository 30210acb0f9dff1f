/-
# The bits of a bitfield on the wire

Eight pieces make a byte, the first of them the most significant bit: `bitAt` says where the bit of
a piece is.  A bitfield that is read has its bits from there (`getElem?_bits_ofBytes`), however they
were cut off and filled up.

A byte is built by doubling and adding, so its bits are the last ones added first
(`testBit_numberOf`), and reading a bit where it was written gives it back: `bitAt_toBytes` says so
for every index, those of spare bits and of bytes that are missing included.
-/
import Mathlib.Algebra.Ring.Nat
import Mathlib.Data.Nat.Bitwise
import Swarm.Pieces.Bitfield

namespace Swarm.Bitfield

/-! ## 1. Bits from bytes -/

/-- The bit of a piece in the bytes of the wire. -/
def bitAt (bytes : Array UInt8) (i : Nat) : Bool :=
  (bytes.getD (i / 8) 0).toNat.testBit (7 - i % 8)

theorem bitAt_toArray (bytes : Bytes) (i : Nat) :
    bitAt bytes.toArray i = (bytes[i / 8]?.getD 0).toNat.testBit (7 - i % 8) := by
  rw [bitAt, Array.getD_eq_getD_getElem?, List.getElem?_toArray]

theorem length_bitsOf (b : UInt8) : (bitsOf b).length = 8 := by
  rw [bitsOf, List.length_map, List.length_range]

theorem getElem?_bitsOf (b : UInt8) {j : Nat} (h : j < 8) :
    (bitsOf b)[j]? = some (b.toNat.testBit (7 - j)) := by
  rw [bitsOf, List.getElem?_map, List.getElem?_range h, Option.map_some]

/-- **Bits one byte after another** are found by dividing: the byte, and the place in it. -/
theorem getElem?_flatMap_bitsOf : ∀ (bytes : Bytes) (i : Nat),
    (bytes.flatMap bitsOf)[i]? = bytes[i / 8]?.map fun b => b.toNat.testBit (7 - i % 8)
  | [], i => by simp
  | b :: bytes, i => by
    rw [List.flatMap_cons]
    by_cases h : i < 8
    · have hfirst : i / 8 = 0 := Nat.div_eq_of_lt h
      rw [List.getElem?_append_left (by rwa [length_bitsOf]), getElem?_bitsOf b h, hfirst,
        List.getElem?_cons_zero, Option.map_some, Nat.mod_eq_of_lt h]
    · have hdiv : i / 8 = (i - 8) / 8 + 1 := by omega
      have hmod : i % 8 = (i - 8) % 8 := by omega
      rw [List.getElem?_append_right (by rw [length_bitsOf]; omega), length_bitsOf,
        getElem?_flatMap_bitsOf bytes (i - 8), hdiv, hmod, List.getElem?_cons_succ]

/-- Cutting off and then filling up is one step. -/
theorem take_append_replicate {α : Type} (a : α) : ∀ (n : Nat) (xs : List α),
    xs.take n ++ List.replicate (n - (xs.take n).length) a = xs.takeD n a
  | 0, _ => rfl
  | n + 1, [] => (List.takeD_nil (n + 1) a).symm
  | n + 1, x :: xs => by
    have ih := take_append_replicate a n xs
    rw [List.take_succ_cons, List.length_cons, Nat.succ_sub_succ, List.cons_append, ih]
    rfl

theorem getElem?_takeD {α : Type} (a : α) : ∀ (n k : Nat) (xs : List α), k < n →
    (xs.takeD n a)[k]? = some (xs[k]?.getD a)
  | 0, _, _, h => absurd h (Nat.not_lt_zero _)
  | n + 1, 0, xs, _ => by
    rw [List.takeD_succ, List.getElem?_cons_zero, List.head?_eq_getElem?]
  | n + 1, k + 1, xs, h => by
    rw [List.takeD_succ, List.getElem?_cons_succ,
      getElem?_takeD a n k xs.tail (Nat.lt_of_succ_lt_succ h), List.getElem?_tail]

/-- **What is read has its bits from the wire**, and zeros where the wire does not reach. -/
theorem getElem?_bits_ofBytes (bytes : Bytes) {amount : UInt32} {i : Nat} (h : i < amount.toNat) :
    (ofBytes bytes amount).bits[i]? = some (bitAt bytes.toArray i) := by
  rw [ofBytes, Vector.getElem?_mk, List.getElem?_toArray, take_append_replicate,
    getElem?_takeD false _ _ _ h, getElem?_flatMap_bitsOf, bitAt_toArray]
  cases bytes[i / 8]? with
  | none => exact congrArg some (Nat.zero_testBit _).symm
  | some b => rfl

/-! ## 2. Bytes from bits -/

/-- The number of `count` bits, the first of them the most significant. -/
def numberOf (bit : Nat → Bool) (count : Nat) : Nat :=
  (List.range count).foldl (fun n j => 2 * n + (bit j).toNat) 0

theorem numberOf_succ (bit : Nat → Bool) (count : Nat) :
    numberOf bit (count + 1) = Nat.bit (bit count) (numberOf bit count) := by
  rw [numberOf, List.range_succ, List.foldl_append, Nat.bit_val]
  rfl

theorem numberOf_lt (bit : Nat → Bool) (count : Nat) : numberOf bit count < 2 ^ count := by
  induction count with
  | zero => exact Nat.one_pos
  | succ count ih =>
    have hbit := Bool.toNat_le (bit count)
    rw [numberOf_succ, Nat.bit_val, Nat.pow_succ]
    omega

theorem testBit_numberOf (bit : Nat → Bool) {count j : Nat} (h : j < count) :
    (numberOf bit count).testBit (count - 1 - j) = bit j := by
  induction count with
  | zero => omega
  | succ count ih =>
    rw [numberOf_succ]
    rcases Nat.lt_succ_iff_lt_or_eq.mp h with hlt | rfl
    · have hplace : count + 1 - 1 - j = (count - 1 - j) + 1 := by omega
      rw [hplace, Nat.testBit_bit_succ, ih hlt]
    · rw [Nat.add_sub_cancel, Nat.sub_self, Nat.testBit_bit_zero]

/-- **A byte has the bits that it was made of.** -/
theorem testBit_byteOf (bit : Nat → Bool) {j : Nat} (h : j < 8) :
    (byteOf bit).toNat.testBit (7 - j) = bit j := by
  have hbyte : (byteOf bit).toNat = numberOf bit 8 :=
    UInt8.toNat_ofNat_of_lt' (numberOf_lt bit 8)
  rw [hbyte]
  exact testBit_numberOf bit h

/-! ## 3. The bytes of a bitfield -/

theorem getD_bits (f : Bitfield) (i : Nat) : f.bits.getD i false = f.bits[i]?.getD false := by
  simp [Vector.getD]

theorem length_toBytes (f : Bitfield) : f.toBytes.length = (f.amount.toNat + 7) / 8 := by
  simp [toBytes]

/-- **A bit is read where it was written**; beyond the last piece there is none. -/
theorem bitAt_toBytes (f : Bitfield) (i : Nat) :
    bitAt f.toBytes.toArray i = f.bits.getD i false := by
  rw [bitAt_toArray]
  by_cases h : i / 8 < (f.amount.toNat + 7) / 8
  · have hbyte : f.toBytes[i / 8]? = some (byteOf fun j => f.bits.getD (8 * (i / 8) + j) false) := by
      simp [toBytes, h]
    rw [hbyte, Option.getD_some, testBit_byteOf _ (Nat.mod_lt i (by decide)), Nat.div_add_mod]
  · have hnone : f.toBytes[i / 8]? = none := by
      rw [List.getElem?_eq_none_iff, length_toBytes]
      omega
    have hbit : f.bits[i]? = none := by
      rw [Vector.getElem?_eq_none_iff]
      omega
    rw [hnone, getD_bits, hbit]
    exact Nat.zero_testBit _

end Swarm.Bitfield
