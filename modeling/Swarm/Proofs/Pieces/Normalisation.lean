/-
# The wire form says which pieces are owned, and nothing else

`Marked` is what bytes on the wire say of a piece.  A bitfield that is read owns the pieces that
are marked (`mem_owned_ofBytes_iff`), and what is written of a bitfield marks the pieces that it
owns (`marked_toBytes`), so neither the length of the bytes nor the bits behind the last piece are
remembered:

* `ofBytes_toBytes`: what is written is read as it was;
* `toBytes_ofBytes`: what is read is written as `fitted`, which is the same bytes in the size that
  belongs to the number of pieces, without a mark on anything that is no piece;
* `mem_owned_reloads`: pieces that were dropped for a smaller number do not come back for a larger
  one.

Two byte strings of one length with the same marks are equal (`eq_of_marked`), so a statement about
bytes is one about their marks.
-/
import Swarm.Proofs.Pieces.Ownership

namespace Swarm.Bitfield

variable {f : Bitfield} {bytes : Bytes} {amount : UInt32} {i : Nat}

/-! ## 1. Marks on the wire -/

/-- The bytes mark the piece as owned: they reach as far as the piece, and its bit is one.  Eight
pieces make a byte, the first of them its most significant bit. -/
def Marked (bytes : Bytes) (i : Nat) : Prop :=
  ∃ h : i < 8 * bytes.length,
    (bytes.get ⟨i / 8, Nat.div_lt_of_lt_mul h⟩).toNat.testBit (7 - i % 8) = true

/-- Bytes that are missing mark nothing. -/
theorem bitAt_eq_true_iff : bitAt bytes.toArray i = true ↔ Marked bytes i := by
  rw [bitAt_toArray]
  by_cases h : i < 8 * bytes.length
  · have hbyte : i / 8 < bytes.length := Nat.div_lt_of_lt_mul h
    rw [List.getElem?_eq_getElem hbyte, Option.getD_some]
    exact ⟨fun hbit => ⟨h, hbit⟩, fun hmark => hmark.2⟩
  · have hnone : bytes[i / 8]? = none := by
      rw [List.getElem?_eq_none_iff]
      omega
    rw [hnone, Option.getD_none]
    exact ⟨fun hbit => absurd hbit (by simp), fun hmark => absurd hmark.1 h⟩

instance : Decidable (Marked bytes i) := decidable_of_iff _ bitAt_eq_true_iff

theorem mem_owned_ofBytes_iff :
    i ∈ (ofBytes bytes amount).owned ↔ i < amount.toNat ∧ Marked bytes i := by
  rw [mem_owned_ofBytes, bitAt_eq_true_iff]

/-- **What is written marks what is owned.** -/
theorem marked_toBytes : Marked f.toBytes i ↔ i ∈ f.owned := by
  rw [← bitAt_eq_true_iff, bitAt_toBytes, getD_bits, mem_owned, Option.getD_eq_iff]
  simp

/-- The bitfield owns the pieces that the bytes mark. -/
def Agrees (f : Bitfield) (bytes : Bytes) : Prop :=
  ∀ index : UInt32, index.toNat < f.amount.toNat →
    f.isSet index = .ok (decide (Marked bytes index.toNat))

theorem agrees_ofBytes (bytes : Bytes) (amount : UInt32) : (ofBytes bytes amount).Agrees bytes := by
  intro index h
  rw [isSet_of_lt h]
  have hmark : index.toNat ∈ (ofBytes bytes amount).owned ↔ Marked bytes index.toNat :=
    mem_owned_ofBytes_iff.trans (and_iff_right h)
  exact congrArg Except.ok (decide_eq_decide.mpr hmark)

theorem agrees_toBytes (f : Bitfield) : f.Agrees f.toBytes := by
  intro index h
  rw [isSet_of_lt h]
  exact congrArg Except.ok (decide_eq_decide.mpr marked_toBytes.symm)

/-- **What is written is read as it was.** -/
theorem ofBytes_toBytes (f : Bitfield) : ofBytes f.toBytes f.amount = f := by
  obtain ⟨amount, bits⟩ := f
  refine congrArg (mk amount) (Vector.ext fun i hi => ?_)
  have hbit := getElem?_bits_ofBytes (toBytes ⟨amount, bits⟩) hi
  rw [bitAt_toBytes, getD_bits, Vector.getElem?_eq_getElem hi, Option.getD_some] at hbit
  exact (Vector.getElem?_eq_some_iff.mp hbit).2

/-! ## 2. Bytes are known by their marks -/

/-- The lower bits of a byte are all of it. -/
theorem byte_eq_of_testBit {a b : UInt8} (h : ∀ j < 8, a.toNat.testBit j = b.toNat.testBit j) :
    a = b := by
  refine UInt8.toNat_inj.mp (Nat.eq_of_testBit_eq fun j => ?_)
  by_cases hj : j < 8
  · exact h j hj
  · have hsize : 2 ^ 8 ≤ 2 ^ j := Nat.pow_le_pow_right (by decide) (Nat.le_of_not_lt hj)
    rw [Nat.testBit_lt_two_pow (Nat.lt_of_lt_of_le a.toNat_lt hsize),
      Nat.testBit_lt_two_pow (Nat.lt_of_lt_of_le b.toNat_lt hsize)]

theorem eq_of_marked {xs ys : Bytes} (hlength : xs.length = ys.length)
    (h : ∀ i, Marked xs i ↔ Marked ys i) : xs = ys := by
  refine List.ext_getElem hlength fun k hx hy => byte_eq_of_testBit fun j hj => ?_
  -- the bit `j` of a byte is the mark of its piece `7 - j`
  have hbyte : (8 * k + (7 - j)) / 8 = k := by omega
  have hplace : 7 - (8 * k + (7 - j)) % 8 = j := by omega
  have hmark := h (8 * k + (7 - j))
  rw [← bitAt_eq_true_iff, ← bitAt_eq_true_iff, bitAt_toArray, bitAt_toArray, hbyte, hplace,
    List.getElem?_eq_getElem hx, List.getElem?_eq_getElem hy, ← Bool.eq_iff_iff] at hmark
  exact hmark

/-! ## 3. Bytes in the size of a number of pieces -/

/-- The byte of which the first `count` bits are ones, all of them if there are no more than
that. -/
def leading (count : Nat) : UInt8 := UInt8.ofNat (256 - 2 ^ (8 - count))

theorem testBit_leading (count : Nat) {j : Nat} (h : j < 8) :
    (leading count).toNat.testBit (7 - j) = decide (j < count) := by
  by_cases hcount : count < 8
  · have hall : ∀ count < 8, ∀ j < 8,
        (leading count).toNat.testBit (7 - j) = decide (j < count) := by
      decide
    exact hall count hcount j h
  · have hnone : 8 - count = 0 := by omega
    have hfull : leading count = 255 := by
      rw [leading, hnone]
      rfl
    have hall : ∀ j < 8, (255 : UInt8).toNat.testBit (7 - j) = true := by decide
    rw [hfull, hall j h, decide_eq_true (by omega)]

/-- **The bytes for a number of pieces**: cut off, or filled up with zeros, to one byte for eight
pieces, and without the bits that are no piece's. -/
def fitted (bytes : Bytes) (amount : Nat) : Bytes :=
  (bytes.takeD ((amount + 7) / 8) 0).mapIdx fun k byte => byte &&& leading (amount - 8 * k)

theorem length_fitted (bytes : Bytes) (amount : Nat) :
    (fitted bytes amount).length = (amount + 7) / 8 := by
  rw [fitted, List.length_mapIdx, List.takeD_length]

/-- The marks of pieces are left as they are, and there are no others. -/
theorem marked_fitted {amount : Nat} :
    Marked (fitted bytes amount) i ↔ i < amount ∧ Marked bytes i := by
  by_cases h : i / 8 < (amount + 7) / 8
  · have hbyte : (fitted bytes amount)[i / 8]? =
        some (bytes[i / 8]?.getD 0 &&& leading (amount - 8 * (i / 8))) := by
      rw [fitted, List.getElem?_mapIdx, getElem?_takeD 0 _ _ _ h]
      rfl
    have hplace : i % 8 < amount - 8 * (i / 8) ↔ i < amount := by omega
    rw [← bitAt_eq_true_iff, ← bitAt_eq_true_iff, bitAt_toArray, bitAt_toArray, hbyte,
      Option.getD_some, UInt8.toNat_and, Nat.testBit_and,
      testBit_leading _ (Nat.mod_lt i (by decide)), Bool.and_eq_true, decide_eq_true_iff, hplace,
      and_comm]
  · constructor
    · rintro ⟨hi, -⟩
      rw [length_fitted] at hi
      omega
    · rintro ⟨hi, -⟩
      omega

/-- **What is read is written in the size that belongs to it.** -/
theorem toBytes_ofBytes (bytes : Bytes) (amount : UInt32) :
    (ofBytes bytes amount).toBytes = fitted bytes amount.toNat := by
  refine eq_of_marked ?_ fun i => ?_
  · rw [length_toBytes, length_fitted]
    rfl
  · rw [marked_toBytes, mem_owned_ofBytes_iff, marked_fitted]

/-! ## 4. Written and read back -/

/-- The bitfield after it was written and read back, for one number of pieces after another. -/
def reloads (f : Bitfield) (amounts : List UInt32) : Bitfield :=
  amounts.foldl (fun g amount => ofBytes g.toBytes amount) f

theorem amount_reloads (amounts : List UInt32) : ∀ f : Bitfield,
    (f.reloads amounts).amount = amounts.getLast?.getD f.amount := by
  induction amounts with
  | nil =>
    intro f
    rfl
  | cons amount amounts ih =>
    intro f
    rw [List.getLast?_cons]
    exact ih (ofBytes f.toBytes amount)

/-- **A piece that is dropped once does not come back.** -/
theorem mem_owned_reloads (amounts : List UInt32) : ∀ f : Bitfield,
    i ∈ (f.reloads amounts).owned ↔ i ∈ f.owned ∧ ∀ amount ∈ amounts, i < amount.toNat := by
  induction amounts with
  | nil =>
    intro f
    simp [reloads]
  | cons amount amounts ih =>
    intro f
    rw [List.forall_mem_cons, ← and_assoc, ← mem_owned_reload]
    exact ih (ofBytes f.toBytes amount)

/-- **The wire form and the pieces determine one another.**  Bytes are read as the pieces that they
mark.  Of every bitfield a byte is written for each eight pieces, they mark the pieces that are
owned and nothing behind the last one.  So what is written is read as it was, and what is read is
written as the same bytes, cut off or filled up and without the bits that are no piece's.  Read
back for other numbers of pieces, one after another, the pieces are kept that lie below all of
them. -/
theorem wire_form_determines (f : Bitfield) (bytes : Bytes) (amount : UInt32)
    (amounts : List UInt32) :
    ((ofBytes bytes amount).amount = amount ∧ (ofBytes bytes amount).Agrees bytes) ∧
      (f.toBytes.length = (f.amount.toNat + 7) / 8 ∧ f.Agrees f.toBytes ∧
        ∀ i, f.amount.toNat ≤ i → ¬ Marked f.toBytes i) ∧
      ofBytes f.toBytes f.amount = f ∧
      (ofBytes bytes amount).toBytes = fitted bytes amount.toNat ∧
      (f.reloads amounts).amount = amounts.getLast?.getD f.amount ∧
      ∀ index : UInt32, index.toNat < (f.reloads amounts).amount.toNat →
        ∃ b, (f.reloads amounts).isSet index = .ok b ∧
          (b = true ↔ f.isSet index = .ok true ∧ ∀ m ∈ amounts, index.toNat < m.toNat) := by
  refine ⟨⟨rfl, agrees_ofBytes bytes amount⟩, ⟨length_toBytes f, agrees_toBytes f, ?_⟩,
    ofBytes_toBytes f, toBytes_ofBytes bytes amount, amount_reloads amounts f, ?_⟩
  · intro i hi hmark
    exact absurd (lt_of_mem_owned (marked_toBytes.mp hmark)) (Nat.not_lt_of_le hi)
  · intro index h
    refine ⟨_, isSet_of_lt h, ?_⟩
    rw [decide_eq_true_iff, mem_owned_reloads, isSet_eq_ok_true_iff]

/-- Of two bytes for ten pieces the last six bits are dropped. -/
example : fitted [0xa0, 0xff, 0x01] 10 = [0xa0, 0xc0] ∧ fitted [0xff] 10 = [0xff, 0x00] := by
  decide

end Swarm.Bitfield
