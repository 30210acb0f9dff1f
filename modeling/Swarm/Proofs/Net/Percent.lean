/-
# Escapes are undone

A byte that is escaped is written as `%` and two digits, and any other byte is a character of its
own.  As long as `%` itself and everything outside ASCII is escaped (`Reversible`), the bytes of
the writing are those that `unescape` reads: `unescape_utf8_escape` gives back what was escaped,
whatever it was.  The characters of the writing are `%`, digits, and what the set leaves as it is
(`mem_escape`).

A set that leaves `%` as it is, as those for the parts of URLs do, cannot be undone, but nothing is
escaped twice: what has been escaped is left as it is from then on (`Settling.plain_escape`,
`escapeText_of_plain`).
-/
import Mathlib.Data.List.Basic
import Swarm.Net.Percent

namespace Swarm

/-! ## 1. ASCII -/

namespace Text

theorem toNat_ascii {c : Char} (h : c.toNat < 128) : (ascii c).toNat = c.toNat :=
  UInt8.toNat_ofNat_of_lt' (by simp only [UInt8.size]; omega)

theorem toNat_ofNat_of_ascii {n : Nat} (h : n < 128) : (Char.ofNat n).toNat = n := by
  revert n
  decide

theorem lt_of_isAlphanum {c : Char} (h : c.isAlphanum = true) : c.toNat < 128 := by
  have hclass : (decide ('A'.val ≤ c.val ∧ c.val ≤ 'Z'.val) ||
      (decide ('a'.val ≤ c.val) && decide (c.val ≤ 'z'.val)) ||
      (decide ('0'.val ≤ c.val) && decide (c.val ≤ '9'.val))) = true := h
  simp only [Bool.or_eq_true, Bool.and_eq_true, decide_eq_true_eq,
    UInt32.le_iff_toNat_le] at hclass
  rcases hclass with (h | h) | h
  · exact Nat.lt_of_le_of_lt h.2 (by decide)
  · exact Nat.lt_of_le_of_lt h.2 (by decide)
  · exact Nat.lt_of_le_of_lt h.2 (by decide)

/-- A byte of ASCII is the byte of its character. -/
theorem ascii_ofNat {b : UInt8} (h : b.toNat < 128) : ascii (Char.ofNat b.toNat) = b := by
  rw [ascii, toNat_ofNat_of_ascii h, UInt8.ofNat_toNat]

theorem utf8EncodeChar_of_ascii {c : Char} (h : c.toNat < 128) :
    String.utf8EncodeChar c = [ascii c] := by
  have hsize : c.utf8Size = 1 := by
    rw [Char.utf8Size_eq_one_iff, UInt32.le_iff_toNat_le]
    exact Nat.le_of_lt_succ h
  have hbyte : c.val.toUInt8 = ascii c := by
    rw [← UInt8.toNat_inj, toNat_ascii h, UInt32.toNat_toUInt8]
    exact Nat.mod_eq_of_lt (Nat.lt_trans h (by decide))
  rw [String.utf8EncodeChar_eq_singleton hsize, hbyte]

theorem utf8_cons (c : Char) (cs : List Char) :
    utf8 (String.ofList (c :: cs)) = String.utf8EncodeChar c ++ utf8 (String.ofList cs) := by
  rw [utf8, String.toByteArray_ofList, List.utf8Encode_cons, List.utf8Encode_singleton,
    ByteArray.data_append, ← String.toByteArray_ofList (l := cs), Array.toList_append]
  simp [utf8]

/-- **Characters of ASCII are one byte each.** -/
theorem utf8_of_ascii {cs : List Char} (h : ∀ c ∈ cs, c.toNat < 128) :
    utf8 (String.ofList cs) = cs.map ascii := by
  induction cs with
  | nil => rfl
  | cons c cs ih =>
    obtain ⟨hc, hcs⟩ := List.forall_mem_cons.mp h
    rw [utf8_cons, utf8EncodeChar_of_ascii hc, ih hcs]
    rfl

end Text

/-! ## 2. One byte -/

namespace Net.Percent

open Text (ascii hexDigitUpper hexValue? utf8)

/-- Both digits of an escape are read back, and stand for nothing else. -/
theorem hexValue?_hexDigitUpper {d : Nat} (h : d < 16) :
    hexValue? (Char.ofNat (ascii (hexDigitUpper d)).toNat) = some d := by
  revert d
  decide

theorem isAlphanum_hexDigitUpper {d : Nat} (h : d < 16) : (hexDigitUpper d).isAlphanum = true := by
  revert d
  decide

/-- **What is escaped can be told from what is not**: the `%`, and all that is outside ASCII. -/
def Reversible (set : EscapeSet) : Prop :=
  ∀ b, set b = false → b ≠ 0x25 ∧ b.toNat < 128

/-- A byte other than `%` stands for itself. -/
theorem unescape_cons {b : UInt8} (h : b ≠ 0x25) (rest : Bytes) :
    unescape (b :: rest) = b :: unescape rest := by
  match rest with
  | [] => rfl
  | [c] => rfl
  | c :: d :: rest => rw [unescape, if_neg h]

theorem unescape_of_notMem {s : Bytes} (h : 0x25 ∉ s) : unescape s = s := by
  induction s with
  | nil => rfl
  | cons b s ih =>
    have hb : b ≠ 0x25 := Ne.symm (List.ne_of_not_mem_cons h)
    rw [unescape_cons hb, ih (List.not_mem_of_not_mem_cons h)]

/-- **The escape of a byte is undone**, whatever follows it. -/
theorem unescape_escapeByte_append {set : EscapeSet} (h : Reversible set) (b : UInt8)
    (rest : Bytes) : unescape ((escapeByte set b).map ascii ++ rest) = b :: unescape rest := by
  have hlt := b.toNat_lt
  rw [escapeByte]
  split
  · have hhigh := hexValue?_hexDigitUpper (d := b.toNat / 16) (by omega)
    have hlow := hexValue?_hexDigitUpper (d := b.toNat % 16) (by omega)
    have hvalue : UInt8.ofNat (16 * (b.toNat / 16) + b.toNat % 16) = b := by
      rw [Nat.div_add_mod, UInt8.ofNat_toNat]
    simp only [List.map_cons, List.map_nil, List.cons_append, List.nil_append]
    rw [unescape, if_pos (by decide), hhigh, hlow]
    exact congrArg (· :: unescape rest) hvalue
  · rename_i hplain
    obtain ⟨hne, hascii⟩ := h b (Bool.eq_false_iff.mpr hplain)
    rw [List.map_singleton, Text.ascii_ofNat hascii, List.singleton_append, unescape_cons hne]

/-! ## 3. Byte strings -/

theorem mem_escape {set : EscapeSet} {s : Bytes} {c : Char} (h : c ∈ (escape set s).toList) :
    c = '%' ∨ c.isAlphanum = true ∨ ∃ b, set b = false ∧ c = Char.ofNat b.toNat := by
  rw [escape, String.toList_ofList] at h
  obtain ⟨b, -, hc⟩ := List.mem_flatMap.mp h
  have hlt := b.toNat_lt
  rw [escapeByte] at hc
  split at hc
  · simp only [List.mem_cons, List.not_mem_nil, or_false] at hc
    rcases hc with rfl | rfl | rfl
    · exact .inl rfl
    · exact .inr (.inl (isAlphanum_hexDigitUpper (by omega)))
    · exact .inr (.inl (isAlphanum_hexDigitUpper (by omega)))
  · rename_i hplain
    exact .inr (.inr ⟨b, Bool.eq_false_iff.mpr hplain, List.mem_singleton.mp hc⟩)

theorem lt_of_mem_escape {set : EscapeSet} (h : Reversible set) {s : Bytes} {c : Char}
    (hc : c ∈ (escape set s).toList) : c.toNat < 128 := by
  rcases mem_escape hc with rfl | halphanum | ⟨b, hplain, rfl⟩
  · decide
  · exact Text.lt_of_isAlphanum halphanum
  · have hlt := (h b hplain).2
    rwa [Text.toNat_ofNat_of_ascii hlt]

/-- **What was escaped is read back**, byte by byte. -/
theorem unescape_utf8_escape {set : EscapeSet} (h : Reversible set) (s : Bytes) :
    unescape (utf8 (escape set s)) = s := by
  have hascii : utf8 (escape set s) = s.flatMap fun b => (escapeByte set b).map ascii := by
    have hall : ∀ c ∈ s.flatMap (escapeByte set), c.toNat < 128 := by
      intro c hc
      refine lt_of_mem_escape h (s := s) ?_
      rwa [escape, String.toList_ofList]
    rw [escape, Text.utf8_of_ascii hall, List.map_flatMap]
  rw [hascii]
  clear hascii
  induction s with
  | nil => rfl
  | cons b s ih => rw [List.flatMap_cons, unescape_escapeByte_append h, ih]

/-! ## 4. What is left as it is -/

/-- There is nothing in the text to be escaped. -/
def Plain (set : EscapeSet) (t : String) : Prop :=
  ∀ c ∈ t.toList, c.toNat < 128 ∧ set (ascii c) = false

-- The instance is named, for there is another one that goes through all characters.
instance (set : EscapeSet) (t : String) : Decidable (Plain set t) := List.decidableBAll _ _

theorem Plain.append {set : EscapeSet} {t u : String} (ht : Plain set t) (hu : Plain set u) :
    Plain set (t ++ u) := by
  intro c hc
  rw [String.toList_append, List.mem_append] at hc
  exact hc.elim (ht c) (hu c)

/-- **A plain text is its own escaped writing.** -/
theorem escapeText_of_plain {set : EscapeSet} {t : String} (h : Plain set t) :
    escapeText set t = t := by
  have hbytes : utf8 t = t.toList.map ascii := by
    rw [← Text.utf8_of_ascii fun c hc => (h c hc).1, String.ofList_toList]
  have hchar : ∀ c ∈ t.toList, escapeByte set (ascii c) = [c] := by
    intro c hc
    obtain ⟨hascii, hplain⟩ := h c hc
    rw [escapeByte, hplain, if_neg (by decide), Text.toNat_ascii hascii, Char.ofNat_toNat]
  rw [escapeText, escape, hbytes, List.flatMap_map, List.flatMap_congr hchar,
    List.flatMap_singleton', String.ofList_toList]

/-- **Nothing is escaped twice**: everything outside ASCII is escaped, and no character of an escape
is. -/
structure Settling (set : EscapeSet) : Prop where
  ascii : ∀ b, set b = false → b.toNat < 128
  percent : set 0x25 = false
  alphanum : ∀ c : Char, c.isAlphanum = true → set (Text.ascii c) = false

theorem Settling.plain_escape {set : EscapeSet} (h : Settling set) (s : Bytes) :
    Plain set (escape set s) := by
  intro c hc
  rcases mem_escape hc with rfl | halphanum | ⟨b, hb, rfl⟩
  · exact ⟨by decide, h.percent⟩
  · exact ⟨Text.lt_of_isAlphanum halphanum, h.alphanum c halphanum⟩
  · have hlt := h.ascii b hb
    rw [Text.toNat_ofNat_of_ascii hlt, Text.ascii_ofNat hlt]
    exact ⟨hlt, hb⟩

end Net.Percent
end Swarm
