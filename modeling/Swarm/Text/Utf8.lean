/-
# Text and its bytes

Text is written in UTF-8.  `utf8` gives the bytes of a text, `text?` reads bytes back and
refuses anything that is not the writing of a text, and `lossyText` reads any bytes at all: a
maximal part that no continuation can complete becomes one U+FFFD, which is how a name that
should have been text is still shown.

`text?_utf8` and `utf8_of_text?_eq_some` say that the strict reading is exactly the inverse
of writing.
-/
import Swarm.Bytes

namespace Swarm.Text

/-! ## 1. Strict reading -/

/-- The bytes of a text. -/
def utf8 (t : String) : Bytes := t.toByteArray.data.toList

/-- The text with these bytes, if there is one. -/
def text? (s : Bytes) : Option String := String.fromUTF8? ⟨⟨s⟩⟩

@[simp] theorem text?_utf8 (t : String) : text? (utf8 t) = some t := by
  have h : (⟨⟨utf8 t⟩⟩ : ByteArray) = t.toByteArray := by simp [utf8]
  rw [text?, h, String.fromUTF8?, dif_pos t.isValidUTF8]
  rfl

theorem utf8_of_text?_eq_some {s : Bytes} {t : String} (h : text? s = some t) : utf8 t = s := by
  simp only [text?, String.fromUTF8?] at h
  split at h
  · simp only [Option.some.injEq] at h
    subst h
    rfl
  · simp at h

theorem text?_eq_some_iff {s : Bytes} {t : String} : text? s = some t ↔ s = utf8 t := by
  constructor
  · intro h
    exact (utf8_of_text?_eq_some h).symm
  · rintro rfl
    exact text?_utf8 t

theorem utf8_injective {t u : String} (h : utf8 t = utf8 u) : t = u := by
  have := text?_utf8 t
  rw [h, text?_utf8] at this
  exact (Option.some.inj this).symm

/-! ## 2. Lossy reading -/

/-- Stands for a part that is not text. -/
def replacement : Char := '\uFFFD'

/-- What a first byte announces: how many bytes follow, which values the next one may take,
and the bits that the first byte itself contributes.  The bounds on the next byte keep out
the writings that are too long, the surrogates and whatever lies above U+10FFFF. -/
def lead? (b : UInt8) : Option (Nat × UInt8 × UInt8 × Nat) :=
  if b ≤ 0x7F then some (0, 0x80, 0xBF, b.toNat)
  else if 0xC2 ≤ b && b ≤ 0xDF then some (1, 0x80, 0xBF, b.toNat - 0xC0)
  else if b = 0xE0 then some (2, 0xA0, 0xBF, 0)
  else if 0xE1 ≤ b && b ≤ 0xEC then some (2, 0x80, 0xBF, b.toNat - 0xE0)
  else if b = 0xED then some (2, 0x80, 0x9F, 0x0D)
  else if 0xEE ≤ b && b ≤ 0xEF then some (2, 0x80, 0xBF, b.toNat - 0xE0)
  else if b = 0xF0 then some (3, 0x90, 0xBF, 0)
  else if 0xF1 ≤ b && b ≤ 0xF3 then some (3, 0x80, 0xBF, b.toNat - 0xF0)
  else if b = 0xF4 then some (3, 0x80, 0x8F, 4)
  else none

/-- A character that has been begun: `more` bytes are to come, the next one within the
bounds, and `bits` has been collected so far. -/
structure Begun where
  more : Nat
  low : UInt8
  high : UInt8
  bits : Nat

/-- What a byte does that nothing has been begun before: it stands for itself, begins a
longer character, or is no text. -/
def start (b : UInt8) : List Char × Option Begun :=
  match lead? b with
  | none => ([replacement], none)
  | some (0, _, _, bits) => ([Char.ofNat bits], none)
  | some (more + 1, low, high, bits) => ([], some ⟨more + 1, low, high, bits⟩)

/-- **One byte at a time.**  A byte goes on with the character begun, completes it, or shows
that it is broken, in which case the byte is looked at afresh. -/
def lossyStep : Option Begun → UInt8 → List Char × Option Begun
  | none, b => start b
  | some c, b =>
    if c.low ≤ b && b ≤ c.high then
      let bits := c.bits * 64 + (b.toNat - 0x80)
      if c.more ≤ 1 then ([Char.ofNat bits], none)
      else ([], some ⟨c.more - 1, 0x80, 0xBF, bits⟩)
    else
      (replacement :: (start b).1, (start b).2)

/-- The characters of the bytes, from the character begun on. -/
def lossyFrom : Option Begun → Bytes → List Char
  | none, [] => []
  | some _, [] => [replacement]
  | begun, b :: rest => (lossyStep begun b).1 ++ lossyFrom (lossyStep begun b).2 rest

/-- The text of any bytes, with U+FFFD for each maximal part that is not text. -/
def lossyText (s : Bytes) : String := String.ofList (lossyFrom none s)

end Swarm.Text
