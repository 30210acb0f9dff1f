/-
# A text is a spelling in one way only

Two spellings with the same bytes are the same, and neither begins with the other:
`Spelling.text_append_inj` tells spellings apart by their bytes, whatever follows them, however
deep they are and however long their byte strings.  No reader takes part in this: the first
byte shows the kind, a leaf ends where its own digits say, and a container goes on up to the
mark with which no item begins.

What is written is a spelling, so it shows its value and its end (`Value.encode_append_inj`).
-/
import Swarm.Proofs.Bencode.Reading
import Swarm.Proofs.Bencode.Writing

namespace Swarm.Bencode

/-! ## 1. Leaves -/

/-- A byte string ends where its length says. -/
theorem encodeBytes_append_inj {a b r s : Bytes} (h : encodeBytes a ++ r = encodeBytes b ++ s) :
    a = b ∧ r = s := by
  have hcolon : Text.isDigit Mark.colon = false := by decide
  have hsplit := congrArg splitDigits h
  rw [encodeBytes, encodeBytes, List.append_assoc, List.append_assoc, List.cons_append,
    List.cons_append, splitDigits_append (Text.isDigit_of_mem_decimal a.length) hcolon,
    splitDigits_append (Text.isDigit_of_mem_decimal b.length) hcolon, Prod.mk.injEq] at hsplit
  obtain ⟨hdigits, hrest⟩ := hsplit
  have hlength : a.length = b.length := Text.decimal_injective hdigits
  exact List.append_inj (List.cons.inj hrest).2 hlength

/-- A number ends at the mark behind its digits. -/
theorem signedDecimal_append_inj {m n : Int64} {r s : Bytes}
    (h : Text.signedDecimal m.toInt ++ Mark.close :: r
      = Text.signedDecimal n.toInt ++ Mark.close :: s) : m = n ∧ r = s := by
  have hm : readInteger [] (Text.signedDecimal m.toInt ++ Mark.close :: r) = .ok (m, r) :=
    readInteger_eq_ok_iff.mpr rfl
  rw [readInteger_eq_ok_iff.mpr h, Except.ok.injEq, Prod.mk.injEq] at hm
  exact ⟨hm.1.symm, hm.2.symm⟩

/-! ## 2. Items in a container -/

/-- If each item ends where its own bytes say, the items of a container do. -/
theorem flatMap_append_close_inj {β : Type} {text : β → Bytes}
    (hstart : ∀ b, ∃ c s, text b = c :: s ∧ c ≠ Mark.close) :
    ∀ {xs ys : List β} {r s : Bytes},
    (∀ x ∈ xs, ∀ y r s, text x ++ r = text y ++ s → x = y ∧ r = s) →
    xs.flatMap text ++ Mark.close :: r = ys.flatMap text ++ Mark.close :: s → xs = ys ∧ r = s
  | [], [], r, s, _, h => ⟨rfl, (List.cons.inj h).2⟩
  | [], y :: ys, r, s, _, h => by
    obtain ⟨c, tail, hc, hne⟩ := hstart y
    rw [List.flatMap_cons, hc] at h
    exact absurd (List.cons.inj h).1.symm hne
  | x :: xs, [], r, s, _, h => by
    obtain ⟨c, tail, hc, hne⟩ := hstart x
    rw [List.flatMap_cons, hc] at h
    exact absurd (List.cons.inj h).1 hne
  | x :: xs, y :: ys, r, s, hinj, h => by
    obtain ⟨hx, hxs⟩ := List.forall_mem_cons.mp hinj
    rw [List.flatMap_cons, List.flatMap_cons, List.append_assoc, List.append_assoc] at h
    obtain ⟨rfl, hrest⟩ := hx y _ _ h
    obtain ⟨rfl, rfl⟩ := flatMap_append_close_inj hstart hxs hrest
    exact ⟨rfl, rfl⟩

/-! ## 3. Spellings -/

/-- The kind of value that a first byte opens. -/
def kindOpenedBy (b : UInt8) : Kind :=
  if Text.isDigit b then .byteString
  else if b = Mark.integer then .integer
  else if b = Mark.list then .list
  else .dictionary

namespace Spelling

/-- The first byte shows the kind. -/
theorem exists_cons_text_of_kind (x : Spelling) :
    ∃ c s, x.text = c :: s ∧ kindOpenedBy c = x.value.kind := by
  cases x with
  | integer n => exact ⟨_, _, rfl, rfl⟩
  | byteString s =>
    obtain ⟨c, tail, h, hc⟩ := exists_cons_encodeBytes s
    exact ⟨c, tail, h, if_pos hc⟩
  | list items => exact ⟨_, _, rfl, rfl⟩
  | dictionary pairs => exact ⟨_, _, rfl, rfl⟩

theorem kind_eq_of_text_append {x y : Spelling} {r s : Bytes} (h : x.text ++ r = y.text ++ s) :
    x.value.kind = y.value.kind := by
  obtain ⟨c, tail, hc, hx⟩ := x.exists_cons_text_of_kind
  obtain ⟨c', tail', hc', hy⟩ := y.exists_cons_text_of_kind
  rw [hc, hc'] at h
  rw [← hx, ← hy, (List.cons.inj h).1]

/-- **A text is a spelling in one way only**, and ends where the spelling does. -/
theorem text_append_inj {x : Spelling} : ∀ {y : Spelling} {r s : Bytes},
    x.text ++ r = y.text ++ s → x = y ∧ r = s := by
  induction x with
  | integer m =>
    intro y r s h
    have hkind := kind_eq_of_text_append h
    cases y with
    | integer n =>
      rw [text_integer_append, text_integer_append] at h
      obtain ⟨rfl, rfl⟩ := signedDecimal_append_inj (List.cons.inj h).2
      exact ⟨rfl, rfl⟩
    | byteString _ | list _ | dictionary _ => cases hkind
  | byteString a =>
    intro y r s h
    have hkind := kind_eq_of_text_append h
    cases y with
    | byteString b =>
      obtain ⟨rfl, rfl⟩ := encodeBytes_append_inj h
      exact ⟨rfl, rfl⟩
    | integer _ | list _ | dictionary _ => cases hkind
  | list xs ih =>
    intro y r s h
    have hkind := kind_eq_of_text_append h
    cases y with
    | list ys =>
      rw [text_list_append, text_list_append] at h
      obtain ⟨rfl, rfl⟩ := flatMap_append_close_inj exists_cons_text
        (fun x hx y r s => ih x hx) (List.cons.inj h).2
      exact ⟨rfl, rfl⟩
    | integer _ | byteString _ | dictionary _ => cases hkind
  | dictionary ps ih =>
    intro y r s h
    have hkind := kind_eq_of_text_append h
    cases y with
    | dictionary qs =>
      have hpair : ∀ p ∈ ps, ∀ q r s, textPair p ++ r = textPair q ++ s → p = q ∧ r = s := by
        intro p hp q r s h
        rw [textPair, textPair, List.append_assoc, List.append_assoc] at h
        obtain ⟨hkey, hrest⟩ := encodeBytes_append_inj h
        obtain ⟨hvalue, hrest⟩ := ih p hp hrest
        exact ⟨Prod.ext hkey hvalue, hrest⟩
      rw [text_dictionary_append, text_dictionary_append] at h
      obtain ⟨rfl, rfl⟩ := flatMap_append_close_inj exists_cons_textPair hpair (List.cons.inj h).2
      exact ⟨rfl, rfl⟩
    | integer _ | byteString _ | list _ => cases hkind

theorem text_injective {x y : Spelling} (h : x.text = y.text) : x = y :=
  (text_append_inj (r := []) (s := []) (by rw [h])).1

end Spelling

/-! ## 4. Values -/

/-- **What is written shows its value and its end**, however deep the value is. -/
theorem Value.encode_append_inj {v w : Value} {r s : Bytes} (h : v.encode ++ r = w.encode ++ s) :
    v = w ∧ r = s := by
  rw [← v.text_spelling, ← w.text_spelling] at h
  obtain ⟨hspelling, hrest⟩ := Spelling.text_append_inj h
  have hvalue := congrArg Spelling.value hspelling
  rw [v.value_spelling, w.value_spelling] at hvalue
  exact ⟨hvalue, hrest⟩

end Swarm.Bencode
