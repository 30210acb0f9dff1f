/-
# Numbers and byte strings are read exactly as they are written

The readers of the two kinds of leaf take runs of digits apart and check them.  Since a number
has one plain run of digits (`Text.decimal_ofDigits`), a leaf has one spelling:

* `readBytes_eq_ok_iff`: a byte string is read where its writing stands, and nowhere else;
* `readInteger_eq_ok_iff`: the same for a number behind its mark.

What follows a leaf does not matter to either.
-/
import Swarm.Bencode.Decoding
import Swarm.Proofs.Text.Numeral

namespace Swarm.Bencode

/-! ## 1. Runs of digits -/

/-- The digits end where something else begins. -/
theorem splitDigits_append {run : Bytes} (hrun : ∀ b ∈ run, Text.isDigit b = true) {c : UInt8}
    (hc : Text.isDigit c = false) (rest : Bytes) :
    splitDigits (run ++ c :: rest) = (run, c :: rest) := by
  unfold splitDigits
  rw [List.takeWhile_append_of_pos hrun, List.dropWhile_append_of_pos hrun,
    List.takeWhile_cons_of_neg (by simp [hc]), List.dropWhile_cons_of_neg (by simp [hc]),
    List.append_nil]

/-- Nothing is lost, and what comes first are digits. -/
theorem of_splitDigits {s run after : Bytes} (h : splitDigits s = (run, after)) :
    s = run ++ after ∧ ∀ b ∈ run, Text.isDigit b = true := by
  simp only [splitDigits, Prod.mk.injEq] at h
  obtain ⟨rfl, rfl⟩ := h
  refine ⟨List.takeWhile_append_dropWhile.symm, ?_⟩
  intro b hb
  exact List.all_eq_true.mp List.all_takeWhile b hb

/-! ## 2. Byte strings -/

/-- A run of digits is accepted as a length if it is the writing of that length. -/
theorem lengthOf?_eq_some_iff {run : Bytes} (hrun : ∀ b ∈ run, Text.isDigit b = true) {n : Nat} :
    lengthOf? run = some n ↔ run = Text.decimal n ∧ n < UInt64.size := by
  unfold lengthOf?
  constructor
  · intro h
    split at h
    · rename_i hc
      simp only [Bool.and_eq_true, decide_eq_true_eq] at hc
      rw [Option.some.injEq] at h
      subst h
      exact ⟨(Text.decimal_ofDigits hrun hc.1).symm, hc.2⟩
    · exact absurd h (by simp)
  · rintro ⟨rfl, hn⟩
    rw [Text.ofDigits_decimal, Text.isPlain_decimal, if_pos (by simpa using hn)]

/-- **A byte string is read exactly where it is written**, whatever follows. -/
theorem readBytes_eq_ok_iff {s x rest : Bytes} :
    readBytes s = .ok (x, rest) ↔ s = encodeBytes x ++ rest ∧ x.length < UInt64.size := by
  constructor
  · intro h
    unfold readBytes at h
    cases hs : splitDigits s with
    | mk run after =>
      obtain ⟨rfl, hrun⟩ := of_splitDigits hs
      simp only [hs] at h
      split at h
      · exact absurd h (by simp)
      · rename_i b tail
        split at h
        · rename_i hb
          split at h
          · exact absurd h (by simp)
          · rename_i n hn
            obtain ⟨rfl, hsize⟩ := (lengthOf?_eq_some_iff hrun).mp hn
            split at h
            · exact absurd h (by simp)
            · rename_i front hcut
              rw [Except.ok.injEq] at h
              subst h
              obtain ⟨rfl, rfl⟩ := Bytes.cut?_eq_some_iff.mp hcut
              exact ⟨by simp [encodeBytes, hb], hsize⟩
        · exact absurd h (by simp)
  · rintro ⟨rfl, hx⟩
    have hdigits := Text.isDigit_of_mem_decimal x.length
    have hcut : Bytes.cut? x.length (x ++ rest) = some (x, rest) :=
      Bytes.cut?_eq_some_iff.mpr ⟨rfl, rfl⟩
    have hlen := (lengthOf?_eq_some_iff hdigits).mpr ⟨rfl, hx⟩
    unfold readBytes encodeBytes
    rw [List.append_assoc, List.cons_append, splitDigits_append hdigits (by decide)]
    simp only [if_pos, hlen, hcut]

/-- The writing of a byte string begins with a digit. -/
theorem exists_cons_encodeBytes (s : Bytes) :
    ∃ b tail, encodeBytes s = b :: tail ∧ Text.isDigit b = true := by
  obtain ⟨b, tail, h⟩ := List.exists_cons_of_ne_nil (Text.decimal_ne_nil s.length)
  refine ⟨b, tail ++ Mark.colon :: s, ?_, ?_⟩
  · rw [encodeBytes, h]
    rfl
  · exact Text.isDigit_of_mem_decimal s.length b (h ▸ List.mem_cons_self)

/-! ## 3. Numbers -/

theorem int64?_eq_some_iff {i : Int} {n : Int64} : int64? i = some n ↔ n.toInt = i := by
  unfold int64?
  constructor
  · intro h
    split at h
    · rename_i hi
      have h1 := Int64.toInt_minValue
      have h2 := Int64.toInt_maxValue
      rw [Option.some.injEq] at h
      rw [← h]
      exact Int64.toInt_ofInt_of_le (by omega) (by omega)
    · exact absurd h (by simp)
  · rintro rfl
    rw [if_pos ⟨n.minValue_le_toInt, n.toInt_le⟩, Int64.ofInt_toInt]

/-- A run of digits with the sign in front. -/
def signed (negative : Bool) (run : Bytes) : Bytes := if negative then Mark.minus :: run else run

theorem signedDecimal_eq_signed (i : Int) :
    Text.signedDecimal i = signed (decide (i < 0)) (Text.decimal i.natAbs) := by
  by_cases h : i < 0 <;> simp [Text.signedDecimal, signed, h, Mark.minus]

theorem signed_append (negative : Bool) (run rest : Bytes) :
    signed negative (run ++ rest) = signed negative run ++ rest := by
  cases negative <;> rfl

/-- A sign is no digit, so it can be told from the run behind it. -/
theorem signed_injective {a b : Bool} {run run' : Bytes}
    (hrun : ∀ c ∈ run, Text.isDigit c = true) (hrun' : ∀ c ∈ run', Text.isDigit c = true)
    (h : signed a run = signed b run') : a = b ∧ run = run' := by
  have hminus : Text.isDigit Mark.minus ≠ true := by decide
  cases a <;> cases b <;> simp only [signed, Bool.false_eq_true, if_false, if_true] at h
  · exact ⟨rfl, h⟩
  · exact absurd (hrun Mark.minus (h ▸ List.mem_cons_self)) hminus
  · exact absurd (hrun' Mark.minus (h ▸ List.mem_cons_self)) hminus
  · exact ⟨rfl, (List.cons.inj h).2⟩

theorem of_splitSign {s unsigned : Bytes} {negative : Bool}
    (h : splitSign s = (negative, unsigned)) : s = signed negative unsigned := by
  unfold splitSign at h
  split at h
  · rw [Prod.mk.injEq] at h
    obtain ⟨rfl, rfl⟩ := h
    rfl
  · rename_i b rest
    split at h
    · rename_i hb
      rw [Prod.mk.injEq] at h
      obtain ⟨rfl, rfl⟩ := h
      rw [hb]
      rfl
    · rw [Prod.mk.injEq] at h
      obtain ⟨rfl, rfl⟩ := h
      rfl

theorem splitSign_signed {c : UInt8} (hc : Text.isDigit c = true) (negative : Bool)
    (rest : Bytes) : splitSign (signed negative (c :: rest)) = (negative, c :: rest) := by
  have hminus : c ≠ Mark.minus := by
    rintro rfl
    exact absurd hc (by decide)
  cases negative <;> simp [splitSign, signed, hminus]

theorem isPlain_of_integerOf? {negative : Bool} {run : Bytes} {n : Int64}
    (h : integerOf? negative run = some n) : Text.isPlain run = true := by
  unfold integerOf? at h
  split at h
  · rename_i hc
    exact (Bool.and_eq_true_iff.mp hc).1
  · exact absurd h (by simp)

/-- Among the writings of natural numbers only a zero with a minus sign is refused. -/
theorem integerOf?_decimal_eq_some_iff {negative : Bool} {m : Nat} {n : Int64} :
    integerOf? negative (Text.decimal m) = some n ↔
      (negative = true → m ≠ 0) ∧ n.toInt = if negative then -(m : Int) else m := by
  have hzero : (Text.decimal m == [48]) = decide (m = 0) := by
    by_cases h : m = 0
    · subst h
      rfl
    · rw [decide_eq_false h, beq_eq_false_iff_ne]
      exact fun h0 => h (Text.decimal_injective (n := 0) h0)
  unfold integerOf?
  rw [Text.isPlain_decimal, Text.ofDigits_decimal, hzero]
  cases negative with
  | false => simpa using int64?_eq_some_iff
  | true =>
    by_cases h : m = 0
    · simp [h]
    · simpa [h] using int64?_eq_some_iff

/-- A signed run of digits is accepted as a number if it is the writing of that number. -/
theorem integerOf?_eq_some_iff {negative : Bool} {run : Bytes}
    (hrun : ∀ b ∈ run, Text.isDigit b = true) {n : Int64} :
    integerOf? negative run = some n ↔ signed negative run = Text.signedDecimal n.toInt := by
  rw [signedDecimal_eq_signed]
  constructor
  · intro h
    have hrun' := Text.decimal_ofDigits hrun (isPlain_of_integerOf? h)
    rw [← hrun'] at h ⊢
    obtain ⟨hne, hn⟩ := integerOf?_decimal_eq_some_iff.mp h
    cases negative with
    | false =>
      simp only [Bool.false_eq_true, if_false] at hn
      rw [decide_eq_false (by omega), show n.toInt.natAbs = Text.ofDigits run by omega]
    | true =>
      simp only [if_true] at hn
      have := hne rfl
      rw [decide_eq_true (by omega), show n.toInt.natAbs = Text.ofDigits run by omega]
  · intro h
    obtain ⟨rfl, rfl⟩ := signed_injective hrun (Text.isDigit_of_mem_decimal _) h
    refine integerOf?_decimal_eq_some_iff.mpr ⟨?_, ?_⟩
    · intro hneg
      have := of_decide_eq_true hneg
      omega
    · by_cases hneg : n.toInt < 0
      · rw [decide_eq_true hneg, if_pos rfl]
        omega
      · rw [decide_eq_false hneg, if_neg (by simp)]
        omega

/-- **A number is read exactly where it is written** behind its mark, whatever follows. -/
theorem readInteger_eq_ok_iff {whole body rest : Bytes} {n : Int64} :
    readInteger whole body = .ok (n, rest) ↔
      body = Text.signedDecimal n.toInt ++ Mark.close :: rest := by
  constructor
  · intro h
    unfold readInteger at h
    cases hsign : splitSign body with
    | mk negative unsigned =>
      cases hs : splitDigits unsigned with
      | mk run after =>
        obtain ⟨rfl, hrun⟩ := of_splitDigits hs
        rw [of_splitSign hsign, signed_append]
        simp only [hsign, hs] at h
        split at h
        · exact absurd h (by simp)
        · rename_i b tail
          split at h
          · rename_i hb
            split at h
            · rename_i m hm
              rw [Except.ok.injEq, Prod.mk.injEq] at h
              obtain ⟨rfl, rfl⟩ := h
              rw [(integerOf?_eq_some_iff hrun).mp hm, hb]
            · exact absurd h (by simp)
          · exact absurd h (by simp)
  · rintro rfl
    have hdigits := Text.isDigit_of_mem_decimal n.toInt.natAbs
    obtain ⟨c, tail, hc⟩ := List.exists_cons_of_ne_nil (Text.decimal_ne_nil n.toInt.natAbs)
    have hfirst : Text.isDigit c = true := hdigits c (hc ▸ List.mem_cons_self)
    have hn := (integerOf?_eq_some_iff hdigits).mpr (signedDecimal_eq_signed n.toInt).symm
    have hsign := splitSign_signed hfirst (decide (n.toInt < 0)) (tail ++ Mark.close :: rest)
    rw [← List.cons_append, ← hc] at hsign
    unfold readInteger
    rw [signedDecimal_eq_signed, ← signed_append, hsign]
    simp only [splitDigits_append hdigits (show Text.isDigit Mark.close = false by decide), hn, if_true]

end Swarm.Bencode
