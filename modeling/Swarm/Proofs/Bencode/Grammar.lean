/-
# The grammar of the notation

What a text must look like to be read, rule by rule and without a reader:

* a numeral is a run of decimal digits that is not empty and has no leading zero, except that
  zero is the digit `0`;
* a number is `i`, a numeral with an optional `-` in front that is not `-0`, and `e`, and it
  has 64 bits;
* a byte string is its length as a numeral, `:`, and that many bytes;
* a list is `l`, any number of values, and `e`;
* a dictionary is `d`, any number of byte strings with a value each, in any order and with
  repetitions, and `e`; a key has the value of its last pair.

The value stands at depth 0, the values in a list or a dictionary one deeper than it, and no
value deeper than the limit.  `decode_iff_derives` says that `decode` accepts this grammar,
with the limit `maxDepth`, and nothing else.
-/
import Swarm.Proofs.Bencode.Reading

namespace Swarm.Bencode.Grammar

open Text (ascii)

/-! ## 1. The rules -/

/-- A run of decimal digits, not empty and without a leading zero unless it is `0`. -/
structure IsNumeral (run : Bytes) : Prop where
  digits : ∀ b ∈ run, ascii '0' ≤ b ∧ b ≤ ascii '9'
  nonempty : run ≠ []
  plain : run.head? = some (ascii '0') → run = [ascii '0']

/-- The number that a run of digits denotes by their positions. -/
def number (run : Bytes) : Nat :=
  Nat.ofDigits 10 (run.map fun b => b.toNat - (ascii '0').toNat).reverse

/-- The text between `i` and `e` denotes a number of 64 bits. -/
inductive IntegerText : Bytes → Int64 → Prop
  | plain {run : Bytes} {n : Int64} (h : IsNumeral run) (hn : n.toInt = number run) :
      IntegerText run n
  | negative {run : Bytes} {n : Int64} (h : IsNumeral run) (hzero : run ≠ [ascii '0'])
      (hn : n.toInt = -(number run : Int)) : IntegerText (ascii '-' :: run) n

/-- The text of a byte string: its length, which has 64 bits, a colon, and the bytes. -/
inductive StringText : Bytes → Bytes → Prop
  | mk {run s : Bytes} (h : IsNumeral run) (hlength : number run = s.length)
      (hsize : number run < 18446744073709551616) : StringText (run ++ ascii ':' :: s) s

mutual

/-- **The text denotes the value**, if the value stands at this depth and none may stand deeper
than the limit. -/
inductive Derives (limit : Nat) : Nat → Bytes → Value → Prop
  | integer {depth : Nat} {text : Bytes} {n : Int64} (hdepth : depth ≤ limit)
      (h : IntegerText text n) :
      Derives limit depth (ascii 'i' :: (text ++ [ascii 'e'])) (.integer n)
  | byteString {depth : Nat} {text s : Bytes} (hdepth : depth ≤ limit) (h : StringText text s) :
      Derives limit depth text (.byteString s)
  | list {depth : Nat} {text : Bytes} {items : List Value} (hdepth : depth ≤ limit)
      (h : DerivesItems limit (depth + 1) text items) :
      Derives limit depth (ascii 'l' :: (text ++ [ascii 'e'])) (.list items)
  | dictionary {depth : Nat} {text : Bytes} {pairs : List (Key × Value)} {d : Dictionary Value}
      (hdepth : depth ≤ limit) (h : DerivesPairs limit (depth + 1) text pairs)
      (hlast : ∀ k, d.get? k = Dictionary.lastValue? k pairs) :
      Derives limit depth (ascii 'd' :: (text ++ [ascii 'e'])) (.dictionary d)

/-- The text denotes the values, one after another. -/
inductive DerivesItems (limit : Nat) : Nat → Bytes → List Value → Prop
  | nil {depth : Nat} : DerivesItems limit depth [] []
  | cons {depth : Nat} {text texts : Bytes} {v : Value} {vs : List Value}
      (h : Derives limit depth text v) (hs : DerivesItems limit depth texts vs) :
      DerivesItems limit depth (text ++ texts) (v :: vs)

/-- The text denotes the keys with their values, one pair after another. -/
inductive DerivesPairs (limit : Nat) : Nat → Bytes → List (Key × Value) → Prop
  | nil {depth : Nat} : DerivesPairs limit depth [] []
  | cons {depth : Nat} {keyText text texts : Bytes} {key : Key} {v : Value}
      {pairs : List (Key × Value)} (hkey : StringText keyText key)
      (h : Derives limit depth text v) (hs : DerivesPairs limit depth texts pairs) :
      DerivesPairs limit depth (keyText ++ text ++ texts) ((key, v) :: pairs)

end

/-! ## 2. Numerals, numbers and byte strings -/

theorem number_eq_ofDigits (run : Bytes) : number run = Text.ofDigits run :=
  (Text.ofDigits_eq_positional run).symm

theorem isDigit_iff_between {b : UInt8} :
    Text.isDigit b = true ↔ ascii '0' ≤ b ∧ b ≤ ascii '9' := by
  rw [Text.isDigit, Bool.and_eq_true, decide_eq_true_eq, decide_eq_true_eq]
  exact Iff.rfl

theorem isNumeral_decimal (n : Nat) : IsNumeral (Text.decimal n) := by
  obtain ⟨hne, hzero⟩ := Text.isPlain_iff.mp (Text.isPlain_decimal n)
  refine ⟨?_, hne, hzero⟩
  intro b hb
  exact isDigit_iff_between.mp (Text.isDigit_of_mem_decimal n b hb)

theorem number_decimal (n : Nat) : number (Text.decimal n) = n := by
  rw [number_eq_ofDigits, Text.ofDigits_decimal]

/-- **A numeral is the writing of its number.** -/
theorem IsNumeral.decimal_number {run : Bytes} (h : IsNumeral run) :
    Text.decimal (number run) = run := by
  have hdigits : ∀ b ∈ run, Text.isDigit b = true :=
    fun b hb => isDigit_iff_between.mpr (h.digits b hb)
  rw [number_eq_ofDigits]
  exact Text.decimal_ofDigits hdigits (Text.isPlain_iff.mpr ⟨h.nonempty, h.plain⟩)

theorem integerText_iff {text : Bytes} {n : Int64} :
    IntegerText text n ↔ text = Text.signedDecimal n.toInt := by
  constructor
  · intro h
    cases h with
    | plain h hn =>
      rw [hn, Text.signedDecimal, if_neg (by omega), Int.natAbs_natCast, h.decimal_number]
    | @negative run n h hzero hn =>
      have hpos : number run ≠ 0 := by
        intro h0
        have := h.decimal_number
        rw [h0] at this
        exact hzero this.symm
      rw [hn, Text.signedDecimal, if_pos (by omega), Int.natAbs_neg, Int.natAbs_natCast,
        h.decimal_number]
      rfl
  · rintro rfl
    have hnumber := number_decimal n.toInt.natAbs
    by_cases hneg : n.toInt < 0
    · rw [Text.signedDecimal, if_pos hneg]
      refine .negative (isNumeral_decimal _) ?_ (by omega)
      intro h0
      rw [h0] at hnumber
      have : number [ascii '0'] = 0 := by decide
      omega
    · rw [Text.signedDecimal, if_neg hneg]
      exact .plain (isNumeral_decimal _) (by omega)

theorem stringText_iff {text s : Bytes} :
    StringText text s ↔ text = encodeBytes s ∧ s.length < UInt64.size := by
  constructor
  · rintro ⟨h, hlength, hsize⟩
    rw [hlength] at hsize
    refine ⟨?_, hsize⟩
    rw [encodeBytes, ← hlength, h.decimal_number]
    rfl
  · rintro ⟨rfl, hsize⟩
    have hnumber := number_decimal s.length
    refine .mk (isNumeral_decimal _) hnumber ?_
    rw [hnumber]
    exact hsize

/-! ## 3. Texts with a value are spellings -/

mutual

/-- What denotes a value is a spelling of it, no higher than the limit allows. -/
theorem Derives.exists_spelling {limit : Nat} : ∀ {depth : Nat} {text : Bytes} {v : Value},
    Derives limit depth text v →
    ∃ x : Spelling, (x.Fits ∧ depth + x.height ≤ limit) ∧ x.text = text ∧ x.value = v
  | _, _, _, .integer hdepth h => by
    obtain rfl := integerText_iff.mp h
    exact ⟨.integer _, ⟨.integer _, hdepth⟩, rfl, rfl⟩
  | _, _, _, .byteString hdepth h => by
    obtain ⟨rfl, hsize⟩ := stringText_iff.mp h
    exact ⟨.byteString _, ⟨.byteString hsize, hdepth⟩, rfl, rfl⟩
  | depth, _, _, .list hdepth h => by
    obtain ⟨xs, hfits, hlow, rfl, rfl⟩ := h.exists_spellings
    refine ⟨.list xs, ⟨.list hfits, ?_⟩, rfl, rfl⟩
    have hheight : Spelling.heightItems xs ≤ limit - depth := by
      rw [Spelling.heightItems_le_iff]
      intro x hx
      have := hlow x hx
      omega
    rw [Spelling.height]
    omega
  | depth, _, _, .dictionary hdepth h hlast => by
    obtain ⟨pairs, hkeys, hfits, hlow, rfl, rfl⟩ := h.exists_spellings
    refine ⟨.dictionary pairs, ⟨.dictionary hkeys hfits, ?_⟩, rfl, ?_⟩
    · have hheight : Spelling.heightPairs pairs ≤ limit - depth := by
        rw [Spelling.heightPairs_le_iff]
        intro p hp
        have := hlow p hp
        omega
      rw [Spelling.height]
      omega
    · rw [Spelling.value]
      refine congrArg Value.dictionary (Entries.ext_get? fun k => ?_)
      rw [Dictionary.get?_ofList, hlast k]

theorem DerivesItems.exists_spellings {limit : Nat} : ∀ {depth : Nat} {text : Bytes}
    {vs : List Value}, DerivesItems limit depth text vs →
    ∃ xs : List Spelling, (∀ x ∈ xs, x.Fits) ∧ (∀ x ∈ xs, depth + x.height ≤ limit) ∧
      Spelling.textItems xs = text ∧ Spelling.valueItems xs = vs
  | _, _, _, .nil => ⟨[], by simp, by simp, rfl, rfl⟩
  | _, _, _, .cons h hs => by
    obtain ⟨x, ⟨hfits, hlow⟩, rfl, rfl⟩ := h.exists_spelling
    obtain ⟨xs, hfitss, hlows, rfl, rfl⟩ := hs.exists_spellings
    exact ⟨x :: xs, List.forall_mem_cons.mpr ⟨hfits, hfitss⟩,
      List.forall_mem_cons.mpr ⟨hlow, hlows⟩, rfl, rfl⟩

theorem DerivesPairs.exists_spellings {limit : Nat} : ∀ {depth : Nat} {text : Bytes}
    {pairs : List (Key × Value)}, DerivesPairs limit depth text pairs →
    ∃ xs : List (Key × Spelling), (∀ p ∈ xs, p.1.length < UInt64.size) ∧ (∀ p ∈ xs, p.2.Fits) ∧
      (∀ p ∈ xs, depth + p.2.height ≤ limit) ∧
      Spelling.textPairs xs = text ∧ Spelling.valuePairs xs = pairs
  | _, _, _, .nil => ⟨[], by simp, by simp, by simp, rfl, rfl⟩
  | _, _, _, .cons hkey h hs => by
    obtain ⟨rfl, hsize⟩ := stringText_iff.mp hkey
    obtain ⟨x, ⟨hfits, hlow⟩, rfl, rfl⟩ := h.exists_spelling
    obtain ⟨xs, hsizes, hfitss, hlows, rfl, rfl⟩ := hs.exists_spellings
    exact ⟨(_, x) :: xs, List.forall_mem_cons.mpr ⟨hsize, hsizes⟩,
      List.forall_mem_cons.mpr ⟨hfits, hfitss⟩, List.forall_mem_cons.mpr ⟨hlow, hlows⟩, rfl, rfl⟩

end

/-! ## 4. Spellings have a value -/

theorem derivesItems_textItems {limit depth : Nat} : ∀ {xs : List Spelling},
    (∀ x ∈ xs, Derives limit depth x.text x.value) →
    DerivesItems limit depth (Spelling.textItems xs) (Spelling.valueItems xs)
  | [], _ => .nil
  | _ :: _, h => by
    obtain ⟨hx, hxs⟩ := List.forall_mem_cons.mp h
    exact .cons hx (derivesItems_textItems hxs)

theorem derivesPairs_textPairs {limit depth : Nat} : ∀ {pairs : List (Key × Spelling)},
    (∀ p ∈ pairs, p.1.length < UInt64.size) →
    (∀ p ∈ pairs, Derives limit depth p.2.text p.2.value) →
    DerivesPairs limit depth (Spelling.textPairs pairs) (Spelling.valuePairs pairs)
  | [], _, _ => .nil
  | _ :: _, hkeys, h => by
    obtain ⟨hkey, hkeys⟩ := List.forall_mem_cons.mp hkeys
    obtain ⟨hx, hxs⟩ := List.forall_mem_cons.mp h
    exact .cons (stringText_iff.mpr ⟨rfl, hkey⟩) hx (derivesPairs_textPairs hkeys hxs)

/-- A spelling denotes its value, if it is no higher than the limit allows. -/
theorem derives_text {limit : Nat} {x : Spelling} (hx : x.Fits) : ∀ {depth : Nat},
    depth + x.height ≤ limit → Derives limit depth x.text x.value := by
  induction x with
  | integer n =>
    intro depth h
    exact .integer h (integerText_iff.mpr rfl)
  | byteString s =>
    intro depth h
    cases hx with
    | byteString hsize => exact .byteString h (stringText_iff.mpr ⟨rfl, hsize⟩)
  | list items ih =>
    intro depth h
    cases hx with
    | list hfits =>
      have hlow := (Spelling.heightItems_le_iff items).mp (Nat.le_refl _)
      rw [Spelling.height] at h
      refine .list (by omega) (derivesItems_textItems fun x hx => ?_)
      have := hlow x hx
      exact ih x hx (hfits x hx) (by omega)
  | dictionary pairs ih =>
    intro depth h
    cases hx with
    | dictionary hkeys hfits =>
      have hlow := (Spelling.heightPairs_le_iff pairs).mp (Nat.le_refl _)
      rw [Spelling.height] at h
      refine .dictionary (by omega) (derivesPairs_textPairs hkeys fun p hp => ?_)
        fun k => Dictionary.get?_ofList _ k
      have := hlow p hp
      exact ih p hp (hfits p hp) (by omega)

/-- **The texts of the grammar are the spellings** that are no higher than the limit. -/
theorem derives_iff_exists_spelling {limit : Nat} {text : Bytes} {v : Value} :
    Derives limit 0 text v ↔
      ∃ x : Spelling, (x.Fits ∧ x.height ≤ limit) ∧ x.text = text ∧ x.value = v := by
  constructor
  · intro h
    obtain ⟨x, ⟨hfits, hlow⟩, htext, hvalue⟩ := h.exists_spelling
    exact ⟨x, ⟨hfits, by omega⟩, htext, hvalue⟩
  · rintro ⟨x, ⟨hfits, hlow⟩, rfl, rfl⟩
    exact derives_text hfits (by omega)

/-! ## 5. Decoding -/

/-- **What is decoded is the grammar**: a text is decoded as the value that it denotes at depth
0 with no node deeper than `maxDepth`, and a text that denotes none is refused. -/
theorem decode_iff_derives (b : Bytes) :
    (∀ v, decode b = .ok v ↔ Derives maxDepth 0 b v) ∧
      ((¬ ∃ v, Derives maxDepth 0 b v) → ∃ e, decode b = .error e) := by
  have hiff : ∀ v, decode b = .ok v ↔ Derives maxDepth 0 b v := by
    intro v
    rw [decode_eq_ok_iff, derives_iff_exists_spelling]
  refine ⟨hiff, ?_⟩
  intro hnone
  cases hb : decode b with
  | error e => exact ⟨e, rfl⟩
  | ok v => exact absurd ⟨v, (hiff v).mp hb⟩ hnone

end Swarm.Bencode.Grammar
