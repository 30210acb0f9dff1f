/-
# The scanner finds the value that counts

`valueSpan?` goes over the entries of a dictionary in a loop of its own.  It agrees with the
reader:

* `scanEntries_eq`: the loop stops where the reader of entries stops and for the same reason,
  and otherwise has kept the extent of the last value of the key;
* `valueSpan?_agrees`: so it fails where `decodeAt` fails, finds nothing where the dictionary
  has no such key, and else finds the bytes that are decoded as the value of the key.

Where the last value of a key stands is said by the rules of the grammar (`LastValueAt`),
without a loop and without a reader.
-/
import Swarm.Bencode.Span
import Swarm.Proofs.Bencode.Grammar

namespace Swarm.Bencode

open Dictionary (lastValue?)

/-! ## 1. The loop of the scanner and the loop of the reader -/

/-- **The scanner goes as far as the reader**, and what it keeps is the extent of the last
value of the key. -/
theorem scanEntries_eq (entry : Bytes → Reading (Key × Value × Extent)) (key : Key) :
    ∀ (bound : Nat) (found : Option Extent) (s : Bytes),
    scanEntries entry key bound found s =
      match readItems entry bound s with
      | .error stop => .error stop
      | .ok (entries, _) => .ok (((lastValue? key entries).map Prod.snd).or found)
  | 0, _, _ => rfl
  | _ + 1, _, [] => rfl
  | bound + 1, found, b :: rest => by
    simp only [scanEntries, readItems]
    by_cases hb : b = Mark.close
    · rw [if_pos hb, if_pos hb]
      rfl
    · rw [if_neg hb, if_neg hb]
      cases entry (b :: rest) with
      | error stop => rfl
      | ok read =>
        obtain ⟨e, s⟩ := read
        simp only [scanEntries_eq entry key bound]
        cases readItems entry bound s with
        | error stop => rfl
        | ok reads =>
          obtain ⟨entries, s'⟩ := reads
          simp only [Dictionary.lastValue?_cons]
          -- a later value takes the place of this one, and this one that of an earlier one
          by_cases h : key = e.1 <;> cases lastValue? key entries <;> simp [h]

/-- What is read of a dictionary, by the entries in it. -/
theorem decodeAt_dictionary (rest : Bytes) :
    decodeAt (Mark.dictionary :: rest) 0 =
      match readItems (readEntry (readValue (rest.length + 1) maxDepth)) (rest.length + 1) rest with
      | .error stop => .error (stop.locate 0 (rest.length + 1))
      | .ok (entries, s) => .ok (.dictionary (dictionaryOf entries), rest.length + 1 - s.length) := by
  simp only [decodeAt, List.drop_zero, List.length_cons, readValue_dictionary, Nat.zero_add]
  cases readItems (readEntry (readValue (rest.length + 1) maxDepth)) (rest.length + 1) rest with
  | error stop => rfl
  | ok read => rfl

/-- What is found in it, by the same entries. -/
theorem valueSpan?_dictionary (rest : Bytes) (key : Key) :
    valueSpan? (Mark.dictionary :: rest) key =
      match readItems (readEntry (readValue (rest.length + 1) maxDepth)) (rest.length + 1) rest with
      | .error stop => .error (.decode (stop.locate 0 (rest.length + 1)))
      | .ok (entries, _) =>
        .ok ((lastValue? key entries).map fun e => Span.ofExtent (rest.length + 1) e.2) := by
  simp only [valueSpan?, if_true, List.length_cons, scanEntries_eq]
  cases readItems (readEntry (readValue (rest.length + 1) maxDepth)) (rest.length + 1) rest with
  | error stop => rfl
  | ok read => simp only [Option.or_none, Option.map_map, Function.comp_def]

/-- The value of a key in the dictionary of the entries that were read. -/
theorem get?_dictionaryOf (entries : List (Key × Value × Extent)) (key : Key) :
    (dictionaryOf entries).get? key = (lastValue? key entries).map Prod.fst := by
  rw [dictionaryOf, Dictionary.get?_ofList, Dictionary.lastValue?_map]

/-! ## 2. Failures, and what is no dictionary -/

theorem valueSpan?_of_error {data : Bytes} {e : DecodeError} (h : decodeAt data 0 = .error e)
    (key : Key) : valueSpan? data key = .error (.decode e) := by
  cases data with
  | nil =>
    have hnil : decodeAt [] 0 = .error (.endOfInput 0) := rfl
    rw [hnil, Except.error.injEq] at h
    rw [← h]
    rfl
  | cons b rest =>
    by_cases hb : b = Mark.dictionary
    · subst hb
      rw [decodeAt_dictionary] at h
      rw [valueSpan?_dictionary]
      split at h
      · rw [Except.error.injEq] at h
        rw [← h]
      · exact absurd h (by simp)
    · simp only [valueSpan?, if_neg hb, h]

theorem valueSpan?_of_other_kind {data : Bytes} {v : Value} {next : Nat}
    (h : decodeAt data 0 = .ok (v, next)) (hv : v.kind ≠ .dictionary) (key : Key) :
    valueSpan? data key = .error (.field (.wrongKind "<root>" .dictionary v.kind)) := by
  cases data with
  | nil => exact absurd h nofun
  | cons b rest =>
    by_cases hb : b = Mark.dictionary
    · subst hb
      rw [decodeAt_dictionary] at h
      split at h
      · exact absurd h (by simp)
      · rw [Except.ok.injEq, Prod.mk.injEq] at h
        rw [← h.1] at hv
        exact absurd rfl hv
    · simp only [valueSpan?, if_neg hb, h]

/-- **Nothing is found exactly where the dictionary has no such key.** -/
theorem valueSpan?_eq_none_iff {data : Bytes} {d : Dictionary Value} {next : Nat}
    (h : decodeAt data 0 = .ok (.dictionary d, next)) (key : Key) :
    valueSpan? data key = .ok none ↔ d.get? key = none := by
  obtain ⟨x, rest, -, hdata, hvalue, -⟩ := decodeAt_eq_ok_iff.mp h
  cases x with
  | dictionary pairs =>
    rw [List.drop_zero, Spelling.text_dictionary_append] at hdata
    rw [hdata, decodeAt_dictionary] at h
    rw [hdata, valueSpan?_dictionary]
    split at h
    · exact absurd h (by simp)
    · rw [Except.ok.injEq, Prod.mk.injEq, Value.dictionary.injEq] at h
      rw [← h.1, get?_dictionaryOf]
      simp only [Except.ok.injEq, Option.map_eq_none_iff]
  | integer n => exact absurd hvalue nofun
  | byteString s => exact absurd hvalue nofun
  | list items => exact absurd hvalue nofun

/-! ## 3. Where the last value of a key stands -/

namespace Grammar

open Text (ascii)

/-- **The last value of a key stands at this span** in the dictionary that the bytes begin with:
pairs stand in front of it and behind it, the key right before it, and among the pairs behind
it the key does not come again. -/
inductive LastValueAt (key : Key) : Bytes → Span → Prop
  | mk {front keyText text back rest : Bytes} {before after : List (Key × Value)} {v : Value}
      (hfront : DerivesPairs maxDepth 1 front before) (hkey : StringText keyText key)
      (htext : Derives maxDepth 1 text v) (hback : DerivesPairs maxDepth 1 back after)
      (hlast : ∀ p ∈ after, p.1 ≠ key) :
      LastValueAt key (ascii 'd' :: (front ++ keyText ++ text ++ back ++ ascii 'e' :: rest))
        ⟨1 + front.length + keyText.length, 1 + front.length + keyText.length + text.length⟩

end Grammar

namespace Spelling

/-- The positions of the value in a pair that stands behind the pairs `front`. -/
def spanBehind (front : List (Key × Spelling)) (key : Key) (x : Spelling) : Span :=
  ⟨1 + (front.flatMap textPair).length + (encodeBytes key).length,
    1 + (front.flatMap textPair).length + (encodeBytes key).length + x.text.length⟩

section

variable (front back : List (Key × Spelling)) (key : Key) (x : Spelling)

/-- A dictionary cut at one of its values. -/
theorem text_dictionary_split (rest : Bytes) :
    (dictionary (front ++ (key, x) :: back)).text ++ rest
      = Mark.dictionary :: (front.flatMap textPair ++ encodeBytes key ++ x.text
        ++ back.flatMap textPair ++ Mark.close :: rest) := by
  rw [text_dictionary_append]
  simp [textPair]

/-- The bytes at the positions of a value are its text. -/
theorem slice_spanBehind (rest : Bytes) :
    (spanBehind front key x).slice ((dictionary (front ++ (key, x) :: back)).text ++ rest)
      = x.text := by
  have hcut : (dictionary (front ++ (key, x) :: back)).text ++ rest
      = (Mark.dictionary :: (front.flatMap textPair ++ encodeBytes key))
        ++ (x.text ++ (back.flatMap textPair ++ Mark.close :: rest)) := by
    rw [text_dictionary_split]
    simp
  have hstart : (spanBehind front key x).start
      = (Mark.dictionary :: (front.flatMap textPair ++ encodeBytes key)).length := by
    simp only [spanBehind, List.length_cons, List.length_append]
    omega
  have hwidth : (spanBehind front key x).stop - (spanBehind front key x).start = x.text.length := by
    simp only [spanBehind]
    omega
  rw [Span.slice, hwidth, hstart, hcut, List.drop_left, List.take_left]

/-- Its extent, among the bytes of the dictionary and what follows, has these positions. -/
theorem ofExtent_eq_spanBehind (rest : Bytes) :
    Span.ofExtent ((dictionary (front ++ (key, x) :: back)).text ++ rest).length
        ⟨x.text ++ (back.flatMap textPair ++ Mark.close :: rest),
          back.flatMap textPair ++ Mark.close :: rest⟩
      = spanBehind front key x := by
  rw [text_dictionary_split]
  simp only [Span.ofExtent, spanBehind, Span.mk.injEq, List.length_cons, List.length_append]
  omega

end

variable {front back : List (Key × Spelling)} {key : Key} {x : Spelling}

/-- Among the entries of a dictionary the last one of a key is that of the last pair. -/
theorem lastValue?_inTurn (hback : ∀ p ∈ back, p.1 ≠ key) : ∀ (front : List (Key × Spelling))
    (tail : Bytes), lastValue? key (inTurn textPair entry (front ++ (key, x) :: back) tail)
      = some (x.value, ⟨x.text ++ (back.flatMap textPair ++ tail), back.flatMap textPair ++ tail⟩)
  | [], tail => by
    have hnone : lastValue? key (inTurn textPair entry back tail) = none := by
      have h := map_inTurn textPair entry (f := Prod.fst) (g := Prod.fst) (fun _ _ => rfl) back tail
      rw [Dictionary.lastValue?_eq_none_iff]
      intro e he hkey
      have hmem : key ∈ back.map Prod.fst := h ▸ hkey ▸ List.mem_map_of_mem he
      obtain ⟨p, hp, hpkey⟩ := List.mem_map.mp hmem
      exact hback p hp hpkey
    rw [List.nil_append, inTurn, Dictionary.lastValue?_cons, hnone]
    simp [entry]
  | q :: front, tail => by
    rw [List.cons_append, inTurn, Dictionary.lastValue?_cons, lastValue?_inTurn hback front tail]
    rfl

/-- **The scanner finds the last value of a key**, whatever follows the dictionary. -/
theorem valueSpan?_text (hx : (dictionary (front ++ (key, x) :: back)).Fits)
    (hlow : (dictionary (front ++ (key, x) :: back)).height ≤ maxDepth)
    (hback : ∀ p ∈ back, p.1 ≠ key) (rest : Bytes) :
    valueSpan? ((dictionary (front ++ (key, x) :: back)).text ++ rest) key
      = .ok (some (spanBehind front key x)) := by
  have hlong := length_lt_dictionary (front ++ (key, x) :: back)
  have hspan := ofExtent_eq_spanBehind front back key x rest
  have hlength : ((dictionary (front ++ (key, x) :: back)).text ++ rest).length
      = (dictionary (front ++ (key, x) :: back)).text.length + rest.length := List.length_append
  rw [text_dictionary_append] at hspan hlength ⊢
  rw [List.length_cons] at hspan hlength
  cases hx with
  | dictionary hkeys hfits =>
    have hheight := (heightPairs_le_iff (front ++ (key, x) :: back)).mp hlow
    have hvalues : ∀ p ∈ front ++ (key, x) :: back, ∀ tail,
        readValue (((front ++ (key, x) :: back).flatMap textPair ++ Mark.close :: rest).length + 1)
          maxDepth (p.2.text ++ tail) = .ok (p.2.value, tail) := by
      intro p hp tail
      have hshort := length_text_lt_dictionary hp
      exact readValue_text (hfits p hp) _ _ tail (by omega) (hheight p hp)
    rw [valueSpan?_dictionary, readItems_textPair hkeys hvalues (by omega)]
    simp only [lastValue?_inTurn hback, Option.map_some]
    rw [hspan]

end Spelling

/-- **What the rules of the grammar call the last value of a key** is the value in the last pair
with that key of a spelling, -/
theorem Grammar.LastValueAt.exists_split {key : Key} {data : Bytes} {s : Span}
    (h : LastValueAt key data s) :
    ∃ (front back : List (Key × Spelling)) (x : Spelling) (rest : Bytes),
      ((Spelling.dictionary (front ++ (key, x) :: back)).Fits ∧
        (Spelling.dictionary (front ++ (key, x) :: back)).height ≤ maxDepth) ∧
      (∀ p ∈ back, p.1 ≠ key) ∧
      data = (Spelling.dictionary (front ++ (key, x) :: back)).text ++ rest ∧
      s = Spelling.spanBehind front key x := by
  obtain ⟨hfront, hkey, htext, hback, hlast⟩ := h
  rename_i rest before after v
  obtain ⟨front, hkeys, hfits, hlow, rfl, rfl⟩ := hfront.exists_spellings
  obtain ⟨rfl, hsize⟩ := stringText_iff.mp hkey
  obtain ⟨x, ⟨hx, hxlow⟩, rfl, rfl⟩ := htext.exists_spelling
  obtain ⟨back, hkeys', hfits', hlow', rfl, rfl⟩ := hback.exists_spellings
  refine ⟨front, back, x, rest, ⟨.dictionary ?_ ?_, ?_⟩, ?_, ?_, ?_⟩
  · exact List.forall_mem_append.mpr ⟨hkeys, List.forall_mem_cons.mpr ⟨hsize, hkeys'⟩⟩
  · exact List.forall_mem_append.mpr ⟨hfits, List.forall_mem_cons.mpr ⟨hx, hfits'⟩⟩
  · -- a level is taken by the dictionary itself
    refine (Spelling.heightPairs_le_iff _).mpr ?_
    refine List.forall_mem_append.mpr ⟨fun p hp => ?_, List.forall_mem_cons.mpr ⟨?_, ?_⟩⟩
    · have := hlow p hp
      omega
    · exact Nat.lt_of_lt_of_le (Nat.lt_add_of_pos_left Nat.one_pos) hxlow
    · intro p hp
      have := hlow' p hp
      omega
  · intro p hp
    rw [Spelling.valuePairs_eq_map] at hlast
    exact hlast _ (List.mem_map_of_mem hp)
  · rw [Spelling.text_dictionary_split, ← Spelling.textPairs_eq_flatMap,
      ← Spelling.textPairs_eq_flatMap]
    rfl
  · simp only [Spelling.spanBehind, Spelling.textPairs_eq_flatMap]

/-- and the value in such a pair is what the rules call so. -/
theorem Spelling.lastValueAt_spanBehind {front back : List (Key × Spelling)} {key : Key}
    {x : Spelling} (hx : (dictionary (front ++ (key, x) :: back)).Fits)
    (hlow : (dictionary (front ++ (key, x) :: back)).height ≤ maxDepth)
    (hlast : ∀ p ∈ back, p.1 ≠ key) (rest : Bytes) :
    Grammar.LastValueAt key ((dictionary (front ++ (key, x) :: back)).text ++ rest)
      (spanBehind front key x) := by
  have hheight := (heightPairs_le_iff _).mp hlow
  cases hx with
  | dictionary hkeys hfits =>
    have hderives : ∀ p ∈ front ++ (key, x) :: back,
        Grammar.Derives maxDepth 1 p.2.text p.2.value := by
      intro p hp
      have := hheight p hp
      exact Grammar.derives_text (hfits p hp) (by omega)
    obtain ⟨hkeys, hkeys'⟩ := List.forall_mem_append.mp hkeys
    obtain ⟨hsize, hkeys'⟩ := List.forall_mem_cons.mp hkeys'
    obtain ⟨hfront, hback⟩ := List.forall_mem_append.mp hderives
    obtain ⟨htext, hback⟩ := List.forall_mem_cons.mp hback
    rw [text_dictionary_split, spanBehind, ← textPairs_eq_flatMap, ← textPairs_eq_flatMap]
    refine .mk (Grammar.derivesPairs_textPairs hkeys hfront)
      (Grammar.stringText_iff.mpr ⟨rfl, hsize⟩) htext
      (Grammar.derivesPairs_textPairs hkeys' hback) ?_
    rw [valuePairs_eq_map, List.forall_mem_map]
    exact hlast

/-- What stands there is what the scanner finds, so there is one such span at most. -/
theorem valueSpan?_of_lastValueAt {key : Key} {data : Bytes} {s : Span}
    (h : Grammar.LastValueAt key data s) : valueSpan? data key = .ok (some s) := by
  obtain ⟨front, back, x, rest, ⟨hx, hlow⟩, hback, rfl, rfl⟩ := h.exists_split
  exact Spelling.valueSpan?_text hx hlow hback rest

/-! ## 4. Agreement -/

/-- A key of a dictionary that is read has a last value among its pairs. -/
theorem exists_split_of_get? {data : Bytes} {d : Dictionary Value} {next : Nat} {key : Key}
    {v : Value} (h : decodeAt data 0 = .ok (.dictionary d, next)) (hkey : d.get? key = some v) :
    ∃ (front back : List (Key × Spelling)) (x : Spelling) (rest : Bytes),
      ((Spelling.dictionary (front ++ (key, x) :: back)).Fits ∧
        (Spelling.dictionary (front ++ (key, x) :: back)).height ≤ maxDepth) ∧
      (∀ p ∈ back, p.1 ≠ key) ∧
      data = (Spelling.dictionary (front ++ (key, x) :: back)).text ++ rest ∧
      x.value = v ∧ next = (Spelling.dictionary (front ++ (key, x) :: back)).text.length := by
  obtain ⟨x, rest, hx, hdata, hvalue, hnext⟩ := decodeAt_eq_ok_iff.mp h
  cases x with
  | dictionary pairs =>
    rw [Spelling.value, Value.dictionary.injEq] at hvalue
    rw [← hvalue, Dictionary.get?_ofList, Spelling.valuePairs_eq_map, Dictionary.lastValue?_map,
      Option.map_eq_some_iff] at hkey
    obtain ⟨x, hlast, hxv⟩ := hkey
    obtain ⟨front, back, rfl, hback⟩ := Dictionary.lastValue?_eq_some_iff.mp hlast
    exact ⟨front, back, x, rest, hx, hback, hdata, hxv, by rw [hnext, Nat.zero_add]⟩
  | integer n => exact absurd hvalue nofun
  | byteString s => exact absurd hvalue nofun
  | list items => exact absurd hvalue nofun

/-- **A key of the dictionary is found**: at the one span at which its last value stands, which
lies inside the dictionary, and whose bytes alone are decoded as the value of the key. -/
theorem exists_valueSpan? {data : Bytes} {d : Dictionary Value} {next : Nat} {key : Key} {v : Value}
    (h : decodeAt data 0 = .ok (.dictionary d, next)) (hv : d.get? key = some v) :
    ∃ s : Span, valueSpan? data key = .ok (some s) ∧ 0 < s.start ∧ s.start < s.stop ∧
      s.stop < next ∧ decode (s.slice data) = .ok v ∧
      ∀ t, Grammar.LastValueAt key data t ↔ t = s := by
  obtain ⟨front, back, x, rest, ⟨hx, hlow⟩, hback, rfl, rfl, rfl⟩ := exists_split_of_get? h hv
  have hspan := Spelling.valueSpan?_text hx hlow hback rest
  refine ⟨Spelling.spanBehind front key x, hspan, ?_, ?_, ?_, ?_, ?_⟩
  · simp only [Spelling.spanBehind]
    omega
  · obtain ⟨c, tail, hc, -⟩ := x.exists_cons_text
    simp only [Spelling.spanBehind, hc, List.length_cons]
    omega
  · have hcut := Spelling.text_dictionary_split front back key x []
    rw [List.append_nil] at hcut
    simp only [Spelling.spanBehind, hcut, List.length_cons, List.length_append]
    omega
  · have hmem : (key, x) ∈ front ++ (key, x) :: back := by simp
    have hheight := (Spelling.heightPairs_le_iff _).mp hlow _ hmem
    cases hx with
    | dictionary hkeys hfits =>
      rw [Spelling.slice_spanBehind]
      exact decode_eq_ok_iff.mpr ⟨x, ⟨hfits _ hmem, Nat.le_of_lt hheight⟩, rfl, rfl⟩
  · intro t
    constructor
    · intro ht
      rw [valueSpan?_of_lastValueAt ht] at hspan
      simpa using hspan
    · rintro rfl
      exact Spelling.lastValueAt_spanBehind hx hlow hback rest

/-- **The scanner agrees with the reader.**  It fails as the reader fails, and for what is no
dictionary because of that.  In a dictionary it finds nothing exactly for the keys that are not
in it.  For a key that is, it finds the one span at which the last value of the key stands: it
lies inside the dictionary, and its bytes alone are decoded as the value of the key. -/
theorem valueSpan?_agrees (data : Bytes) (key : Key) :
    (∀ e, decodeAt data 0 = .error e → valueSpan? data key = .error (.decode e)) ∧
      (∀ v next, decodeAt data 0 = .ok (v, next) → v.kind ≠ .dictionary →
        valueSpan? data key = .error (.field (.wrongKind "<root>" .dictionary v.kind))) ∧
      (∀ d next, decodeAt data 0 = .ok (.dictionary d, next) →
        (valueSpan? data key = .ok none ↔ d.get? key = none) ∧
          ∀ v, d.get? key = some v → ∃ s : Span, valueSpan? data key = .ok (some s) ∧
            0 < s.start ∧ s.start < s.stop ∧ s.stop < next ∧ decode (s.slice data) = .ok v ∧
            ∀ t, Grammar.LastValueAt key data t ↔ t = s) := by
  refine ⟨?_, ?_, ?_⟩
  · intro e h
    exact valueSpan?_of_error h key
  · intro v next h hv
    exact valueSpan?_of_other_kind h hv key
  · intro d next h
    exact ⟨valueSpan?_eq_none_iff h key, fun v hv => exists_valueSpan? h hv⟩

/-- `d1:ad1:bi0ee1:b3:1:b1:bi7eexx`: the key also stands at a deeper level, in the data of a byte
string, and in front of an earlier value. -/
example : valueSpan? [100, 49, 58, 97, 100, 49, 58, 98, 105, 48, 101, 101, 49, 58, 98, 51, 58, 49,
    58, 98, 49, 58, 98, 105, 55, 101, 101, 120, 120] [98] = .ok (some ⟨23, 26⟩) := by decide

end Swarm.Bencode
