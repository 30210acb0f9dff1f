/-
# Values are read exactly where they are spelled

The readers of `Swarm.Bencode.Decoding` against the spellings of `Swarm.Proofs.Bencode.Spelling`:

* `readValue_text`: a spelling is read as its value, up to its last byte and whatever follows,
  if it is lower than the levels that are left;
* `readValue_text_of_deep`: if it is not, the reader refuses it because of its depth and for
  no other reason;
* `exists_of_readValue`: whatever is read is a spelling, and lower than those levels.

The loop over the items of a container is the same for lists and dictionaries, so section 1
treats it once, for items that have a text and give a result that may depend on what follows
them.  Its bound is the number of bytes there are, which is more than there are items
(`length_le_flatMap`).
-/
import Swarm.Proofs.Bencode.Leaf
import Swarm.Proofs.Bencode.Spelling

namespace Swarm.Bencode

/-! ## 1. Items one after another -/

section Items

variable {α β γ : Type} (text : β → Bytes) (result : β → Bytes → α)

/-- What items give that stand one after another, each with the bytes behind it. -/
def inTurn : List β → Bytes → List α
  | [], _ => []
  | b :: bs, tail => result b (bs.flatMap text ++ tail) :: inTurn bs tail

/-- Where the bytes behind an item do not matter, each item counts for itself. -/
theorem map_inTurn {f : α → γ} {g : β → γ} (h : ∀ b rest, f (result b rest) = g b) :
    ∀ (bs : List β) (tail : Bytes), (inTurn text result bs tail).map f = bs.map g
  | [], _ => rfl
  | b :: bs, tail => by
    rw [inTurn, List.map_cons, List.map_cons, h, map_inTurn h bs tail]

/-- An item that is not the closing mark takes a byte, so there are no more items than bytes. -/
theorem length_le_flatMap : ∀ (bs : List β),
    (∀ b ∈ bs, ∃ c s, text b = c :: s ∧ c ≠ Mark.close) → bs.length ≤ (bs.flatMap text).length
  | [], _ => Nat.zero_le _
  | b :: bs, h => by
    obtain ⟨hb, hbs⟩ := List.forall_mem_cons.mp h
    obtain ⟨c, s, hc, -⟩ := hb
    have ih := length_le_flatMap bs hbs
    simp only [List.flatMap_cons, List.length_cons, List.length_append, hc]
    omega

theorem length_le_flatMap_of_mem {b : β} {bs : List β} (h : b ∈ bs) :
    (text b).length ≤ (bs.flatMap text).length := by
  obtain ⟨front, back, rfl⟩ := List.append_of_mem h
  simp only [List.flatMap_append, List.flatMap_cons, List.length_append]
  omega

variable {text result} {item : Bytes → Reading α}

/-- **Items are read in turn**, up to the mark behind the last one. -/
theorem readItems_flatMap : ∀ (bs : List β) (bound : Nat) (rest : Bytes),
    (∀ b ∈ bs, ∃ c s, text b = c :: s ∧ c ≠ Mark.close) →
    (∀ b ∈ bs, ∀ rest, item (text b ++ rest) = .ok (result b rest, rest)) →
    bs.length < bound →
    readItems item bound (bs.flatMap text ++ Mark.close :: rest)
      = .ok (inTurn text result bs (Mark.close :: rest), rest)
  | _, 0, _, _, _, hbound => absurd hbound (Nat.not_lt_zero _)
  | [], bound + 1, rest, _, _, _ => by simp [readItems, inTurn]
  | b :: bs, bound + 1, rest, hstart, hitem, hbound => by
    obtain ⟨hb, hbs⟩ := List.forall_mem_cons.mp hstart
    obtain ⟨hi, his⟩ := List.forall_mem_cons.mp hitem
    obtain ⟨c, s, hc, hne⟩ := hb
    have ih := readItems_flatMap bs bound rest hbs his (Nat.lt_of_succ_lt_succ hbound)
    have hread := hi (bs.flatMap text ++ Mark.close :: rest)
    rw [hc, List.cons_append] at hread
    rw [List.flatMap_cons, List.append_assoc, hc, List.cons_append]
    simp only [readItems, if_neg hne, hread, ih, inTurn]

/-- If the reader stops at some of the items, for reasons of one sort, and reads the others,
then it stops at the first of those, for a reason of that sort. -/
theorem readItems_stop {Refused : β → Prop} {Why : Stop → Prop} :
    ∀ (bs : List β) (bound : Nat) (tail : Bytes),
    (∀ b ∈ bs, ∃ c s, text b = c :: s ∧ c ≠ Mark.close) →
    (∀ b ∈ bs, ¬ Refused b → ∀ rest, ∃ x, item (text b ++ rest) = .ok (x, rest)) →
    (∀ b ∈ bs, Refused b → ∀ rest, ∃ stop, Why stop ∧ item (text b ++ rest) = .error stop) →
    (∃ b ∈ bs, Refused b) → bs.length < bound →
    ∃ stop, Why stop ∧ readItems item bound (bs.flatMap text ++ tail) = .error stop
  | _, 0, _, _, _, _, _, hbound => absurd hbound (Nat.not_lt_zero _)
  | [], _ + 1, _, _, _, _, hex, _ => by
    obtain ⟨b, hb, -⟩ := hex
    exact absurd hb List.not_mem_nil
  | b :: bs, bound + 1, tail, hstart, hok, hstop, hex, hbound => by
    obtain ⟨hb, hbs⟩ := List.forall_mem_cons.mp hstart
    obtain ⟨hok, hoks⟩ := List.forall_mem_cons.mp hok
    obtain ⟨hstop, hstops⟩ := List.forall_mem_cons.mp hstop
    obtain ⟨c, s, hc, hne⟩ := hb
    rw [List.flatMap_cons, List.append_assoc, hc, List.cons_append]
    by_cases hr : Refused b
    · obtain ⟨stop, hwhy, hread⟩ := hstop hr (bs.flatMap text ++ tail)
      rw [hc, List.cons_append] at hread
      exact ⟨stop, hwhy, by simp only [readItems, if_neg hne, hread]⟩
    · obtain ⟨x, hread⟩ := hok hr (bs.flatMap text ++ tail)
      rw [hc, List.cons_append] at hread
      have hlater : ∃ b ∈ bs, Refused b := by
        obtain ⟨a, ha, har⟩ := hex
        rcases List.mem_cons.mp ha with rfl | ha
        · exact absurd har hr
        · exact ⟨a, ha, har⟩
      obtain ⟨stop, hwhy, ih⟩ := readItems_stop bs bound tail hbs hoks hstops hlater
        (Nat.lt_of_succ_lt_succ hbound)
      exact ⟨stop, hwhy, by simp only [readItems, if_neg hne, hread, ih]⟩

/-- **What is read are items in turn**, if each thing that is read is one. -/
theorem exists_of_readItems {Good : β → Prop}
    (hitem : ∀ s x rest, item s = .ok (x, rest) →
      ∃ b, Good b ∧ s = text b ++ rest ∧ x = result b rest) :
    ∀ (bound : Nat) (s : Bytes) (xs : List α) (rest : Bytes),
    readItems item bound s = .ok (xs, rest) →
    ∃ bs, (∀ b ∈ bs, Good b) ∧ s = bs.flatMap text ++ Mark.close :: rest ∧
      xs = inTurn text result bs (Mark.close :: rest)
  | 0, _, _, _, h => absurd h (by simp [readItems])
  | _ + 1, [], _, _, h => absurd h (by simp [readItems])
  | bound + 1, c :: s, xs, rest, h => by
    simp only [readItems] at h
    split at h
    · rename_i hc
      rw [Except.ok.injEq, Prod.mk.injEq] at h
      obtain ⟨rfl, rfl⟩ := h
      exact ⟨[], by simp, by rw [hc]; rfl, rfl⟩
    · split at h
      · exact absurd h (by simp)
      · rename_i x s' hread
        split at h
        · exact absurd h (by simp)
        · rename_i ys rest' hreads
          rw [Except.ok.injEq, Prod.mk.injEq] at h
          obtain ⟨rfl, rfl⟩ := h
          obtain ⟨bs, hgood, rfl, rfl⟩ := exists_of_readItems hitem bound s' ys rest' hreads
          obtain ⟨b, hb, hs, rfl⟩ := hitem _ _ _ hread
          refine ⟨b :: bs, List.forall_mem_cons.mpr ⟨hb, hgood⟩, ?_, rfl⟩
          rw [hs, List.flatMap_cons, List.append_assoc]

end Items

/-! ## 2. The pairs of a dictionary -/

namespace Spelling

/-- No value begins with the closing mark. -/
theorem exists_cons_text (x : Spelling) : ∃ c s, x.text = c :: s ∧ c ≠ Mark.close := by
  cases x with
  | integer n => exact ⟨_, _, rfl, by decide⟩
  | byteString s =>
    obtain ⟨c, tail, h, hc⟩ := exists_cons_encodeBytes s
    refine ⟨c, tail, h, ?_⟩
    rintro rfl
    exact absurd hc (by decide)
  | list items => exact ⟨_, _, rfl, by decide⟩
  | dictionary pairs => exact ⟨_, _, rfl, by decide⟩

/-- Nor does a key. -/
theorem exists_cons_textPair (p : Key × Spelling) :
    ∃ c s, textPair p = c :: s ∧ c ≠ Mark.close := by
  obtain ⟨c, tail, h, hc⟩ := exists_cons_encodeBytes p.1
  refine ⟨c, tail ++ p.2.text, ?_, ?_⟩
  · rw [textPair, h, List.cons_append]
  · rintro rfl
    exact absurd hc (by decide)

theorem text_integer_append (n : Int64) (rest : Bytes) :
    (integer n).text ++ rest
      = Mark.integer :: (Text.signedDecimal n.toInt ++ Mark.close :: rest) := by
  simp [text]

theorem text_list_append (items : List Spelling) (rest : Bytes) :
    (list items).text ++ rest = Mark.list :: (items.flatMap text ++ Mark.close :: rest) := by
  simp [text, textItems_eq_flatMap]

theorem text_dictionary_append (pairs : List (Key × Spelling)) (rest : Bytes) :
    (dictionary pairs).text ++ rest
      = Mark.dictionary :: (pairs.flatMap textPair ++ Mark.close :: rest) := by
  simp [text, textPairs_eq_flatMap]

/-- A list is longer than it has items, -/
theorem length_lt_list (items : List Spelling) : items.length < (list items).text.length := by
  have h := length_le_flatMap text items fun x _ => x.exists_cons_text
  simp only [text, textItems_eq_flatMap, List.length_cons, List.length_append]
  omega

/-- and longer than any of them. -/
theorem length_text_lt_list {x : Spelling} {items : List Spelling} (hx : x ∈ items) :
    x.text.length < (list items).text.length := by
  have h := length_le_flatMap_of_mem text hx
  simp only [text, textItems_eq_flatMap, List.length_cons, List.length_append]
  omega

/-- A dictionary is longer than it has pairs, -/
theorem length_lt_dictionary (pairs : List (Key × Spelling)) :
    pairs.length < (dictionary pairs).text.length := by
  have h := length_le_flatMap textPair pairs fun p _ => exists_cons_textPair p
  simp only [text, textPairs_eq_flatMap, List.length_cons, List.length_append]
  omega

/-- and longer than any value in it. -/
theorem length_text_lt_dictionary {p : Key × Spelling} {pairs : List (Key × Spelling)}
    (hp : p ∈ pairs) : p.2.text.length < (dictionary pairs).text.length := by
  have h := length_le_flatMap_of_mem textPair hp
  simp only [text, textPairs_eq_flatMap, List.length_cons, List.length_append]
  rw [textPair, List.length_append] at h
  omega

/-- The values of a list do not depend on where they stand. -/
theorem inTurn_value (items : List Spelling) (tail : Bytes) :
    inTurn text (fun x _ => x.value) items tail = valueItems items := by
  have h := map_inTurn text (fun x _ => x.value) (f := id) (g := value) (fun _ _ => rfl) items tail
  rw [List.map_id] at h
  rw [h, valueItems_eq_map]

/-- What a pair gives: the key, the value, and where the value stands. -/
def entry (p : Key × Spelling) (rest : Bytes) : Key × Value × Extent :=
  (p.1, p.2.value, ⟨p.2.text ++ rest, rest⟩)

/-- The dictionary does not depend on where its values stand. -/
theorem dictionaryOf_inTurn (pairs : List (Key × Spelling)) (tail : Bytes) :
    dictionaryOf (inTurn textPair entry pairs tail) = Dictionary.ofList (valuePairs pairs) := by
  rw [dictionaryOf, map_inTurn textPair entry (g := fun p => (p.1, p.2.value)) (fun _ _ => rfl),
    valuePairs_eq_map]

end Spelling

section Entry

variable {value : Bytes → Reading Value}

/-- Behind a key the reader does what the reader of values does. -/
theorem readEntry_encodeBytes {key : Key} (hkey : key.length < UInt64.size) (s : Bytes) :
    readEntry value (encodeBytes key ++ s) =
      match value s with
      | .error stop => .error stop
      | .ok (v, rest) => .ok ((key, v, ⟨s, rest⟩), rest) := by
  obtain ⟨c, tail, hc, hdigit⟩ := exists_cons_encodeBytes key
  have hread : readBytes (encodeBytes key ++ s) = .ok (key, s) :=
    readBytes_eq_ok_iff.mpr ⟨rfl, hkey⟩
  rw [hc, List.cons_append] at hread ⊢
  unfold readEntry
  exact (if_pos hdigit).trans (hread ▸ rfl)

theorem readEntry_textPair {p : Key × Spelling} (hkey : p.1.length < UInt64.size)
    (rest : Bytes) :
    readEntry value (Spelling.textPair p ++ rest) =
      match value (p.2.text ++ rest) with
      | .error stop => .error stop
      | .ok (v, rest') => .ok ((p.1, v, ⟨p.2.text ++ rest, rest'⟩), rest') := by
  rw [Spelling.textPair, List.append_assoc]
  exact readEntry_encodeBytes hkey (p.2.text ++ rest)

/-- **Pairs are read in turn**, if their values are. -/
theorem readItems_textPair {pairs : List (Key × Spelling)}
    (hkeys : ∀ p ∈ pairs, p.1.length < UInt64.size)
    (hvalues : ∀ p ∈ pairs, ∀ rest, value (p.2.text ++ rest) = .ok (p.2.value, rest))
    {bound : Nat} (hbound : pairs.length < bound) (rest : Bytes) :
    readItems (readEntry value) bound (pairs.flatMap Spelling.textPair ++ Mark.close :: rest)
      = .ok (inTurn Spelling.textPair Spelling.entry pairs (Mark.close :: rest), rest) := by
  refine readItems_flatMap pairs bound rest (fun p _ => Spelling.exists_cons_textPair p) ?_ hbound
  intro p hp rest
  rw [readEntry_textPair (hkeys p hp), hvalues p hp]
  rfl

theorem of_readEntry {s rest : Bytes} {e : Key × Value × Extent}
    (h : readEntry value s = .ok (e, rest)) :
    ∃ s', e.1.length < UInt64.size ∧ s = encodeBytes e.1 ++ s' ∧ value s' = .ok (e.2.1, rest) ∧
      e.2.2 = ⟨s', rest⟩ := by
  cases s with
  | nil => exact absurd h (by simp [readEntry])
  | cons c tail =>
    simp only [readEntry] at h
    split at h
    · split at h
      · exact absurd h (by simp)
      · rename_i key s' hkey
        split at h
        · exact absurd h (by simp)
        · rename_i v s'' hv
          rw [Except.ok.injEq, Prod.mk.injEq] at h
          obtain ⟨rfl, rfl⟩ := h
          obtain ⟨hs, hsize⟩ := readBytes_eq_ok_iff.mp hkey
          exact ⟨s', hsize, hs, hv, rfl⟩
    · exact absurd h (by simp)

end Entry

/-! ## 3. Values, by their first byte -/

theorem readValue_integer (bound levels : Nat) (s : Bytes) :
    readValue bound (levels + 1) (Mark.integer :: s) =
      match readInteger (Mark.integer :: s) s with
      | .error stop => .error stop
      | .ok (n, rest) => .ok (.integer n, rest) := by
  unfold readValue
  exact if_pos rfl

theorem readValue_byteString (bound levels : Nat) {b : UInt8} (hb : Text.isDigit b = true)
    (s : Bytes) :
    readValue bound (levels + 1) (b :: s) =
      match readBytes (b :: s) with
      | .error stop => .error stop
      | .ok (x, rest) => .ok (.byteString x, rest) := by
  have hne : b ≠ Mark.integer := by
    rintro rfl
    exact absurd hb (by decide)
  unfold readValue
  exact (if_neg hne).trans (if_pos hb)

theorem readValue_list (bound levels : Nat) (s : Bytes) :
    readValue bound (levels + 1) (Mark.list :: s) =
      match readItems (readValue bound levels) bound s with
      | .error stop => .error stop
      | .ok (items, rest) => .ok (.list items, rest) := by
  have h1 : Mark.list ≠ Mark.integer := by decide
  have h2 : ¬ Text.isDigit Mark.list = true := by decide
  unfold readValue
  exact (if_neg h1).trans ((if_neg h2).trans (if_pos rfl))

theorem readValue_dictionary (bound levels : Nat) (s : Bytes) :
    readValue bound (levels + 1) (Mark.dictionary :: s) =
      match readItems (readEntry (readValue bound levels)) bound s with
      | .error stop => .error stop
      | .ok (entries, rest) => .ok (.dictionary (dictionaryOf entries), rest) := by
  have h1 : Mark.dictionary ≠ Mark.integer := by decide
  have h2 : ¬ Text.isDigit Mark.dictionary = true := by decide
  have h3 : Mark.dictionary ≠ Mark.list := by decide
  unfold readValue
  exact (if_neg h1).trans ((if_neg h2).trans ((if_neg h3).trans (if_pos rfl)))

/-! ## 4. Spellings are read -/

/-- **A spelling is read as its value**, up to its last byte and whatever follows, if it is
lower than the levels that are left. -/
theorem readValue_text {x : Spelling} (hx : x.Fits) : ∀ (bound levels : Nat) (rest : Bytes),
    x.text.length ≤ bound → x.height < levels →
    readValue bound levels (x.text ++ rest) = .ok (x.value, rest) := by
  induction x with
  | integer n =>
    intro bound levels rest _ hlevels
    obtain ⟨levels, rfl⟩ := Nat.exists_eq_succ_of_ne_zero (Nat.ne_zero_of_lt hlevels)
    have hread : ∀ whole, readInteger whole (Text.signedDecimal n.toInt ++ Mark.close :: rest)
        = .ok (n, rest) := fun _ => readInteger_eq_ok_iff.mpr rfl
    rw [Spelling.text_integer_append, readValue_integer, hread]
    rfl
  | byteString s =>
    intro bound levels rest _ hlevels
    obtain ⟨levels, rfl⟩ := Nat.exists_eq_succ_of_ne_zero (Nat.ne_zero_of_lt hlevels)
    obtain ⟨c, tail, hc, hdigit⟩ := exists_cons_encodeBytes s
    cases hx with
    | byteString hsize =>
      have hread : readBytes (encodeBytes s ++ rest) = .ok (s, rest) :=
        readBytes_eq_ok_iff.mpr ⟨rfl, hsize⟩
      rw [hc, List.cons_append] at hread
      rw [Spelling.text, hc, List.cons_append, readValue_byteString bound levels hdigit, hread]
      rfl
  | list items ih =>
    intro bound levels rest hbound hlevels
    obtain ⟨levels, rfl⟩ := Nat.exists_eq_succ_of_ne_zero (Nat.ne_zero_of_lt hlevels)
    cases hx with
    | list hfits =>
      have hlow := (Spelling.heightItems_le_iff items).mp (Nat.le_of_lt_succ hlevels)
      have hmany := Nat.lt_of_lt_of_le (Spelling.length_lt_list items) hbound
      have hitem : ∀ x ∈ items, ∀ rest,
          readValue bound levels (x.text ++ rest) = .ok (x.value, rest) := by
        intro x hx rest
        have hshort := Nat.le_trans (Nat.le_of_lt (Spelling.length_text_lt_list hx)) hbound
        exact ih x hx (hfits x hx) bound levels rest hshort (hlow x hx)
      have hread : readItems (readValue bound levels) bound
          (items.flatMap Spelling.text ++ Mark.close :: rest)
            = .ok (Spelling.valueItems items, rest) := by
        rw [readItems_flatMap items bound rest (fun x _ => x.exists_cons_text) hitem hmany,
          Spelling.inTurn_value]
      rw [Spelling.text_list_append, readValue_list, hread]
      rfl
  | dictionary pairs ih =>
    intro bound levels rest hbound hlevels
    obtain ⟨levels, rfl⟩ := Nat.exists_eq_succ_of_ne_zero (Nat.ne_zero_of_lt hlevels)
    cases hx with
    | dictionary hkeys hfits =>
      have hlow := (Spelling.heightPairs_le_iff pairs).mp (Nat.le_of_lt_succ hlevels)
      have hmany := Nat.lt_of_lt_of_le (Spelling.length_lt_dictionary pairs) hbound
      have hvalues : ∀ p ∈ pairs, ∀ rest,
          readValue bound levels (p.2.text ++ rest) = .ok (p.2.value, rest) := by
        intro p hp rest
        have hshort := Nat.le_trans (Nat.le_of_lt (Spelling.length_text_lt_dictionary hp)) hbound
        exact ih p hp (hfits p hp) bound levels rest hshort (hlow p hp)
      rw [Spelling.text_dictionary_append, readValue_dictionary,
        readItems_textPair hkeys hvalues hmany]
      simp only [Spelling.dictionaryOf_inTurn]
      rfl

/-- **A spelling that is not lower than the levels that are left is refused** because of its
depth, and not because of anything else in it. -/
theorem readValue_text_of_deep {x : Spelling} (hx : x.Fits) :
    ∀ (bound levels : Nat) (rest : Bytes), x.text.length ≤ bound → levels ≤ x.height →
    ∃ stop, (∃ s, stop = .bad .nestingTooDeep s) ∧
      readValue bound levels (x.text ++ rest) = .error stop := by
  induction x with
  | integer n =>
    intro bound levels rest _ hlevels
    obtain rfl : levels = 0 := Nat.eq_zero_of_le_zero hlevels
    exact ⟨_, ⟨_, rfl⟩, rfl⟩
  | byteString s =>
    intro bound levels rest _ hlevels
    obtain rfl : levels = 0 := Nat.eq_zero_of_le_zero hlevels
    exact ⟨_, ⟨_, rfl⟩, rfl⟩
  | list items ih =>
    intro bound levels rest hbound hlevels
    cases levels with
    | zero => exact ⟨_, ⟨_, rfl⟩, rfl⟩
    | succ levels =>
      cases hx with
      | list hfits =>
        have hmany := Nat.lt_of_lt_of_le (Spelling.length_lt_list items) hbound
        have hshort : ∀ x ∈ items, x.text.length ≤ bound := fun x hx =>
          Nat.le_trans (Nat.le_of_lt (Spelling.length_text_lt_list hx)) hbound
        have hok : ∀ x ∈ items, ¬ levels ≤ x.height → ∀ rest, ∃ v,
            readValue bound levels (x.text ++ rest) = .ok (v, rest) := by
          intro x hx hlow rest
          exact ⟨x.value, readValue_text (hfits x hx) bound levels rest (hshort x hx)
            (Nat.lt_of_not_le hlow)⟩
        have hstop : ∀ x ∈ items, levels ≤ x.height → ∀ rest, ∃ stop,
            (∃ s, stop = .bad .nestingTooDeep s) ∧
              readValue bound levels (x.text ++ rest) = .error stop := by
          intro x hx hdeep rest
          exact ih x hx (hfits x hx) bound levels rest (hshort x hx) hdeep
        obtain ⟨stop, hwhy, hread⟩ := readItems_stop items bound (Mark.close :: rest)
          (fun x _ => x.exists_cons_text) hok hstop
          ((Spelling.lt_heightItems_iff items).mp hlevels) hmany
        rw [Spelling.text_list_append, readValue_list, hread]
        exact ⟨stop, hwhy, rfl⟩
  | dictionary pairs ih =>
    intro bound levels rest hbound hlevels
    cases levels with
    | zero => exact ⟨_, ⟨_, rfl⟩, rfl⟩
    | succ levels =>
      cases hx with
      | dictionary hkeys hfits =>
        have hmany := Nat.lt_of_lt_of_le (Spelling.length_lt_dictionary pairs) hbound
        have hshort : ∀ p ∈ pairs, p.2.text.length ≤ bound := fun p hp =>
          Nat.le_trans (Nat.le_of_lt (Spelling.length_text_lt_dictionary hp)) hbound
        have hok : ∀ p ∈ pairs, ¬ levels ≤ p.2.height → ∀ rest, ∃ e,
            readEntry (readValue bound levels) (Spelling.textPair p ++ rest) = .ok (e, rest) := by
          intro p hp hlow rest
          have hvalue := readValue_text (hfits p hp) bound levels rest (hshort p hp)
            (Nat.lt_of_not_le hlow)
          rw [readEntry_textPair (hkeys p hp), hvalue]
          exact ⟨_, rfl⟩
        have hstop : ∀ p ∈ pairs, levels ≤ p.2.height → ∀ rest, ∃ stop,
            (∃ s, stop = .bad .nestingTooDeep s) ∧
              readEntry (readValue bound levels) (Spelling.textPair p ++ rest) = .error stop := by
          intro p hp hdeep rest
          obtain ⟨stop, hwhy, hvalue⟩ := ih p hp (hfits p hp) bound levels rest (hshort p hp) hdeep
          rw [readEntry_textPair (hkeys p hp), hvalue]
          exact ⟨stop, hwhy, rfl⟩
        obtain ⟨stop, hwhy, hread⟩ := readItems_stop pairs bound (Mark.close :: rest)
          (fun p _ => Spelling.exists_cons_textPair p) hok hstop
          ((Spelling.lt_heightPairs_iff pairs).mp hlevels) hmany
        rw [Spelling.text_dictionary_append, readValue_dictionary, hread]
        exact ⟨stop, hwhy, rfl⟩

/-! ## 5. What is read is a spelling -/

/-- A key and a value that are read are a pair, if the values that are read are spellings. -/
theorem exists_of_readEntry {value : Bytes → Reading Value} {Good : Spelling → Prop}
    (hvalue : ∀ s v rest, value s = .ok (v, rest) →
      ∃ x : Spelling, Good x ∧ s = x.text ++ rest ∧ v = x.value)
    (s : Bytes) (e : Key × Value × Extent) (rest : Bytes)
    (h : readEntry value s = .ok (e, rest)) :
    ∃ p : Key × Spelling, (p.1.length < UInt64.size ∧ Good p.2) ∧
      s = Spelling.textPair p ++ rest ∧ e = Spelling.entry p rest := by
  obtain ⟨key, v, extent⟩ := e
  obtain ⟨s', hsize, rfl, hread, rfl⟩ := of_readEntry h
  obtain ⟨x, hgood, rfl, rfl⟩ := hvalue s' v rest hread
  refine ⟨(key, x), ⟨hsize, hgood⟩, ?_, rfl⟩
  rw [Spelling.textPair, List.append_assoc]

/-- **Whatever is read is a spelling**, and lower than the levels that are left. -/
theorem exists_of_readValue (bound : Nat) : ∀ (levels : Nat) (s : Bytes) (v : Value) (rest : Bytes),
    readValue bound levels s = .ok (v, rest) →
    ∃ x : Spelling, (x.Fits ∧ x.height < levels) ∧ s = x.text ++ rest ∧ v = x.value
  | 0, _, _, _, h => absurd h (by simp [readValue])
  | _ + 1, [], _, _, h => absurd h (by simp [readValue])
  | levels + 1, b :: s, v, rest, h => by
    have ih := exists_of_readValue bound levels
    simp only [readValue] at h
    split at h
    · -- a number
      rename_i hb
      split at h
      · exact absurd h (by simp)
      · rename_i n s' hread
        rw [Except.ok.injEq, Prod.mk.injEq] at h
        obtain ⟨rfl, rfl⟩ := h
        refine ⟨.integer n, ⟨.integer n, Nat.succ_pos levels⟩, ?_, rfl⟩
        rw [Spelling.text_integer_append, hb, readInteger_eq_ok_iff.mp hread]
    · split at h
      · -- a byte string
        split at h
        · exact absurd h (by simp)
        · rename_i x s' hread
          rw [Except.ok.injEq, Prod.mk.injEq] at h
          obtain ⟨rfl, rfl⟩ := h
          obtain ⟨hs, hsize⟩ := readBytes_eq_ok_iff.mp hread
          exact ⟨.byteString x, ⟨.byteString hsize, Nat.succ_pos levels⟩, hs, rfl⟩
      · split at h
        · -- a list
          rename_i hb
          split at h
          · exact absurd h (by simp)
          · rename_i items s' hread
            rw [Except.ok.injEq, Prod.mk.injEq] at h
            obtain ⟨rfl, rfl⟩ := h
            obtain ⟨xs, hxs, rfl, rfl⟩ := exists_of_readItems ih bound s items _ hread
            refine ⟨.list xs, ⟨.list fun x hx => (hxs x hx).1, Nat.lt_succ_of_le ?_⟩, ?_, ?_⟩
            · exact (Spelling.heightItems_le_iff xs).mpr fun x hx => (hxs x hx).2
            · rw [Spelling.text_list_append, hb]
            · rw [Spelling.inTurn_value]
              rfl
        · split at h
          · -- a dictionary
            rename_i hb
            split at h
            · exact absurd h (by simp)
            · rename_i entries s' hread
              rw [Except.ok.injEq, Prod.mk.injEq] at h
              obtain ⟨rfl, rfl⟩ := h
              obtain ⟨pairs, hpairs, rfl, rfl⟩ :=
                exists_of_readItems (exists_of_readEntry ih) bound s entries _ hread
              refine ⟨.dictionary pairs, ⟨.dictionary (fun p hp => (hpairs p hp).1)
                (fun p hp => (hpairs p hp).2.1), Nat.lt_succ_of_le ?_⟩, ?_, ?_⟩
              · exact (Spelling.heightPairs_le_iff pairs).mpr fun p hp => (hpairs p hp).2.2
              · rw [Spelling.text_dictionary_append, hb]
              · rw [Spelling.dictionaryOf_inTurn]
                rfl
          · exact absurd h (by simp)

/-! ## 6. Reading at a position, and all of the bytes -/

/-- **A value is decoded at a position where a spelling stands** that is not too deep, and the
reading ends where the spelling does. -/
theorem decodeAt_eq_ok_iff {data : Bytes} {position : Nat} {v : Value} {next : Nat} :
    decodeAt data position = .ok (v, next) ↔
      ∃ (x : Spelling) (rest : Bytes), (x.Fits ∧ x.height ≤ maxDepth) ∧
        data.drop position = x.text ++ rest ∧ x.value = v ∧ next = position + x.text.length := by
  constructor
  · intro h
    unfold decodeAt at h
    simp only at h
    split at h
    · exact absurd h (by simp)
    · rename_i v' rest hread
      rw [Except.ok.injEq, Prod.mk.injEq] at h
      obtain ⟨rfl, rfl⟩ := h
      obtain ⟨x, ⟨hfits, hlow⟩, hs, rfl⟩ := exists_of_readValue _ _ _ _ _ hread
      refine ⟨x, rest, ⟨hfits, Nat.le_of_lt_succ hlow⟩, hs, rfl, ?_⟩
      rw [hs, List.length_append, Nat.add_sub_cancel]
  · rintro ⟨x, rest, ⟨hfits, hlow⟩, hs, rfl, rfl⟩
    have hread := readValue_text hfits (x.text ++ rest).length (maxDepth + 1) rest (by simp)
      (Nat.lt_succ_of_le hlow)
    simp only [decodeAt, hs, hread]
    rw [List.length_append, Nat.add_sub_cancel]

theorem decodeAt_text (front : Bytes) {x : Spelling} (hx : x.Fits) (hlow : x.height ≤ maxDepth)
    (rest : Bytes) :
    decodeAt (front ++ x.text ++ rest) front.length
      = .ok (x.value, front.length + x.text.length) :=
  decodeAt_eq_ok_iff.mpr ⟨x, rest, ⟨hx, hlow⟩, by rw [List.append_assoc, List.drop_left], rfl, rfl⟩

theorem decodeAt_text_of_deep (front : Bytes) {x : Spelling} (hx : x.Fits)
    (hdeep : maxDepth < x.height) (rest : Bytes) :
    ∃ position, decodeAt (front ++ x.text ++ rest) front.length
      = .error (.malformed position .nestingTooDeep) := by
  obtain ⟨_, ⟨s, rfl⟩, hread⟩ := readValue_text_of_deep hx (x.text ++ rest).length (maxDepth + 1)
    rest (by simp) hdeep
  simp only [decodeAt, List.append_assoc, List.drop_left, hread]
  exact ⟨_, rfl⟩

/-- All of the bytes are decoded if a reading from the front takes all of them. -/
theorem decode_eq_ok_iff_decodeAt {b : Bytes} {v : Value} :
    decode b = .ok v ↔ decodeAt b 0 = .ok (v, b.length) := by
  unfold decode
  split
  · rename_i e h
    rw [h]
    exact ⟨nofun, nofun⟩
  · rename_i v' next h
    rw [h, Except.ok.injEq, Prod.mk.injEq]
    split
    · rename_i hnext
      rw [Except.ok.injEq]
      exact ⟨fun hv => ⟨hv, hnext⟩, fun hv => hv.1⟩
    · rename_i hnext
      exact ⟨nofun, fun hv => absurd hv.2 hnext⟩

/-- **The texts that are decoded are the spellings** that are not too deep. -/
theorem decode_eq_ok_iff {b : Bytes} {v : Value} :
    decode b = .ok v ↔
      ∃ x : Spelling, (x.Fits ∧ x.height ≤ maxDepth) ∧ x.text = b ∧ x.value = v := by
  rw [decode_eq_ok_iff_decodeAt, decodeAt_eq_ok_iff, List.drop_zero]
  constructor
  · rintro ⟨x, rest, hx, hb, hvalue, hlength⟩
    -- all bytes have been taken, so none are left behind the spelling
    have hrest : rest = [] := by
      rw [hb, List.length_append] at hlength
      exact List.eq_nil_of_length_eq_zero (by omega)
    rw [hrest, List.append_nil] at hb
    exact ⟨x, hx, hb.symm, hvalue⟩
  · rintro ⟨x, hx, rfl, rfl⟩
    exact ⟨x, [], hx, (List.append_nil _).symm, rfl, (Nat.zero_add _).symm⟩

end Swarm.Bencode
