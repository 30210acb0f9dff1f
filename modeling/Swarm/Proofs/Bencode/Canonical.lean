/-
# A text that is in order is the one that is written

A text may list the keys of a dictionary in any order and more than once.  Reading a text and
writing its value again puts the keys in ascending order, at every level, and drops every pair
but the last of each key.  Nothing else can change, since numerals have one writing each:

* `Spelling.encode_value_eq_text_iff`: what is written is the text itself exactly if the keys
  ascend in every dictionary that the text contains;
* `encode_of_decode`: so canonical texts are the fixed points, and what is written for any text
  is canonical, is read as the same value and is never longer.

A dictionary that is written again is a part of the pairs that were read
(`Dictionary.toList_ofList_subperm`), which is why no length and no depth grows.
-/
import Mathlib.Algebra.Order.BigOperators.Group.List
import Mathlib.Data.List.Flatten
import Swarm.Proofs.Bencode.Readability
import Swarm.Proofs.Bencode.Writing

namespace Swarm.Bencode

namespace Spelling

/-! ## 1. Texts in which the keys ascend -/

/-- The second spelling occurs in the first one, as itself or at any level inside it. -/
inductive Contains : Spelling → Spelling → Prop
  | self (x : Spelling) : Contains x x
  | item {items : List Spelling} {x y : Spelling} (hx : x ∈ items) (h : Contains x y) :
      Contains (list items) y
  | entry {pairs : List (Key × Spelling)} {p : Key × Spelling} {y : Spelling} (hp : p ∈ pairs)
      (h : Contains p.2 y) : Contains (dictionary pairs) y

/-- In every dictionary that occurs, at every level, the keys ascend strictly, byte by byte. -/
def Ascending (x : Spelling) : Prop :=
  ∀ pairs, x.Contains (dictionary pairs) → (pairs.map Prod.fst).Pairwise (· < ·)

theorem ascending_integer (n : Int64) : (integer n).Ascending := nofun

theorem ascending_byteString (s : Bytes) : (byteString s).Ascending := nofun

theorem ascending_list_iff {items : List Spelling} :
    (list items).Ascending ↔ ∀ x ∈ items, x.Ascending := by
  constructor
  · intro h x hx pairs hpairs
    exact h pairs (.item hx hpairs)
  · intro h pairs hpairs
    cases hpairs with
    | item hx hpairs => exact h _ hx pairs hpairs

theorem ascending_dictionary_iff {pairs : List (Key × Spelling)} :
    (dictionary pairs).Ascending ↔
      (pairs.map Prod.fst).Pairwise (· < ·) ∧ ∀ p ∈ pairs, p.2.Ascending := by
  constructor
  · intro h
    exact ⟨h pairs (.self _), fun p hp inner hinner => h inner (.entry hp hinner)⟩
  · rintro ⟨hkeys, hvalues⟩ inner hinner
    cases hinner with
    | self => exact hkeys
    | entry hp hinner => exact hvalues _ hp inner hinner

/-! ## 2. What is written of the value of a text -/

/-- The pairs of a dictionary that are written again: of each key the last one, in ascending
order. -/
def rewritten (pairs : List (Key × Spelling)) : List (Key × Spelling) :=
  (Dictionary.ofList (valuePairs pairs)).toList.map fun e => (e.1, e.2.spelling)

theorem spelling_value_list (items : List Spelling) :
    (list items).value.spelling = list (items.map fun x => x.value.spelling) := by
  rw [value, Value.spelling, Value.spellingItems_eq_map, valueItems_eq_map, List.map_map]
  rfl

theorem spelling_value_dictionary (pairs : List (Key × Spelling)) :
    (dictionary pairs).value.spelling = dictionary (rewritten pairs) := by
  rw [value, Value.spelling, Value.spellingEntries_eq_map]
  rfl

/-- What is written again was there before. -/
theorem exists_of_mem_rewritten {pairs : List (Key × Spelling)} {q : Key × Spelling}
    (hq : q ∈ rewritten pairs) : ∃ p ∈ pairs, q = (p.1, p.2.value.spelling) := by
  obtain ⟨e, he, rfl⟩ := List.mem_map.mp hq
  have hmem := Dictionary.mem_of_mem_toList_ofList he
  rw [valuePairs_eq_map] at hmem
  obtain ⟨p, hp, rfl⟩ := List.mem_map.mp hmem
  exact ⟨p, hp, rfl⟩

/-- What is written is in order, -/
theorem ascending_spelling (v : Value) : v.spelling.Ascending := by
  induction v with
  | integer n => exact ascending_integer n
  | byteString s => exact ascending_byteString s
  | list items ih =>
    rw [Value.spelling, Value.spellingItems_eq_map, ascending_list_iff, List.forall_mem_map]
    exact ih
  | dictionary entries ih =>
    rw [Value.spelling, Value.spellingEntries_eq_map, ascending_dictionary_iff, List.map_map,
      List.forall_mem_map]
    exact ⟨entries.keys_pairwise, ih⟩

/-- and what is in order is written as it is. -/
theorem spelling_value_of_ascending {x : Spelling} (h : x.Ascending) : x.value.spelling = x := by
  induction x with
  | integer n => rfl
  | byteString s => rfl
  | list items ih =>
    rw [ascending_list_iff] at h
    rw [spelling_value_list, List.map_congr_left (g := id) fun x hx => ih x hx (h x hx), List.map_id]
  | dictionary pairs ih =>
    obtain ⟨hkeys, hvalues⟩ := ascending_dictionary_iff.mp h
    have hlisted : (Dictionary.ofList (valuePairs pairs)).toList = valuePairs pairs := by
      refine Dictionary.toList_ofList_of_pairwise ?_
      rw [valuePairs_eq_map, List.map_map]
      exact hkeys
    have hsame : ∀ p ∈ pairs, (p.1, p.2.value.spelling) = p := by
      intro p hp
      rw [ih p hp (hvalues p hp)]
    rw [spelling_value_dictionary, rewritten, hlisted, valuePairs_eq_map, List.map_map]
    exact congrArg dictionary ((List.map_congr_left (g := id) hsame).trans (List.map_id pairs))

/-- **A text is written as it is exactly if it is in order.** -/
theorem encode_value_eq_text_iff {x : Spelling} : x.value.encode = x.text ↔ x.Ascending := by
  rw [← Value.text_spelling]
  constructor
  · intro h
    exact text_injective h ▸ ascending_spelling x.value
  · intro h
    rw [spelling_value_of_ascending h]

/-! ## 3. Nothing grows -/

/-- Lengths and keys stay within 64 bits. -/
theorem fits_spelling_value {x : Spelling} (hx : x.Fits) : x.value.spelling.Fits := by
  induction x with
  | integer n => exact hx
  | byteString s => exact hx
  | list items ih =>
    cases hx with
    | list hfits =>
      rw [spelling_value_list]
      refine .list ?_
      rw [List.forall_mem_map]
      exact fun x hx => ih x hx (hfits x hx)
  | dictionary pairs ih =>
    cases hx with
    | dictionary hkeys hfits =>
      rw [spelling_value_dictionary]
      refine .dictionary (fun q hq => ?_) (fun q hq => ?_)
      · obtain ⟨p, hp, rfl⟩ := exists_of_mem_rewritten hq
        exact hkeys p hp
      · obtain ⟨p, hp, rfl⟩ := exists_of_mem_rewritten hq
        exact ih p hp (hfits p hp)

/-- No node comes to lie deeper. -/
theorem height_spelling_value_le (x : Spelling) : x.value.spelling.height ≤ x.height := by
  induction x with
  | integer n => exact Nat.le_refl _
  | byteString s => exact Nat.le_refl _
  | list items ih =>
    have hlow := (heightItems_le_iff items).mp (Nat.le_refl _)
    rw [spelling_value_list, height, height, heightItems_le_iff, List.forall_mem_map]
    exact fun x hx => Nat.lt_of_le_of_lt (ih x hx) (hlow x hx)
  | dictionary pairs ih =>
    have hlow := (heightPairs_le_iff pairs).mp (Nat.le_refl _)
    rw [spelling_value_dictionary, height, height, heightPairs_le_iff]
    intro q hq
    obtain ⟨p, hp, rfl⟩ := exists_of_mem_rewritten hq
    exact Nat.lt_of_le_of_lt (ih p hp) (hlow p hp)

theorem length_flatMap_le {β : Type} {f g : β → Bytes} {l : List β}
    (h : ∀ b ∈ l, (f b).length ≤ (g b).length) : (l.flatMap f).length ≤ (l.flatMap g).length := by
  rw [List.length_flatMap, List.length_flatMap]
  exact List.sum_le_sum h

theorem length_flatMap_le_of_subperm {β : Type} (f : β → Bytes) {l m : List β}
    (h : l.Subperm m) : (l.flatMap f).length ≤ (m.flatMap f).length := by
  obtain ⟨l', hperm, hsub⟩ := h
  rw [← (hperm.flatMap_right f).length_eq]
  exact (hsub.flatMap f).length_le

/-- The text does not become longer. -/
theorem length_text_spelling_value_le (x : Spelling) :
    x.value.spelling.text.length ≤ x.text.length := by
  induction x with
  | integer n => exact Nat.le_refl _
  | byteString s => exact Nat.le_refl _
  | list items ih =>
    have hitems := length_flatMap_le (f := fun x : Spelling => x.value.spelling.text) (g := text) ih
    rw [spelling_value_list]
    simp only [text, textItems_eq_flatMap, List.flatMap_map, List.length_cons, List.length_append]
    omega
  | dictionary pairs ih =>
    have hpairs : ((rewritten pairs).flatMap textPair).length ≤ (pairs.flatMap textPair).length :=
      calc
        ((rewritten pairs).flatMap textPair).length
          = ((Dictionary.ofList (valuePairs pairs)).toList.flatMap
              fun e => textPair (e.1, e.2.spelling)).length := by rw [rewritten, List.flatMap_map]
        _ ≤ ((valuePairs pairs).flatMap fun e => textPair (e.1, e.2.spelling)).length :=
          length_flatMap_le_of_subperm _ (Dictionary.toList_ofList_subperm (valuePairs pairs))
        _ = (pairs.flatMap fun p => textPair (p.1, p.2.value.spelling)).length := by
          rw [valuePairs_eq_map, List.flatMap_map]
        _ ≤ (pairs.flatMap textPair).length := by
          refine length_flatMap_le fun p hp => ?_
          rw [textPair, textPair, List.length_append, List.length_append]
          exact Nat.add_le_add_left (ih p hp) _
    rw [spelling_value_dictionary]
    simp only [text, textPairs_eq_flatMap, List.length_cons, List.length_append]
    omega

end Spelling

/-! ## 4. Decoding and writing -/

/-- **The keys ascend**: in every dictionary that occurs in the text, at every level, they stand
in strictly ascending order. -/
def KeysAscend (b : Bytes) : Prop := ∀ x : Spelling, x.text = b → x.Ascending

theorem keysAscend_text_iff {x : Spelling} : KeysAscend x.text ↔ x.Ascending := by
  constructor
  · intro h
    exact h x rfl
  · intro h y hy
    exact Spelling.text_injective hy ▸ h

theorem keysAscend_encode (v : Value) : KeysAscend v.encode := by
  rw [← v.text_spelling, keysAscend_text_iff]
  exact Spelling.ascending_spelling v

/-- What is decoded is written as it stood exactly if its keys ascend. -/
theorem encode_eq_iff_keysAscend {b : Bytes} {v : Value} (h : decode b = .ok v) :
    v.encode = b ↔ KeysAscend b := by
  obtain ⟨x, -, rfl, rfl⟩ := decode_eq_ok_iff.mp h
  rw [Spelling.encode_value_eq_text_iff, keysAscend_text_iff]

/-- What is written for a value that was decoded is decoded as that value. -/
theorem decode_encode_of_decode {b : Bytes} {v : Value} (h : decode b = .ok v) :
    decode v.encode = .ok v := by
  obtain ⟨x, ⟨hfits, hlow⟩, -, rfl⟩ := decode_eq_ok_iff.mp h
  exact decode_eq_ok_iff.mpr ⟨x.value.spelling,
    ⟨Spelling.fits_spelling_value hfits, Nat.le_trans x.height_spelling_value_le hlow⟩,
    x.value.text_spelling, x.value.value_spelling⟩

/-- **Canonical texts are the fixed points of decoding and writing.**  A text that is decoded is
a spelling in exactly one way.  It is what is written for its value exactly if its keys ascend
at every level.  In any case what is written is decoded as the same value, has ascending keys at
every level and is not longer. -/
theorem encode_of_decode {b : Bytes} {v : Value} (h : decode b = .ok v) :
    (∃! x : Spelling, x.text = b) ∧ (v.encode = b ↔ KeysAscend b) ∧
      decode v.encode = .ok v ∧ KeysAscend v.encode ∧ v.encode.length ≤ b.length := by
  refine ⟨?_, encode_eq_iff_keysAscend h, decode_encode_of_decode h, keysAscend_encode v, ?_⟩
  · obtain ⟨x, -, hx, -⟩ := decode_eq_ok_iff.mp h
    exact ⟨x, hx, fun y hy => Spelling.text_injective (hy.trans hx.symm)⟩
  · obtain ⟨x, -, rfl, rfl⟩ := decode_eq_ok_iff.mp h
    rw [← Value.text_spelling]
    exact x.length_text_spelling_value_le

/-- `d1:bi1e1:ad1:z0:1:y0:e1:bi2ee`: the keys are out of order in the outer dictionary and in the
inner one, and one of them is repeated. -/
def disorderedText : Bytes :=
  [100, 49, 58, 98, 105, 49, 101, 49, 58, 97, 100, 49, 58, 122, 48, 58, 49, 58, 121, 48, 58, 101,
    49, 58, 98, 105, 50, 101, 101]

/-- The value of that text. -/
def disorderedValue : Value :=
  .dictionary (Dictionary.ofList
    [([97], .dictionary (Dictionary.ofList [([121], .byteString []), ([122], .byteString [])])),
      ([98], .integer 2)])

theorem encode_of_decode_disordered :
    decode disorderedText = .ok disorderedValue ∧
      disorderedValue.encode ≠ disorderedText ∧ ¬ KeysAscend disorderedText ∧
      decode disorderedValue.encode = .ok disorderedValue ∧ KeysAscend disorderedValue.encode ∧
      disorderedValue.encode.length ≤ disorderedText.length := by
  have hread : decode disorderedText = .ok disorderedValue := by decide
  have hchanged : disorderedValue.encode ≠ disorderedText := by decide
  obtain ⟨-, hiff, hagain, hsorted, hlength⟩ := encode_of_decode hread
  exact ⟨hread, hchanged, fun h => hchanged (hiff.mpr h), hagain, hsorted, hlength⟩

end Swarm.Bencode
