/-
# A dictionary depends on the last value of each key

A dictionary comes about from pairs of a key and a value in two ways: they are inserted into the
empty dictionary one after another, or they stand in a text that is read (`MadeOf`).  Either way it
is `Dictionary.ofList` of the pairs (`MadeOf.eq_ofList`), so everything that is known of that holds
of both, and a dictionary that was read cannot be told from one that was built.

What is not a dictionary stays as it is under insertions (`insertAll_of_kind_ne`).
-/
import Swarm.Proofs.Bencode.Readability

namespace Swarm.Bencode

/-! ## 1. Insertions -/

namespace Value

/-- Inserts the pairs one after another: the reports of the insertions, and the value after the
last one. -/
def insertAll : Value → List (Key × Value) → List Bool × Value
  | v, [] => ([], v)
  | v, (key, x) :: pairs =>
    let (report, next) := v.insert key x
    let (reports, last) := next.insertAll pairs
    (report :: reports, last)

/-- Insertions into a dictionary all take effect. -/
theorem insertAll_dictionary (pairs : List (Key × Value)) : ∀ d : Dictionary Value,
    (dictionary d).insertAll pairs =
      (List.replicate pairs.length true,
        dictionary (pairs.foldl (fun d e => Dictionary.insert e.1 e.2 d) d)) := by
  induction pairs with
  | nil =>
    intro d
    rfl
  | cons e pairs ih =>
    intro d
    have hnext := ih (Dictionary.insert e.1 e.2 d)
    simp only [insertAll, insert, hnext]
    rfl

/-- **What is not a dictionary stays as it is**, and every insertion says so. -/
theorem insertAll_of_kind_ne {v : Value} (h : v.kind ≠ .dictionary) (pairs : List (Key × Value)) :
    v.insertAll pairs = (List.replicate pairs.length false, v) := by
  have hsame : ∀ key x, v.insert key x = (false, v) := by
    intro key x
    cases v with
    | integer _ | byteString _ | list _ => rfl
    | dictionary d => exact absurd rfl h
  induction pairs with
  | nil => rfl
  | cons e pairs ih =>
    simp only [insertAll, hsame, ih]
    rfl

end Value

/-! ## 2. Dictionaries and their pairs -/

/-- **How a value comes about from pairs** of a key and a value, in their order. -/
inductive MadeOf : List (Key × Value) → Value → Prop
  /-- They are inserted into the empty dictionary. -/
  | insertions (pairs : List (Key × Value)) : MadeOf pairs (Value.empty.insertAll pairs).2
  /-- They stand in a text, which is read with some levels left and whatever follows it. -/
  | text {bound levels : Nat} {pairs : List (Key × Spelling)} {rest rest' : Bytes} {v : Value}
      (h : readValue bound levels ((Spelling.dictionary pairs).text ++ rest) = .ok (v, rest')) :
      MadeOf (pairs.map fun p => (p.1, p.2.value)) v

/-- Either way the value is the dictionary of the pairs. -/
theorem MadeOf.eq_ofList {pairs : List (Key × Value)} {v : Value} (h : MadeOf pairs v) :
    v = .dictionary (Dictionary.ofList pairs) := by
  cases h with
  | insertions pairs => rw [Value.empty, Value.insertAll_dictionary, Dictionary.ofList]
  | text h =>
    obtain ⟨x, -, htext, rfl⟩ := exists_of_readValue _ _ _ _ _ h
    obtain ⟨rfl, -⟩ := Spelling.text_append_inj htext
    rw [Spelling.value, Spelling.valuePairs_eq_map]

/-- A dictionary that is read is made of the pairs that stand in its text. -/
theorem exists_madeOf_of_readValue {bound levels : Nat} {s rest : Bytes} {d : Dictionary Value}
    (h : readValue bound levels s = .ok (.dictionary d, rest)) :
    ∃ pairs : List (Key × Spelling), s = (Spelling.dictionary pairs).text ++ rest ∧
      MadeOf (pairs.map fun p => (p.1, p.2.value)) (.dictionary d) := by
  obtain ⟨x, -, rfl, hvalue⟩ := exists_of_readValue _ _ _ _ _ h
  cases x with
  | dictionary pairs => exact ⟨pairs, rfl, .text h⟩
  | integer _ | byteString _ | list _ => exact Value.noConfusion hvalue

/-! ## 3. The last value of each key -/

/-- The order does not matter to an empty key, to one that begins another, or to bytes that are no
ASCII, and the first value of a repeated key is gone. -/
example :
    (Value.empty.insertAll [([0xff], .integer 1), ([], .integer 2), ([0x61, 0x00], .integer 3),
      ([0x61], .integer 4), ([0xff], .integer 5)]).2 =
    (Value.empty.insertAll [([0x61], .integer 4), ([0xff], .integer 5), ([0x61, 0x00], .integer 3),
      ([], .integer 2)]).2 := by
  decide

end Swarm.Bencode
