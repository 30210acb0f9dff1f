/-
# Spellings: what a text of the notation says, node by node

A value has one writing, but readers take more texts than that: the keys of a dictionary may
come in any order and repeatedly.  A `Spelling` is such a text as a tree: the items of a list,
and the pairs of a dictionary in the order in which they stand.  It has

* a `text`, its bytes;
* a `value`, in which the last pair of each key counts;
* a `height`, how deep its deepest node lies below it.

Statements about readers are statements about spellings, and what is written is the one
spelling whose keys ascend: `Value.spelling`, with `text_spelling`, `value_spelling` and
`height_spelling`.
-/
import Swarm.Bencode.Encoding
import Swarm.Proofs.Bencode.Dictionary

namespace Swarm.Bencode

/-! ## 1. Spellings -/

/-- A text of the notation as a tree. -/
inductive Spelling
  | integer (n : Int64)
  | byteString (s : Bytes)
  | list (items : List Spelling)
  | dictionary (pairs : List (Key × Spelling))

namespace Spelling

mutual

/-- The bytes of a spelling. -/
def text : Spelling → Bytes
  | integer n => Mark.integer :: (Text.signedDecimal n.toInt ++ [Mark.close])
  | byteString s => encodeBytes s
  | list items => Mark.list :: (textItems items ++ [Mark.close])
  | dictionary pairs => Mark.dictionary :: (textPairs pairs ++ [Mark.close])

/-- The bytes of the items, one after another. -/
def textItems : List Spelling → Bytes
  | [] => []
  | x :: xs => x.text ++ textItems xs

/-- The bytes of the keys and values, one after another. -/
def textPairs : List (Key × Spelling) → Bytes
  | [] => []
  | (key, x) :: pairs => encodeBytes key ++ x.text ++ textPairs pairs

end

mutual

/-- The value that is spelled. -/
def value : Spelling → Value
  | integer n => .integer n
  | byteString s => .byteString s
  | list items => .list (valueItems items)
  | dictionary pairs => .dictionary (Dictionary.ofList (valuePairs pairs))

/-- The values of the items. -/
def valueItems : List Spelling → List Value
  | [] => []
  | x :: xs => x.value :: valueItems xs

/-- The keys with their values. -/
def valuePairs : List (Key × Spelling) → List (Key × Value)
  | [] => []
  | (key, x) :: pairs => (key, x.value) :: valuePairs pairs

end

mutual

/-- How deep the deepest node lies below the outermost one.  Keys are no nodes. -/
def height : Spelling → Nat
  | integer _ => 0
  | byteString _ => 0
  | list items => heightItems items
  | dictionary pairs => heightPairs pairs

/-- The same for nodes that lie one level down. -/
def heightItems : List Spelling → Nat
  | [] => 0
  | x :: xs => max (x.height + 1) (heightItems xs)

/-- The same for values that lie one level down. -/
def heightPairs : List (Key × Spelling) → Nat
  | [] => 0
  | (_, x) :: pairs => max (x.height + 1) (heightPairs pairs)

end

/-- Every byte string and every key has a length of 64 bits. -/
inductive Fits : Spelling → Prop
  | integer (n : Int64) : Fits (integer n)
  | byteString {s : Bytes} (h : s.length < UInt64.size) : Fits (byteString s)
  | list {items : List Spelling} (h : ∀ x ∈ items, Fits x) : Fits (list items)
  | dictionary {pairs : List (Key × Spelling)} (hk : ∀ p ∈ pairs, p.1.length < UInt64.size)
      (h : ∀ p ∈ pairs, Fits p.2) : Fits (dictionary pairs)

/-! ## 2. Induction and the parts of a node -/

/-- Induction in which the hypothesis holds of every part of a node. -/
@[induction_eliminator]
theorem induct {P : Spelling → Prop} (integer : ∀ n, P (integer n))
    (byteString : ∀ s, P (byteString s))
    (list : ∀ items, (∀ x ∈ items, P x) → P (list items))
    (dictionary : ∀ pairs, (∀ p ∈ pairs, P p.2) → P (dictionary pairs)) : ∀ x, P x :=
  @Spelling.rec P (fun items => ∀ x ∈ items, P x) (fun pairs => ∀ p ∈ pairs, P p.2)
    (fun p => P p.2) integer byteString list dictionary
    (by simp) (fun _ _ hx hxs => List.forall_mem_cons.mpr ⟨hx, hxs⟩)
    (by simp) (fun _ _ hp hps => List.forall_mem_cons.mpr ⟨hp, hps⟩)
    (fun _ _ h => h)

theorem textItems_eq_flatMap : ∀ items : List Spelling, textItems items = items.flatMap text
  | [] => rfl
  | x :: xs => by simp [textItems, textItems_eq_flatMap xs]

/-- The bytes of a key and its value. -/
def textPair (p : Key × Spelling) : Bytes := encodeBytes p.1 ++ p.2.text

theorem textPairs_eq_flatMap : ∀ pairs : List (Key × Spelling),
    textPairs pairs = pairs.flatMap textPair
  | [] => rfl
  | (key, x) :: pairs => by simp [textPairs, textPair, textPairs_eq_flatMap pairs]

theorem valueItems_eq_map : ∀ items : List Spelling, valueItems items = items.map value
  | [] => rfl
  | x :: xs => by simp [valueItems, valueItems_eq_map xs]

theorem valuePairs_eq_map : ∀ pairs : List (Key × Spelling),
    valuePairs pairs = pairs.map fun p => (p.1, p.2.value)
  | [] => rfl
  | (key, x) :: pairs => by simp [valuePairs, valuePairs_eq_map pairs]

theorem heightItems_le_iff {n : Nat} : ∀ items : List Spelling,
    heightItems items ≤ n ↔ ∀ x ∈ items, x.height < n
  | [] => by simp [heightItems]
  | x :: xs => by
    rw [heightItems, Nat.max_le, heightItems_le_iff xs, List.forall_mem_cons]
    exact Iff.rfl

theorem lt_heightItems_iff {n : Nat} (items : List Spelling) :
    n < heightItems items ↔ ∃ x ∈ items, n ≤ x.height := by
  rw [← Nat.not_le, heightItems_le_iff]
  simp

theorem heightPairs_le_iff {n : Nat} : ∀ pairs : List (Key × Spelling),
    heightPairs pairs ≤ n ↔ ∀ p ∈ pairs, p.2.height < n
  | [] => by simp [heightPairs]
  | (key, x) :: pairs => by
    rw [heightPairs, Nat.max_le, heightPairs_le_iff pairs, List.forall_mem_cons]
    exact Iff.rfl

theorem lt_heightPairs_iff {n : Nat} (pairs : List (Key × Spelling)) :
    n < heightPairs pairs ↔ ∃ p ∈ pairs, n ≤ p.2.height := by
  rw [← Nat.not_le, heightPairs_le_iff]
  simp

end Spelling
end Swarm.Bencode
