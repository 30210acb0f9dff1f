/-
# The writing of a value is one of its spellings

`Value.spelling` is the spelling in which the keys of every dictionary ascend, and each stands
once.  Its text is the writing of the value (`text_spelling`) and its value is the value
(`value_spelling`), so everything known about spellings holds of what is written.

How deep a value goes, and which byte strings stand in it, is said here without its writing:

* `Value.NodeAt`: at which depths there are nodes;
* `Value.Holds`: which byte strings and keys there are.

`height_spelling_le_iff` and `fits_spelling` carry the two over to the spelling.  The last
section shows that `Value.encodeAfter`, which fills a buffer, writes the same bytes.
-/
import Swarm.Proofs.Bencode.Spelling

namespace Swarm.Bencode

namespace Value

/-! ## 1. The nodes and the byte strings of a value -/

/-- A node of the value lies at this depth: the value itself at depth 0, the items of a list
and the values of a dictionary one deeper than the container. -/
inductive NodeAt : Value → Nat → Prop
  | root (v : Value) : NodeAt v 0
  | item {items : List Value} {x : Value} {depth : Nat} (hx : x ∈ items) (h : NodeAt x depth) :
      NodeAt (list items) (depth + 1)
  | entry {entries : Dictionary Value} {e : Key × Value} {depth : Nat} (he : e ∈ entries.toList)
      (h : NodeAt e.2 depth) : NodeAt (dictionary entries) (depth + 1)

/-- The byte string stands in the value, as itself or as a key. -/
inductive Holds : Value → Bytes → Prop
  | here (s : Bytes) : Holds (byteString s) s
  | item {items : List Value} {x : Value} {s : Bytes} (hx : x ∈ items) (h : Holds x s) :
      Holds (list items) s
  | key {entries : Dictionary Value} {e : Key × Value} (he : e ∈ entries.toList) :
      Holds (dictionary entries) e.1
  | entry {entries : Dictionary Value} {e : Key × Value} {s : Bytes} (he : e ∈ entries.toList)
      (h : Holds e.2 s) : Holds (dictionary entries) s

/-- Induction in which the hypothesis holds of every part of a value. -/
@[induction_eliminator]
theorem induct {P : Value → Prop} (integer : ∀ n, P (integer n))
    (byteString : ∀ s, P (byteString s))
    (list : ∀ items, (∀ x ∈ items, P x) → P (list items))
    (dictionary : ∀ entries : Dictionary Value, (∀ e ∈ entries.toList, P e.2) →
      P (dictionary entries)) : ∀ v, P v :=
  @Value.rec P (fun items => ∀ x ∈ items, P x) (fun _ entries => ∀ e ∈ entries.toList, P e.2)
    integer byteString list dictionary
    (by simp) (fun _ _ hx hxs => List.forall_mem_cons.mpr ⟨hx, hxs⟩)
    (by simp) (fun _ _ _ _ hv hrest => List.forall_mem_cons.mpr ⟨hv, hrest⟩)

/-! ## 2. The spelling that is written -/

mutual

/-- The spelling in which a value is written. -/
def spelling : Value → Spelling
  | integer n => .integer n
  | byteString s => .byteString s
  | list items => .list (spellingItems items)
  | dictionary entries => .dictionary (spellingEntries entries)

/-- The spellings of the items. -/
def spellingItems : List Value → List Spelling
  | [] => []
  | v :: vs => v.spelling :: spellingItems vs

/-- The keys in ascending order, with the spellings of their values. -/
def spellingEntries {lo : Option Key} : Entries Value lo → List (Key × Spelling)
  | .nil => []
  | .cons key _ value rest => (key, value.spelling) :: spellingEntries rest

end

theorem spellingItems_eq_map : ∀ items : List Value, spellingItems items = items.map spelling
  | [] => rfl
  | v :: vs => by simp [spellingItems, spellingItems_eq_map vs]

theorem spellingEntries_eq_map : ∀ {lo : Option Key} (d : Entries Value lo),
    spellingEntries d = d.toList.map fun e => (e.1, e.2.spelling)
  | _, .nil => rfl
  | _, .cons _ _ _ rest => by simp [spellingEntries, spellingEntries_eq_map rest]

mutual

/-- **Its text is what is written.** -/
theorem text_spelling : ∀ v : Value, v.spelling.text = v.encode
  | integer _ => rfl
  | byteString _ => rfl
  | list items => by rw [spelling, Spelling.text, textItems_spellingItems items, encode]
  | dictionary entries => by
    rw [spelling, Spelling.text, textPairs_spellingEntries entries, encode]

theorem textItems_spellingItems : ∀ items : List Value,
    Spelling.textItems (spellingItems items) = encodeItems items
  | [] => rfl
  | v :: vs => by
    rw [spellingItems, Spelling.textItems, text_spelling v, textItems_spellingItems vs,
      encodeItems]

theorem textPairs_spellingEntries {lo : Option Key} : ∀ d : Entries Value lo,
    Spelling.textPairs (spellingEntries d) = encodeEntries d
  | .nil => rfl
  | .cons key _ value rest => by
    rw [spellingEntries, Spelling.textPairs, text_spelling value, textPairs_spellingEntries rest,
      encodeEntries, List.append_assoc]

end

/-- **Its value is the value.** -/
theorem value_spelling (v : Value) : v.spelling.value = v := by
  induction v with
  | integer n => rfl
  | byteString s => rfl
  | list items ih =>
    have hitems : items.map (fun x => x.spelling.value) = items := by
      rw [List.map_congr_left ih, List.map_id']
    rw [spelling, Spelling.value, Spelling.valueItems_eq_map, spellingItems_eq_map, List.map_map]
    exact congrArg list hitems
  | dictionary entries ih =>
    have hentries : entries.toList.map (fun e => (e.1, e.2.spelling.value)) = entries.toList := by
      rw [List.map_congr_left (g := id) fun e he => by rw [ih e he]; rfl, List.map_id]
    rw [spelling, Spelling.value, Spelling.valuePairs_eq_map, spellingEntries_eq_map, List.map_map]
    refine congrArg dictionary ?_
    calc
      Dictionary.ofList (entries.toList.map fun e => (e.1, e.2.spelling.value))
        = Dictionary.ofList entries.toList := by rw [hentries]
      _ = entries := Dictionary.ofList_toList entries

/-! ## 3. Its depth and its byte strings -/

theorem NodeAt.le_height {v : Value} {depth : Nat} (h : NodeAt v depth) :
    depth ≤ v.spelling.height := by
  induction h with
  | root v => exact Nat.zero_le _
  | @item items x depth hx h ih =>
    rw [spelling, Spelling.height, spellingItems_eq_map]
    have hlt := (Spelling.heightItems_le_iff (items.map spelling)).mp (Nat.le_refl _)
      x.spelling (List.mem_map_of_mem hx)
    omega
  | @entry entries e depth he h ih =>
    rw [spelling, Spelling.height, spellingEntries_eq_map]
    have hlt := (Spelling.heightPairs_le_iff (entries.toList.map fun e => (e.1, e.2.spelling))).mp
      (Nat.le_refl _) (e.1, e.2.spelling) (List.mem_map_of_mem he)
    simp only at hlt
    omega

theorem height_spelling_le {v : Value} : ∀ {n : Nat}, (∀ depth, v.NodeAt depth → depth ≤ n) →
    v.spelling.height ≤ n := by
  induction v with
  | integer i => exact fun _ => Nat.zero_le _
  | byteString s => exact fun _ => Nat.zero_le _
  | list items ih =>
    intro n h
    rw [spelling, Spelling.height, spellingItems_eq_map, Spelling.heightItems_le_iff,
      List.forall_mem_map]
    intro x hx
    -- an item lies at depth 1, so there is a level to go down
    have hn := h 1 (.item hx (.root x))
    obtain ⟨m, rfl⟩ := Nat.exists_eq_succ_of_ne_zero (Nat.ne_zero_of_lt hn)
    exact Nat.lt_succ_of_le
      (ih x hx fun depth hd => Nat.le_of_succ_le_succ (h (depth + 1) (.item hx hd)))
  | dictionary entries ih =>
    intro n h
    rw [spelling, Spelling.height, spellingEntries_eq_map, Spelling.heightPairs_le_iff,
      List.forall_mem_map]
    intro e he
    have hn := h 1 (.entry he (.root e.2))
    obtain ⟨m, rfl⟩ := Nat.exists_eq_succ_of_ne_zero (Nat.ne_zero_of_lt hn)
    exact Nat.lt_succ_of_le
      (ih e he fun depth hd => Nat.le_of_succ_le_succ (h (depth + 1) (.entry he hd)))

/-- **The height is the depth of the deepest node.** -/
theorem height_spelling_le_iff {v : Value} {n : Nat} :
    v.spelling.height ≤ n ↔ ∀ depth, v.NodeAt depth → depth ≤ n :=
  ⟨fun h _ hd => Nat.le_trans hd.le_height h, height_spelling_le⟩

/-- A value whose byte strings and keys have lengths of 64 bits is written with such lengths. -/
theorem fits_spelling {v : Value} : (∀ s, v.Holds s → s.length < UInt64.size) →
    v.spelling.Fits := by
  induction v with
  | integer n => exact fun _ => .integer n
  | byteString s => exact fun h => .byteString (h s (.here s))
  | list items ih =>
    intro h
    rw [spelling, spellingItems_eq_map]
    refine .list ?_
    rw [List.forall_mem_map]
    exact fun x hx => ih x hx fun s hs => h s (.item hx hs)
  | dictionary entries ih =>
    intro h
    rw [spelling, spellingEntries_eq_map]
    refine .dictionary ?_ ?_
    · rw [List.forall_mem_map]
      exact fun e he => h e.1 (.key he)
    · rw [List.forall_mem_map]
      exact fun e he => ih e he fun s hs => h s (.entry he hs)

end Value

/-! ## 4. Writing into a buffer -/

theorem toList_writeBytes (buffer : Array UInt8) (s : Bytes) :
    (writeBytes buffer s).toList = buffer.toList ++ encodeBytes s := by
  simp [writeBytes, encodeBytes]

namespace Value

mutual

/-- A value is put behind what the buffer holds, and nothing of that changes. -/
theorem toList_write (buffer : Array UInt8) : ∀ v : Value,
    (v.write buffer).toList = buffer.toList ++ v.encode
  | integer n => by simp [write, encode]
  | byteString s => by rw [write, encode, toList_writeBytes]
  | list items => by
    rw [write, encode, Array.toList_push, toList_writeItems _ items]
    simp
  | dictionary entries => by
    rw [write, encode, Array.toList_push, toList_writeEntries _ entries]
    simp

theorem toList_writeItems (buffer : Array UInt8) : ∀ items : List Value,
    (writeItems buffer items).toList = buffer.toList ++ encodeItems items
  | [] => by simp [writeItems, encodeItems]
  | v :: vs => by
    rw [writeItems, toList_writeItems _ vs, toList_write buffer v, encodeItems, List.append_assoc]

theorem toList_writeEntries (buffer : Array UInt8) {lo : Option Key} : ∀ d : Entries Value lo,
    (writeEntries buffer d).toList = buffer.toList ++ encodeEntries d
  | .nil => by simp [writeEntries, encodeEntries]
  | .cons key _ value rest => by
    rw [writeEntries, toList_writeEntries _ rest, toList_write _ value, toList_writeBytes,
      encodeEntries, List.append_assoc, List.append_assoc]

end

/-- **What is put behind other bytes is the writing.** -/
theorem encodeAfter_eq (front : Bytes) (v : Value) : v.encodeAfter front = front ++ v.encode :=
  toList_write front.toArray v

end Value
end Swarm.Bencode
