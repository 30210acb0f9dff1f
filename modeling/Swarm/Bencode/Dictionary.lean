/-
# Dictionaries with ascending keys

A dictionary maps byte strings to values, each key at most once.  Its entries are kept in
ascending order of their keys, byte by byte, and the order is part of the type: `Entries α lo`
holds entries whose keys all lie above the bound `lo`, and `Dictionary α` is the case without a
bound.  Two dictionaries with the same entries are therefore the same value, in whatever order
the entries came in.

The view of a dictionary is `toList`, and `get?` looks one key up.  The main statements are

* `keys_pairwise`: the listed keys ascend strictly;
* `get?_insert`: an insertion changes the value of its own key and of no other;
* `ext_get?`: two dictionaries that agree on every key are equal.
-/
import Swarm.Bytes

namespace Swarm.Bencode

/-! ## 1. The order of keys -/

/-- A key of a dictionary. -/
abbrev Key := Bytes

theorem Key.lt_irrefl (a : Key) : ¬ a < a := List.lt_irrefl a

theorem Key.lt_trans {a b c : Key} (hab : a < b) (hbc : b < c) : a < c :=
  List.lt_trans hab hbc

theorem Key.lt_of_not_lt {a b : Key} (h : ¬ a < b) (hne : a ≠ b) : b < a := by
  have hle : b ≤ a := List.not_lt.mp h
  rcases List.le_iff_lt_or_eq.mp hle with h | h
  · exact h
  · exact absurd h.symm hne

/-- The key lies above the bound; without a bound every key does. -/
def Above : Option Key → Key → Prop
  | none, _ => True
  | some lo, k => lo < k

instance : (lo : Option Key) → (k : Key) → Decidable (Above lo k)
  | none, _ => isTrue trivial
  | some lo, k => inferInstanceAs (Decidable (lo < k))

theorem Above.of_lt {a b : Key} (h : a < b) : Above (some a) b := h

theorem Above.trans {lo : Option Key} {a b : Key} (h : Above lo a) (hab : a < b) :
    Above lo b :=
  match lo, h with
  | none, _ => trivial
  | some _, h => Key.lt_trans h hab

/-! ## 2. Entries above a bound -/

/-- Entries whose keys ascend and lie above the bound. -/
inductive Entries (α : Type) : Option Key → Type
  | nil {lo : Option Key} : Entries α lo
  | cons {lo : Option Key} (key : Key) (above : Above lo key) (value : α)
      (rest : Entries α (some key)) : Entries α lo

/-- A dictionary: entries in ascending order, with no bound. -/
abbrev Dictionary (α : Type) := Entries α none

namespace Entries

variable {α β : Type}

/-- The entries in ascending order. -/
def toList {lo : Option Key} : Entries α lo → List (Key × α)
  | nil => []
  | cons key _ value rest => (key, value) :: rest.toList

/-- The keys in ascending order. -/
def keys {lo : Option Key} (d : Entries α lo) : List Key := d.toList.map Prod.fst

/-- The values in the order of their keys. -/
def values {lo : Option Key} (d : Entries α lo) : List α := d.toList.map Prod.snd

/-- How many entries there are. -/
def size {lo : Option Key} (d : Entries α lo) : Nat := d.toList.length

/-- The value of a key. -/
def get? {lo : Option Key} (k : Key) : Entries α lo → Option α
  | nil => none
  | cons key _ value rest => if k = key then some value else rest.get? k

/-- Gives a key a value, whether or not it had one. -/
def insert {lo : Option Key} (k : Key) (h : Above lo k) (v : α) : Entries α lo → Entries α lo
  | nil => cons k h v nil
  | cons key above value rest =>
    if hlt : k < key then cons k h v (cons key (Above.of_lt hlt) value rest)
    else if heq : k = key then cons key above v rest
    else cons key above value (insert k (Above.of_lt (Key.lt_of_not_lt hlt heq)) v rest)

instance : EmptyCollection (Dictionary α) := ⟨nil⟩

/-! ## 3. The view -/

@[simp] theorem toList_nil {lo : Option Key} : (nil : Entries α lo).toList = [] := rfl

@[simp] theorem toList_cons {lo : Option Key} (key : Key) (h : Above lo key) (v : α)
    (rest : Entries α (some key)) : (cons key h v rest).toList = (key, v) :: rest.toList := rfl

/-- Every key lies above the bound. -/
theorem above_of_mem : ∀ {lo : Option Key} (d : Entries α lo) {e : Key × α},
    e ∈ d.toList → Above lo e.1
  | _, cons key above value rest, e, h => by
    rcases List.mem_cons.mp h with rfl | h
    · exact above
    · exact above.trans (above_of_mem rest h)

/-- **The keys ascend strictly**, so no key is listed twice. -/
theorem keys_pairwise : ∀ {lo : Option Key} (d : Entries α lo), d.keys.Pairwise (· < ·)
  | _, nil => List.Pairwise.nil
  | _, cons key above value rest => by
    refine List.Pairwise.cons ?_ (keys_pairwise rest)
    intro k hk
    obtain ⟨e, he, rfl⟩ := List.mem_map.mp hk
    exact above_of_mem rest he

/-- The listing determines the entries. -/
theorem toList_injective : ∀ {lo : Option Key} {d e : Entries α lo},
    d.toList = e.toList → d = e
  | _, nil, nil, _ => rfl
  | _, nil, cons .., h => by simp at h
  | _, cons .., nil, h => by simp at h
  | _, cons k _ v r, cons k' _ v' r', h => by
    simp only [toList_cons, List.cons.injEq, Prod.mk.injEq] at h
    obtain ⟨⟨rfl, rfl⟩, h⟩ := h
    rw [toList_injective h]

instance [DecidableEq α] {lo : Option Key} : DecidableEq (Entries α lo) := fun d e =>
  decidable_of_iff (d.toList = e.toList) ⟨toList_injective, fun h => h ▸ rfl⟩

/-! ## 4. Looking up -/

@[simp] theorem get?_nil {lo : Option Key} (k : Key) : (nil : Entries α lo).get? k = none := rfl

theorem get?_cons {lo : Option Key} (k key : Key) (h : Above lo key) (v : α)
    (rest : Entries α (some key)) :
    (cons key h v rest).get? k = if k = key then some v else rest.get? k := rfl

/-- What is listed is found. -/
theorem get?_eq_some_iff : ∀ {lo : Option Key} (d : Entries α lo) {k : Key} {v : α},
    d.get? k = some v ↔ (k, v) ∈ d.toList
  | _, nil, k, v => by simp
  | _, cons key above value rest, k, v => by
    rw [get?_cons, toList_cons, List.mem_cons, Prod.mk.injEq]
    by_cases h : k = key
    · subst h
      simp only [↓reduceIte, Option.some.injEq, true_and]
      constructor
      · rintro rfl
        exact Or.inl rfl
      · rintro (rfl | h)
        · rfl
        · exact absurd (above_of_mem rest h) (Key.lt_irrefl k)
    · simp [h, get?_eq_some_iff rest]

/-- What lies below the bound is not found. -/
theorem get?_eq_none_of_not_above {lo : Option Key} (d : Entries α lo) {k : Key}
    (h : ¬ Above lo k) : d.get? k = none := by
  cases hg : d.get? k with
  | none => rfl
  | some v => exact absurd (above_of_mem d ((get?_eq_some_iff d).mp hg)) h

/-- **Two dictionaries that agree on every key are equal.** -/
theorem ext_get? : ∀ {lo : Option Key} {d e : Entries α lo},
    (∀ k, d.get? k = e.get? k) → d = e
  | _, nil, nil, _ => rfl
  | _, nil, cons k _ v r, h => by simpa [get?_cons] using h k
  | _, cons k _ v r, nil, h => by simpa [get?_cons] using h k
  | _, cons k hk v r, cons k' hk' v' r', h => by
    have hkk : k = k' := by
      by_cases hlt : k < k'
      · have hne : k ≠ k' := fun e => Key.lt_irrefl k (e ▸ hlt)
        have hn : r'.get? k = none :=
          get?_eq_none_of_not_above r' (fun h' => Key.lt_irrefl k (Key.lt_trans hlt h'))
        have := h k
        simp [get?_cons, hne, hn] at this
      · by_cases heq : k = k'
        · exact heq
        · have hgt := Key.lt_of_not_lt hlt heq
          have hn : r.get? k' = none :=
            get?_eq_none_of_not_above r (fun h' => Key.lt_irrefl k' (Key.lt_trans hgt h'))
          have := h k'
          simp [get?_cons, Ne.symm heq, hn] at this
    subst hkk
    have hv : v = v' := by simpa [get?_cons] using h k
    subst hv
    have hr : r = r' := ext_get? fun j => by
      by_cases hj : j = k
      · subst hj
        rw [get?_eq_none_of_not_above r (Key.lt_irrefl j),
          get?_eq_none_of_not_above r' (Key.lt_irrefl j)]
      · simpa [get?_cons, hj] using h j
    rw [hr]

/-- **An insertion changes its own key only.** -/
theorem get?_insert : ∀ {lo : Option Key} (d : Entries α lo) (k : Key) (h : Above lo k) (v : α)
    (j : Key), (d.insert k h v).get? j = if j = k then some v else d.get? j
  | _, nil, k, h, v, j => by simp [insert, get?_cons]
  | _, cons key above value rest, k, h, v, j => by
    simp only [insert]
    split
    · rw [get?_cons, get?_cons, get?_cons]
    · split
      · rename_i heq
        subst heq
        rw [get?_cons, get?_cons]
        by_cases hj : j = k <;> simp [hj]
      · rename_i hne
        rw [get?_cons, get?_cons, get?_insert rest]
        by_cases hj : j = key
        · subst hj
          simp [Ne.symm hne]
        · simp [hj]

end Entries

namespace Dictionary

variable {α : Type}

/-- Gives a key a value. -/
def insert (k : Key) (v : α) (d : Dictionary α) : Dictionary α := Entries.insert k trivial v d

/-- Inserts the pairs one after another: of several pairs with one key the last one counts. -/
def ofList (pairs : List (Key × α)) : Dictionary α :=
  pairs.foldl (fun d e => insert e.1 e.2 d) Entries.nil

theorem get?_insert (d : Dictionary α) (k : Key) (v : α) (j : Key) :
    (insert k v d).get? j = if j = k then some v else d.get? j :=
  Entries.get?_insert d k trivial v j

end Dictionary
end Swarm.Bencode
