/-
# The dictionary of a run of pairs

`Dictionary.ofList` inserts pairs one after another.  What it amounts to does not depend on
the insertions: a key has the value of its last pair (`get?_ofList`), behind which it does not
come again (`lastValue?_eq_some_iff`).  A dictionary is therefore the dictionary of its own
listing (`ofList_toList`).
-/
import Mathlib.Data.List.Nodup
import Mathlib.Data.List.Perm.Subperm
import Swarm.Bencode.Dictionary

namespace Swarm.Bencode.Dictionary

variable {α : Type}

/-- The value in the last of the pairs with this key. -/
def lastValue? (k : Key) (pairs : List (Key × α)) : Option α :=
  ((pairs.filter fun e => e.1 = k).getLast?).map Prod.snd

@[simp] theorem lastValue?_nil (k : Key) : lastValue? k ([] : List (Key × α)) = none := rfl

/-- The first pair counts only where no later one has its key. -/
theorem lastValue?_cons (k : Key) (e : Key × α) (pairs : List (Key × α)) :
    lastValue? k (e :: pairs) =
      (lastValue? k pairs).or (if k = e.1 then some e.2 else none) := by
  unfold lastValue?
  by_cases h : e.1 = k
  · rw [List.filter_cons_of_pos (by simpa using h), List.getLast?_cons, if_pos h.symm]
    cases (pairs.filter fun e => e.1 = k).getLast? with
    | none => rfl
    | some last => rfl
  · rw [List.filter_cons_of_neg (by simpa using h), if_neg (fun hk => h hk.symm), Option.or_none]

theorem lastValue?_append (k : Key) : ∀ front back : List (Key × α),
    lastValue? k (front ++ back) = (lastValue? k back).or (lastValue? k front)
  | [], back => by simp
  | e :: front, back => by
    rw [List.cons_append, lastValue?_cons, lastValue?_append k front, lastValue?_cons,
      Option.or_assoc]

/-- What the values are made into does not matter to which of them counts. -/
theorem lastValue?_map {β : Type} (k : Key) (f : α → β) : ∀ pairs : List (Key × α),
    lastValue? k (pairs.map fun e => (e.1, f e.2)) = (lastValue? k pairs).map f
  | [] => rfl
  | e :: pairs => by
    rw [List.map_cons, lastValue?_cons, lastValue?_map k f pairs, lastValue?_cons]
    by_cases h : k = e.1 <;> cases lastValue? k pairs <;> simp [h]

theorem lastValue?_eq_none_iff {k : Key} : ∀ {pairs : List (Key × α)},
    lastValue? k pairs = none ↔ ∀ e ∈ pairs, e.1 ≠ k
  | [] => by simp
  | e :: pairs => by
    rw [lastValue?_cons, Option.or_eq_none_iff, lastValue?_eq_none_iff, List.forall_mem_cons,
      and_comm, ite_eq_right_iff]
    simp [eq_comm]

/-- **The value that counts stands in a pair behind which the key does not come again.** -/
theorem lastValue?_eq_some_iff {k : Key} {v : α} {pairs : List (Key × α)} :
    lastValue? k pairs = some v ↔
      ∃ front back, pairs = front ++ (k, v) :: back ∧ ∀ e ∈ back, e.1 ≠ k := by
  constructor
  · intro h
    induction pairs with
    | nil => exact absurd h (by simp)
    | cons e pairs ih =>
      rw [lastValue?_cons] at h
      cases hlater : lastValue? k pairs with
      | some w =>
        rw [hlater, Option.some_or, Option.some.injEq] at h
        obtain ⟨front, back, rfl, hback⟩ := ih (by rw [hlater, h])
        exact ⟨e :: front, back, rfl, hback⟩
      | none =>
        rw [hlater, Option.none_or] at h
        split at h
        · rename_i hk
          rw [Option.some.injEq] at h
          subst hk h
          exact ⟨[], pairs, rfl, lastValue?_eq_none_iff.mp hlater⟩
        · exact absurd h (by simp)
  · rintro ⟨front, back, rfl, hback⟩
    rw [lastValue?_append, lastValue?_cons, lastValue?_eq_none_iff.mpr hback, if_pos rfl]
    rfl

/-- Inserting pairs into a dictionary: what they do not mention stays as it is. -/
theorem get?_foldl_insert (k : Key) : ∀ (pairs : List (Key × α)) (d : Dictionary α),
    (pairs.foldl (fun d e => insert e.1 e.2 d) d).get? k = (lastValue? k pairs).or (d.get? k)
  | [], d => by simp
  | e :: pairs, d => by
    rw [List.foldl_cons, get?_foldl_insert k pairs, get?_insert, lastValue?_cons]
    by_cases h : k = e.1
    · simp only [if_pos h, Option.or_assoc, Option.some_or]
    · simp only [if_neg h, Option.or_none]

/-- **The last pair of a key counts.** -/
theorem get?_ofList (pairs : List (Key × α)) (k : Key) :
    (ofList pairs).get? k = lastValue? k pairs := by
  rw [ofList, get?_foldl_insert, Entries.get?_nil, Option.or_none]

/-- In a listing every key has one pair, which is its last. -/
theorem lastValue?_toList (k : Key) : ∀ {lo : Option Key} (d : Entries α lo),
    lastValue? k d.toList = d.get? k
  | _, .nil => rfl
  | _, .cons key _ value rest => by
    rw [Entries.toList_cons, lastValue?_cons, lastValue?_toList k rest, Entries.get?_cons]
    by_cases h : k = key
    · subst h
      rw [Entries.get?_eq_none_of_not_above rest (Key.lt_irrefl k)]
      rfl
    · simp only [if_neg h, Option.or_none]

/-- **A dictionary is the dictionary of its listing.** -/
theorem ofList_toList (d : Dictionary α) : ofList d.toList = d := by
  apply Entries.ext_get?
  intro k
  rw [get?_ofList, lastValue?_toList]

/-- Nothing is listed that was not inserted. -/
theorem mem_of_mem_toList_ofList {pairs : List (Key × α)} {e : Key × α}
    (h : e ∈ (ofList pairs).toList) : e ∈ pairs := by
  have hget := (Entries.get?_eq_some_iff (ofList pairs) (k := e.1) (v := e.2)).mpr h
  rw [get?_ofList] at hget
  obtain ⟨front, back, rfl, -⟩ := lastValue?_eq_some_iff.mp hget
  simp

/-- **The listing is a part of the pairs**: none of it is listed more often than inserted. -/
theorem toList_ofList_subperm (pairs : List (Key × α)) : (ofList pairs).toList.Subperm pairs := by
  refine List.subperm_of_subset ?_ fun e he => mem_of_mem_toList_ofList he
  have hkeys := (Entries.keys_pairwise (ofList pairs)).imp fun {a b} (hlt : a < b) (h : a = b) =>
    Key.lt_irrefl b (h ▸ hlt)
  exact List.Nodup.of_map Prod.fst hkeys

/-- Pairs with ascending keys above the bound are a listing. -/
theorem exists_toList_eq : ∀ {lo : Option Key} {pairs : List (Key × α)},
    (pairs.map Prod.fst).Pairwise (· < ·) → (∀ e ∈ pairs, Above lo e.1) →
    ∃ d : Entries α lo, d.toList = pairs
  | _, [], _, _ => ⟨.nil, rfl⟩
  | _, (key, v) :: pairs, hkeys, habove => by
    rw [List.map_cons, List.pairwise_cons] at hkeys
    have habove' : ∀ e ∈ pairs, Above (some key) e.1 :=
      fun e he => hkeys.1 e.1 (List.mem_map_of_mem he)
    obtain ⟨rest, hrest⟩ := exists_toList_eq hkeys.2 habove'
    exact ⟨.cons key (habove _ List.mem_cons_self) v rest, by rw [Entries.toList_cons, hrest]⟩

/-- **Pairs that ascend are listed as they are.** -/
theorem toList_ofList_of_pairwise {pairs : List (Key × α)}
    (h : (pairs.map Prod.fst).Pairwise (· < ·)) : (ofList pairs).toList = pairs := by
  have habove : ∀ e ∈ pairs, Above none e.1 := fun _ _ => trivial
  obtain ⟨d, rfl⟩ := exists_toList_eq h habove
  rw [ofList_toList]

end Swarm.Bencode.Dictionary
