/-
# What a field that was read holds

The readers of `Swarm.Bencode.Field` against the values they read: each of them succeeds for
exactly one shape of value, and its result says which.  So a document that is read field by
field can be taken apart without opening any reader:

* `bind_eq_ok_iff`, `mapError_eq_ok_iff`: a chain of checks succeeds if each of them does;
* `bind_eq_error_iff`, `FailsWith.bind`: it fails with the first of them that does not;
* `Field.text_eq_ok_iff`, `Field.count_eq_ok_iff` and the like: one check of one value;
* `Field.each_eq_ok_iff`: the same check of every item of a list;
* `Field.AgreeOn`: dictionaries that hold the same in the fields that are read.
-/
import Mathlib.Data.List.Forall2
import Swarm.Bencode.Field

namespace Swarm

open Bencode

/-! ## 1. Chains of checks -/

section Chains

variable {ε δ α β : Type}

theorem ok_bind (a : α) (f : α → Except ε β) : Except.ok a >>= f = f a := rfl

theorem bind_eq_ok_iff {x : Except ε α} {f : α → Except ε β} {b : β} :
    x >>= f = .ok b ↔ ∃ a, x = .ok a ∧ f a = .ok b := by
  cases x with
  | error e => exact ⟨nofun, nofun⟩
  | ok a =>
    constructor
    · intro h
      exact ⟨a, rfl, h⟩
    · rintro ⟨a', ha, h⟩
      rw [Except.ok.injEq] at ha
      exact ha ▸ h

theorem mapError_eq_ok_iff {x : Except ε α} {f : ε → δ} {a : α} :
    x.mapError f = .ok a ↔ x = .ok a := by
  cases x <;> simp [Except.mapError]

theorem bind_eq_error_iff {x : Except ε α} {f : α → Except ε β} {e : ε} :
    x >>= f = .error e ↔ x = .error e ∨ ∃ a, x = .ok a ∧ f a = .error e := by
  cases x with
  | error e' =>
    constructor
    · intro h
      exact .inl (congrArg Except.error (Except.error.inj h))
    · rintro (h | ⟨a, ha, -⟩)
      · exact congrArg Except.error (Except.error.inj h)
      · exact absurd ha nofun
  | ok a =>
    constructor
    · intro h
      exact .inr ⟨a, rfl, h⟩
    · rintro (h | ⟨a', ha, h⟩)
      · exact absurd h nofun
      · exact Except.ok.inj ha ▸ h

theorem mapError_eq_error_iff {x : Except ε α} {f : ε → δ} {e : δ} :
    x.mapError f = .error e ↔ ∃ e', x = .error e' ∧ f e' = e := by
  cases x <;> simp [Except.mapError]

theorem map_eq_ok_iff {x : Except ε α} {f : α → β} {b : β} :
    x.map f = .ok b ↔ ∃ a, x = .ok a ∧ f a = b := by
  cases x <;> simp [Except.map]

theorem pure_eq_ok_iff {a b : α} : (pure a : Except ε α) = .ok b ↔ a = b := by
  simp [pure, Except.pure]

/-- A check that refuses in one case and goes on in the other. -/
theorem refuse_eq_ok_iff {c : Prop} [Decidable c] {e : ε} {f : α → Except ε β}
    {x : Except ε β} {b : β} :
    (if c then (.error e : Except ε α) >>= f else x) = .ok b ↔ ¬ c ∧ x = .ok b := by
  by_cases h : c
  · rw [if_pos h]
    exact ⟨nofun, fun hb => absurd h hb.1⟩
  · rw [if_neg h]
    exact ⟨fun hb => ⟨h, hb⟩, fun hb => hb.2⟩

/-- Whatever failure there is, is one of these. -/
def FailsWith (P : ε → Prop) (x : Except ε α) : Prop := ∀ e, x = .error e → P e

theorem FailsWith.pure {P : ε → Prop} (a : α) : FailsWith P (Pure.pure a) := fun _ h =>
  absurd h nofun

/-- A chain fails as its first check does, or as what comes after the check succeeded. -/
theorem FailsWith.bind {P : ε → Prop} {x : Except ε α} {f : α → Except ε β}
    (h : FailsWith P x) (hf : ∀ a, x = .ok a → FailsWith P (f a)) : FailsWith P (x >>= f) := by
  intro e he
  rcases bind_eq_error_iff.mp he with hx | ⟨a, ha, hfa⟩
  · exact h e hx
  · exact hf a ha e hfa

end Chains

namespace Field

variable {name key : String} {v : Value}

/-! ## 2. One value -/

theorem requiredAs_eq_ok_iff {d : Dictionary Value} :
    requiredAs d key name = .ok v ↔ find? d key = some v := by
  unfold requiredAs
  cases find? d key <;> simp

theorem required_eq_ok_iff {d : Dictionary Value} :
    required d key = .ok v ↔ find? d key = some v :=
  requiredAs_eq_ok_iff

theorem dictionary_eq_ok_iff {d : Dictionary Value} :
    dictionary name v = .ok d ↔ v = .dictionary d := by
  cases v <;> simp [dictionary]

theorem list_eq_ok_iff {items : List Value} : list name v = .ok items ↔ v = .list items := by
  cases v <;> simp [list]

theorem integer_eq_ok_iff {n : Int64} : integer name v = .ok n ↔ v = .integer n := by
  cases v <;> simp [integer]

theorem bytes_eq_ok_iff {s : Bytes} : bytes name v = .ok s ↔ v = .byteString s := by
  cases v <;> simp [bytes]

theorem text_eq_ok_iff {t : String} : text name v = .ok t ↔ v = .text t := by
  unfold text
  rw [bind_eq_ok_iff, Value.text]
  constructor
  · rintro ⟨s, hs, ht⟩
    obtain rfl := bytes_eq_ok_iff.mp hs
    split at ht
    · rename_i t' hread
      rw [Except.ok.injEq] at ht
      rw [Text.text?_eq_some_iff.mp hread, ht]
    · exact absurd ht nofun
  · rintro rfl
    refine ⟨_, bytes_eq_ok_iff.mpr rfl, ?_⟩
    rw [Text.text?_utf8]

/-- A number is accepted as a count if it is not negative, and counts what it is. -/
theorem count_eq_ok_iff {c : UInt64} :
    count name v = .ok c ↔ ∃ n : Int64, v = .integer n ∧ n.toInt = c.toNat := by
  unfold count
  rw [bind_eq_ok_iff]
  constructor
  · rintro ⟨n, hn, hc⟩
    refine ⟨n, integer_eq_ok_iff.mp hn, ?_⟩
    split at hc
    · exact absurd hc nofun
    · rename_i hneg
      have hle := n.toInt_le
      have hmax := Int64.toInt_maxValue
      rw [Except.ok.injEq] at hc
      rw [← hc, UInt64.toNat_ofNat']
      omega
  · rintro ⟨n, rfl, hc⟩
    refine ⟨n, integer_eq_ok_iff.mpr rfl, ?_⟩
    rw [if_neg (by omega), hc, Int.toNat_natCast, UInt64.ofNat_toNat]

/-- A field that may be missing is read as nothing, or as what it holds. -/
theorem optional_eq_ok_iff {α : Type} {read : String → Value → Except FieldError α}
    {d : Dictionary Value} {result : Option α} :
    optional read d key = .ok result ↔
      (find? d key = none ∧ result = none) ∨
        ∃ v a, find? d key = some v ∧ read key v = .ok a ∧ result = some a := by
  unfold optional
  cases find? d key with
  | none => simp [eq_comm]
  | some v =>
    simp only [map_eq_ok_iff, reduceCtorEq, false_and, false_or, Option.some.injEq]
    constructor
    · rintro ⟨a, ha, rfl⟩
      exact ⟨v, a, rfl, ha, rfl⟩
    · rintro ⟨_, a, rfl, ha, rfl⟩
      exact ⟨a, ha, rfl⟩

/-! ## 3. The items of a list -/

/-- **Each item is read by itself**, if the place of an item does not matter to its reading. -/
theorem each_eq_ok_iff {α β ε : Type} {read : Nat → α → Except ε β} {R : α → β → Prop}
    (h : ∀ i x y, read i x = .ok y ↔ R x y) : ∀ {i : Nat} {xs : List α} {ys : List β},
    each read i xs = .ok ys ↔ List.Forall₂ R xs ys
  | _, [], ys => by
    rw [each, Except.ok.injEq, List.forall₂_nil_left_iff]
    exact eq_comm
  | i, x :: xs, ys => by
    rw [each, List.forall₂_cons_left_iff]
    constructor
    · intro hread
      split at hread
      · exact absurd hread nofun
      · rename_i y hy
        split at hread
        · exact absurd hread nofun
        · rename_i rest hrest
          rw [Except.ok.injEq] at hread
          exact ⟨y, rest, (h i x y).mp hy, (each_eq_ok_iff h).mp hrest, hread.symm⟩
    · rintro ⟨y, rest, hy, hrest, rfl⟩
      rw [(h i x y).mpr hy]
      simp only [(each_eq_ok_iff h (i := i + 1)).mpr hrest]

/-- Items that are determined by their results are those of the results. -/
theorem forall₂_eq_map_and_iff {α β : Type} {f : β → α} {p : β → Prop} {xs : List α}
    {ys : List β} :
    List.Forall₂ (fun x y => x = f y ∧ p y) xs ys ↔ xs = ys.map f ∧ ∀ y ∈ ys, p y := by
  constructor
  · intro h
    induction h with
    | nil => exact ⟨rfl, nofun⟩
    | cons hxy _ ih => exact ⟨congrArg₂ List.cons hxy.1 ih.1, List.forall_mem_cons.mpr ⟨hxy.2, ih.2⟩⟩
  · rintro ⟨rfl, h⟩
    rw [List.forall₂_map_left_iff, List.forall₂_same]
    exact fun y hy => ⟨rfl, h y hy⟩

theorem forall₂_eq_map_iff {α β : Type} {f : β → α} {xs : List α} {ys : List β} :
    List.Forall₂ (fun x y => x = f y) xs ys ↔ xs = ys.map f := by
  rw [← List.forall₂_eq_eq_eq, List.forall₂_map_right_iff]

/-! ## 4. Dictionaries that agree -/

/-- The dictionaries hold the same in each of these fields: the same value, or nothing. -/
def AgreeOn (keys : List String) (d d' : Dictionary Value) : Prop :=
  ∀ key ∈ keys, find? d key = find? d' key

instance (keys : List String) (d d' : Dictionary Value) : Decidable (AgreeOn keys d d') :=
  inferInstanceAs (Decidable (∀ key ∈ keys, find? d key = find? d' key))

theorem AgreeOn.refl (keys : List String) (d : Dictionary Value) : AgreeOn keys d d :=
  fun _ _ => rfl

section Agree

variable {d d' : Dictionary Value} (h : find? d key = find? d' key)

include h

theorem requiredAs_congr (name : String) : requiredAs d key name = requiredAs d' key name := by
  rw [requiredAs, h, requiredAs]

theorem required_congr : required d key = required d' key := requiredAs_congr h key

theorem optional_congr {α : Type} (read : String → Value → Except FieldError α) :
    optional read d key = optional read d' key := by
  rw [optional, h, optional]

theorem looseText?_congr : looseText? d key = looseText? d' key := by
  rw [looseText?, h, looseText?]

end Agree

end Field
end Swarm
