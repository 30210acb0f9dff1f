/-
# Decimal numerals: every number has exactly one

`Text.decimal` writes a number, `Text.ofDigits` reads a run of digits, and `Text.isPlain` asks
for a run without a leading zero.  Among the plain runs of digits the two are inverse:

* `ofDigits_decimal`: what was written is read back;
* `decimal_ofDigits`: a plain run of digits is what its own number is written as.

So a format that insists on plain runs has one spelling for each number, and the lengths in
front of byte strings and the numbers between `i` and `e` leave a writer no choice.
`ofDigits_eq_positional` says that the number of a run is the positional one.
-/
import Mathlib.Data.Nat.Digits.Defs
import Swarm.Text.Numeral

namespace Swarm.Text

/-! ## 1. Digits -/

/-- The digit that counts `d`. -/
def digitOf (d : Nat) : UInt8 := ascii (Nat.digitChar d)

theorem isDigit_iff {b : UInt8} : isDigit b = true ↔ 48 ≤ b.toNat ∧ b.toNat ≤ 57 := by
  simp [isDigit, UInt8.le_iff_toNat_le]

theorem digitValue_lt_ten {b : UInt8} (h : isDigit b = true) : digitValue b < 10 := by
  have := isDigit_iff.mp h
  unfold digitValue
  omega

theorem toNat_digitOf {d : Nat} (h : d < 10) : (digitOf d).toNat = 48 + d := by
  unfold digitOf ascii
  rw [Nat.toNat_digitChar_of_lt_ten h, UInt8.toNat_ofNat']
  omega

theorem isDigit_digitOf {d : Nat} (h : d < 10) : isDigit (digitOf d) = true := by
  rw [isDigit_iff, toNat_digitOf h]
  omega

theorem digitValue_digitOf {d : Nat} (h : d < 10) : digitValue (digitOf d) = d := by
  unfold digitValue
  rw [toNat_digitOf h]
  omega

theorem digitOf_digitValue {b : UInt8} (h : isDigit b = true) : digitOf (digitValue b) = b := by
  have hb := isDigit_iff.mp h
  apply UInt8.toNat_inj.mp
  rw [toNat_digitOf (digitValue_lt_ten h)]
  unfold digitValue
  omega

/-! ## 2. The writing of a number -/

theorem decimal_of_lt_ten {d : Nat} (h : d < 10) : decimal d = [digitOf d] := by
  unfold decimal
  rw [Nat.toDigits_of_lt_base h]
  rfl

theorem decimal_ten_mul_add {n d : Nat} (hn : 0 < n) (hd : d < 10) :
    decimal (10 * n + d) = decimal n ++ [digitOf d] := by
  unfold decimal
  rw [← Nat.toDigits_append_toDigits (by decide) hn hd, Nat.toDigits_of_lt_base hd,
    List.map_append]
  rfl

theorem decimal_ne_nil (n : Nat) : decimal n ≠ [] := by
  simp [decimal]

theorem isDigit_of_mem_decimal (n : Nat) : ∀ b ∈ decimal n, isDigit b = true := by
  induction n using Nat.base_induction 10 (by decide) with
  | single d hd =>
    intro b hb
    rw [decimal_of_lt_ten hd] at hb
    rw [List.mem_singleton.mp hb]
    exact isDigit_digitOf hd
  | digit n d hd hn ih =>
    intro b hb
    rw [decimal_ten_mul_add hn hd] at hb
    rcases List.mem_append.mp hb with h | h
    · exact ih b h
    · rw [List.mem_singleton.mp h]
      exact isDigit_digitOf hd

/-- The first digit is zero only if the number is. -/
theorem head?_decimal (n : Nat) : (decimal n).head? = some 48 → n = 0 := by
  induction n using Nat.base_induction 10 (by decide) with
  | single d hd =>
    intro h
    rw [decimal_of_lt_ten hd, List.head?_singleton, Option.some.injEq] at h
    have := toNat_digitOf hd
    rw [h] at this
    simpa using this
  | digit n d hd hn ih =>
    intro h
    rw [decimal_ten_mul_add hn hd] at h
    obtain ⟨b, rest, hb⟩ := List.exists_cons_of_ne_nil (decimal_ne_nil n)
    have h0 : n = 0 := by
      apply ih
      rw [hb] at h ⊢
      exact h
    omega

/-! ## 3. Plain runs -/

/-- A plain run is not empty, and begins with a zero only if it is the zero. -/
theorem isPlain_iff {run : Bytes} :
    isPlain run = true ↔ run ≠ [] ∧ (run.head? = some 48 → run = [48]) := by
  match run with
  | [] => simp [isPlain]
  | [b] => simp [isPlain]
  | b :: c :: rest => simp [isPlain]

theorem isPlain_decimal (n : Nat) : isPlain (decimal n) = true := by
  rw [isPlain_iff]
  refine ⟨decimal_ne_nil n, ?_⟩
  intro h
  rw [head?_decimal n h]
  rfl

/-! ## 4. Writing and reading are inverse -/

theorem ofDigits_append_singleton (run : Bytes) (b : UInt8) :
    ofDigits (run ++ [b]) = 10 * ofDigits run + digitValue b := by
  simp [ofDigits]

/-- **What was written is read back.** -/
theorem ofDigits_decimal (n : Nat) : ofDigits (decimal n) = n := by
  induction n using Nat.base_induction 10 (by decide) with
  | single d hd =>
    rw [decimal_of_lt_ten hd]
    simp [ofDigits, digitValue_digitOf hd]
  | digit n d hd hn ih =>
    rw [decimal_ten_mul_add hn hd, ofDigits_append_singleton, ih, digitValue_digitOf hd]

theorem decimal_injective {m n : Nat} (h : decimal m = decimal n) : m = n := by
  rw [← ofDigits_decimal m, h, ofDigits_decimal]

/-- More digits behind the writing of a number other than zero. -/
theorem decimal_append_run : ∀ (run : Bytes) {n : Nat}, 0 < n → (∀ b ∈ run, isDigit b = true) →
    decimal n ++ run = decimal (run.foldl (fun n b => 10 * n + digitValue b) n)
  | [], n, _, _ => by simp
  | b :: run, n, hn, hd => by
    have hb : isDigit b = true := hd b List.mem_cons_self
    have hrun : ∀ c ∈ run, isDigit c = true := fun c hc => hd c (List.mem_cons_of_mem b hc)
    have hstep : decimal n ++ [b] = decimal (10 * n + digitValue b) := by
      rw [decimal_ten_mul_add hn (digitValue_lt_ten hb), digitOf_digitValue hb]
    calc
      decimal n ++ b :: run = (decimal n ++ [b]) ++ run := by simp
      _ = decimal (10 * n + digitValue b) ++ run := by rw [hstep]
      _ = decimal ((b :: run).foldl (fun n b => 10 * n + digitValue b) n) :=
        decimal_append_run run (by omega) hrun

/-- **A plain run of digits is the writing of its number.** -/
theorem decimal_ofDigits {run : Bytes} (hd : ∀ b ∈ run, isDigit b = true)
    (hp : isPlain run = true) : decimal (ofDigits run) = run := by
  obtain ⟨hne, hz⟩ := isPlain_iff.mp hp
  cases run with
  | nil => exact absurd rfl hne
  | cons b rest =>
    have hb : isDigit b = true := hd b List.mem_cons_self
    have hfirst : decimal (digitValue b) = [b] := by
      rw [decimal_of_lt_ten (digitValue_lt_ten hb), digitOf_digitValue hb]
    by_cases h0 : b = 48
    · -- a leading zero stands alone
      have hrest : b :: rest = [48] := hz (by rw [h0]; rfl)
      rw [hrest]
      rfl
    · have hpos : 0 < digitValue b := by
        have h1 := isDigit_iff.mp hb
        have h2 : b.toNat ≠ 48 := fun h => h0 (UInt8.toNat_inj.mp h)
        unfold digitValue
        omega
      have hrun := decimal_append_run rest hpos (fun c hc => hd c (List.mem_cons_of_mem b hc))
      rw [hfirst] at hrun
      have hsum : ofDigits (b :: rest)
          = rest.foldl (fun n b => 10 * n + digitValue b) (digitValue b) := by
        simp [ofDigits]
      rw [hsum, ← hrun]
      rfl

/-- The number of a run is the positional one: the last digit counts ones, the one before it
tens, and so on. -/
theorem ofDigits_eq_positional (run : Bytes) :
    ofDigits run = Nat.ofDigits 10 (run.map digitValue).reverse := by
  rw [Nat.ofDigits_eq_foldr, List.foldr_reverse, List.foldl_map]
  simp only [ofDigits, Nat.cast_id, Nat.add_comm]

end Swarm.Text
