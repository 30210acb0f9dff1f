/-
# Counts of 64 bits

Bytes, offsets and totals are counted in 64 bits.  A sum that does not fit is either refused
(`add?`) or cut off at the largest count (`addSat`, `mulSat`); a difference below zero is cut
off at zero (`subSat`).  The lemmas say so in the natural numbers.
-/

namespace Swarm

/-- A count of bytes, or of anything else that is counted in 64 bits. -/
abbrev Count := UInt64

namespace Count

/-- The largest count: 64 ones. -/
def largest : Nat := 18446744073709551615

/-- The count of a natural number, cut off at the largest one. -/
def ofNatSat (n : Nat) : Count := UInt64.ofNat (min n largest)

/-- The sum, cut off at the largest count. -/
def addSat (x y : Count) : Count := ofNatSat (x.toNat + y.toNat)

/-- The product, cut off at the largest count. -/
def mulSat (x y : Count) : Count := ofNatSat (x.toNat * y.toNat)

/-- The difference, cut off at zero. -/
def subSat (x y : Count) : Count := UInt64.ofNat (x.toNat - y.toNat)

/-- The sum, if it is a count. -/
def add? (x y : Count) : Option Count :=
  if x.toNat + y.toNat ≤ largest then some (x + y) else none

theorem toNat_le_largest (x : Count) : x.toNat ≤ largest := by
  have := x.toNat_lt
  simp only [largest]
  omega

theorem toNat_ofNatSat (n : Nat) : (ofNatSat n).toNat = min n largest := by
  rw [ofNatSat, UInt64.toNat_ofNat']
  refine Nat.mod_eq_of_lt ?_
  simp only [largest]
  omega

theorem toNat_addSat (x y : Count) : (addSat x y).toNat = min (x.toNat + y.toNat) largest :=
  toNat_ofNatSat _

theorem toNat_mulSat (x y : Count) : (mulSat x y).toNat = min (x.toNat * y.toNat) largest :=
  toNat_ofNatSat _

theorem toNat_subSat (x y : Count) : (subSat x y).toNat = x.toNat - y.toNat := by
  rw [subSat, UInt64.toNat_ofNat']
  refine Nat.mod_eq_of_lt ?_
  have := x.toNat_lt
  omega

theorem add?_eq_some_iff {x y z : Count} : add? x y = some z ↔ x.toNat + y.toNat = z.toNat := by
  have hz := toNat_le_largest z
  simp only [add?]
  split
  · rename_i h
    have hadd : (x + y).toNat = x.toNat + y.toNat := by
      rw [UInt64.toNat_add]
      refine Nat.mod_eq_of_lt ?_
      simp only [largest] at h
      omega
    rw [Option.some.injEq, ← UInt64.toNat_inj, hadd]
  · simp only [reduceCtorEq, false_iff]
    omega

end Count
end Swarm
