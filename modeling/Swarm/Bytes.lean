/-
# Byte strings

Everything that travels is a list of bytes.  Two operations on such lists are used all over
the library and are fixed here once:

* `Bytes.cut?` takes a stated number of bytes off the front, or refuses when there are fewer;
* `Bytes.blocks` cuts a byte string into consecutive blocks of one size, the last one shorter
  if the size does not divide the length.

`cut?_eq_some_iff` says that a cut loses nothing, `flatten_blocks` that the blocks put one
after another are the byte string again.
-/

namespace Swarm

/-- A byte string. -/
abbrev Bytes := List UInt8

namespace Bytes

/-! ## 1. Cutting a stated number of bytes off the front -/

/-- The first `n` bytes and what follows them, if there are that many. -/
def cut? (n : Nat) (s : Bytes) : Option (Bytes × Bytes) :=
  let front := s.take n
  if front.length = n then some (front, s.drop n) else none

theorem cut?_eq_some_iff {n : Nat} {s front rest : Bytes} :
    cut? n s = some (front, rest) ↔ front.length = n ∧ s = front ++ rest := by
  simp only [cut?]
  constructor
  · intro h
    split at h
    · simp only [Option.some.injEq, Prod.mk.injEq] at h
      obtain ⟨rfl, rfl⟩ := h
      exact ⟨by assumption, (List.take_append_drop n s).symm⟩
    · simp at h
  · rintro ⟨hlen, rfl⟩
    subst hlen
    simp

/-! ## 2. Consecutive blocks of one size -/

/-- `count` blocks of `size` bytes each, from the front on. -/
def chunks (size : Nat) : Nat → Bytes → List Bytes
  | 0, _ => []
  | count + 1, s => s.take size :: chunks size count (s.drop size)

/-- All the blocks of `size` bytes; the last one is shorter if `size` does not divide. -/
def blocks (size : Nat) (s : Bytes) : List Bytes :=
  chunks size ((s.length + size - 1) / size) s

@[simp] theorem length_chunks (size : Nat) : ∀ (count : Nat) (s : Bytes),
    (chunks size count s).length = count
  | 0, _ => rfl
  | count + 1, s => by simp [chunks, length_chunks size count]

theorem getElem?_chunks (size : Nat) : ∀ (count : Nat) (s : Bytes) (i : Nat),
    (chunks size count s)[i]? = if i < count then some ((s.drop (i * size)).take size) else none
  | 0, s, i => rfl
  | count + 1, s, 0 => by simp [chunks]
  | count + 1, s, i + 1 => by
    have hplace : size + i * size = (i + 1) * size := by rw [Nat.succ_mul, Nat.add_comm]
    rw [chunks, List.getElem?_cons_succ, getElem?_chunks size count, List.drop_drop, hplace]
    simp only [Nat.add_lt_add_iff_right]

/-- Enough blocks lose no byte. -/
theorem flatten_chunks (size : Nat) : ∀ (count : Nat) (s : Bytes),
    s.length ≤ size * count → (chunks size count s).flatten = s
  | 0, s, h => by
    have : s.length = 0 := by omega
    simp [chunks, List.eq_nil_of_length_eq_zero this]
  | count + 1, s, h => by
    have hle : (s.drop size).length ≤ size * count := by
      rw [List.length_drop, Nat.mul_succ] at *; omega
    simp [chunks, flatten_chunks size count _ hle]

/-- What is put together from blocks of one size is cut into these blocks again. -/
theorem chunks_flatten (size : Nat) : ∀ (bs : List Bytes), (∀ b ∈ bs, b.length = size) →
    chunks size bs.length bs.flatten = bs
  | [], _ => rfl
  | b :: bs, h => by
    obtain ⟨hb, hbs⟩ := List.forall_mem_cons.mp h
    rw [List.length_cons, chunks, List.flatten_cons, ← hb, List.take_left, List.drop_left, hb,
      chunks_flatten size bs hbs]

/-- **The blocks are the byte string.** -/
theorem flatten_blocks {size : Nat} (h : 0 < size) (s : Bytes) :
    (blocks size s).flatten = s := by
  refine flatten_chunks size _ s ?_
  have hmod := Nat.mod_lt (s.length + size - 1) h
  have hdiv := Nat.div_add_mod (s.length + size - 1) size
  omega

end Bytes
end Swarm
