/-
# A reading at a position is about the bytes at that position

What `decodeAt` gives at a position depends on the bytes that it takes, and on nothing in front
of them or behind them:

* `decodeAt_of_slice_eq`: the same bytes at another position, in another text, are decoded as
  the same value;
* `le_position_of_malformed`: what is malformed lies between the position and the end of the
  bytes, and an unknown tag is the byte at the reported position.

A value takes at least one byte (`lt_next_of_decodeAt`).  So values that stand one after another
(`InRow`) are no more than there are bytes, and reading them one after another comes to an end
by itself: `decodeSequence_stops` says that the number of readings which `decodeSequence` is
given is never what ends it.
-/
import Swarm.Bencode.Span
import Swarm.Proofs.Bencode.Truncation

namespace Swarm.Bencode

/-! ## 1. The bytes of a value -/

/-- **The same bytes are decoded alike**, wherever they stand and whatever stands around them. -/
theorem decodeAt_of_slice_eq {data data' : Bytes} {position position' next : Nat} {v : Value}
    (h : decodeAt data position = .ok (v, next))
    (hsame : Span.slice data' ⟨position', position' + (next - position)⟩
      = Span.slice data ⟨position, next⟩) :
    decodeAt data' position' = .ok (v, position' + (next - position)) := by
  obtain ⟨x, rest, hx, hs, rfl, rfl⟩ := decodeAt_eq_ok_iff.mp h
  rw [Nat.add_sub_cancel_left] at hsame ⊢
  have htext : Span.slice data ⟨position, position + x.text.length⟩ = x.text := by
    rw [Span.slice, hs, Nat.add_sub_cancel_left, List.take_left]
  rw [htext, Span.slice, Nat.add_sub_cancel_left] at hsame
  refine decodeAt_eq_ok_iff.mpr ⟨x, (data'.drop position').drop x.text.length, hx, ?_, rfl, rfl⟩
  calc
    data'.drop position'
      = (data'.drop position').take x.text.length ++ (data'.drop position').drop x.text.length :=
        (List.take_append_drop _ _).symm
    _ = x.text ++ (data'.drop position').drop x.text.length := by rw [hsame]

/-! ## 2. The places of faults -/

/-- A value that is refused is refused for bytes in it. -/
theorem suffix_of_readValue {bound levels : Nat} {s rest : Bytes} {reason : Malformed}
    (h : readValue bound levels s = .error (.bad reason rest)) :
    rest <:+ s ∧ ∀ tag, reason = .unknownTag tag → rest.head? = some tag := by
  have hread := readValue_persists (Nat.le_refl bound) [] levels s
  generalize readValue bound levels (s ++ []) = r' at hread
  rw [h] at hread
  cases hread with
  | bad hrest htag => exact ⟨hrest, htag⟩

/-- **What is malformed lies between the position and the end.** -/
theorem le_position_of_malformed {data : Bytes} {position place : Nat} {reason : Malformed}
    (h : decodeAt data position = .error (.malformed place reason)) :
    position ≤ place ∧ place ≤ data.length ∧
      ∀ tag, reason = .unknownTag tag → data[place]? = some tag := by
  simp only [decodeAt] at h
  split at h
  · rename_i stop hread
    cases stop with
    | short => exact absurd h (by simp [Stop.locate])
    | bad fault rest =>
      simp only [Stop.locate, Except.error.injEq, DecodeError.malformed.injEq] at h
      obtain ⟨rfl, rfl⟩ := h
      obtain ⟨⟨front, hfront⟩, htag⟩ := suffix_of_readValue hread
      have hplace : (data.drop position).length - rest.length = front.length := by
        rw [← hfront, List.length_append, Nat.add_sub_cancel]
      have hrest : data.drop (position + front.length) = rest := by
        rw [← List.drop_drop, ← hfront, List.drop_left]
      have hlength := congrArg List.length hfront
      rw [hplace]
      refine ⟨Nat.le_add_right _ _, ?_, fun tag hreason => ?_⟩
      · -- behind the end of the bytes nothing is malformed
        by_cases hle : position ≤ data.length
        · simp only [List.length_append, List.length_drop] at hlength
          omega
        · rw [List.drop_eq_nil_of_le (Nat.le_of_not_le hle)] at hread
          exact absurd hread (by simp [readValue])
      · rw [← List.head?_drop, hrest]
        exact htag tag hreason
  · exact absurd h (by simp)

/-- Where the bytes run out, they run out at their end, or at the position if that lies behind
it. -/
theorem position_of_endOfInput {data : Bytes} {position place : Nat}
    (h : decodeAt data position = .error (.endOfInput place)) :
    place = max position data.length := by
  simp only [decodeAt] at h
  split at h
  · rename_i stop hread
    cases stop with
    | short =>
      simp only [Stop.locate, Except.error.injEq, DecodeError.endOfInput.injEq,
        List.length_drop] at h
      omega
    | bad fault rest => exact absurd h (by simp [Stop.locate])
  · exact absurd h (by simp)

/-! ## 3. Values one after another -/

/-- The values stand one after another from the position on, and the last of them ends at
`stop`.  Each comes with the position just past it. -/
inductive InRow (data : Bytes) : Nat → List (Value × Nat) → Nat → Prop
  | nil (position : Nat) : InRow data position [] position
  | cons {position next stop : Nat} {v : Value} {vs : List (Value × Nat)}
      (h : decodeAt data position = .ok (v, next)) (hs : InRow data next vs stop) :
      InRow data position ((v, next) :: vs) stop

/-- There are no more values than bytes that they stand in. -/
theorem InRow.length_le {data : Bytes} {position stop : Nat} {vs : List (Value × Nat)}
    (h : InRow data position vs stop) :
    position + vs.length ≤ stop ∧ (position ≤ data.length → stop ≤ data.length) := by
  induction h with
  | nil position => exact ⟨Nat.le_refl _, id⟩
  | cons h hs ih =>
    obtain ⟨hnext, hend⟩ := lt_next_of_decodeAt h
    rw [List.length_cons]
    exact ⟨by omega, fun _ => ih.2 hend⟩

/-- **Reading one value after another stops by itself**, with the end of the bytes or with an
error, if it may go on for as many readings as there are bytes left. -/
theorem decodeFrom_stops (data : Bytes) : ∀ (count position : Nat),
    data.length - position < count → ∃ vs stop, InRow data position vs stop ∧
      ((stop = data.length ∧ decodeFrom data count position = vs.map .ok) ∨
        ∃ e, decodeAt data stop = .error e ∧
          decodeFrom data count position = vs.map .ok ++ [.error e])
  | 0, _, h => absurd h (Nat.not_lt_zero _)
  | count + 1, position, h => by
    cases hread : decodeAt data position with
    | error e =>
      refine ⟨[], position, .nil position, .inr ⟨e, hread, ?_⟩⟩
      simp only [decodeFrom, hread, List.map_nil, List.nil_append]
    | ok read =>
      obtain ⟨v, next⟩ := read
      obtain ⟨hnext, hend⟩ := lt_next_of_decodeAt hread
      by_cases hmore : next < data.length
      · obtain ⟨vs, stop, hrow, hstops⟩ := decodeFrom_stops data count next (by omega)
        refine ⟨(v, next) :: vs, stop, .cons hread hrow, ?_⟩
        simp only [decodeFrom, hread, if_pos hmore, List.map_cons, List.cons_append,
          List.cons.injEq, true_and]
        exact hstops
      · refine ⟨[(v, next)], next, .cons hread (.nil next), .inl ⟨by omega, ?_⟩⟩
        simp only [decodeFrom, hread, if_neg hmore, List.map_cons, List.map_nil]

/-- The readings of all the bytes are as many as it takes. -/
theorem decodeSequence_stops (data : Bytes) : ∃ vs stop, InRow data 0 vs stop ∧
    ((stop = data.length ∧ decodeSequence data = vs.map .ok) ∨
      ∃ e, decodeAt data stop = .error e ∧ decodeSequence data = vs.map .ok ++ [.error e]) :=
  decodeFrom_stops data (data.length + 1) 0 (by omega)

/-! ## 4. Progress and locality -/

/-- **A reading goes forward and is local.**  A value that is decoded takes at least one byte and
ends within the bytes, and the bytes that it takes are decoded as it wherever they stand.  A
fault lies between the position and the end of the bytes; bytes that ran out ran out at their
end, or at the position if that lies behind it.  So at most as many values are decoded one
after another as there are bytes, and decoding one after another ends by itself, with the end
of the bytes or with an error. -/
theorem decodeAt_forward_and_local (data : Bytes) :
    (∀ position v next, decodeAt data position = .ok (v, next) →
      (position < next ∧ next ≤ data.length) ∧
        ∀ data' position', Span.slice data' ⟨position', position' + (next - position)⟩
            = Span.slice data ⟨position, next⟩ →
          decodeAt data' position' = .ok (v, position' + (next - position))) ∧
      (∀ position, position ≤ data.length →
        (∀ place reason, decodeAt data position = .error (.malformed place reason) →
          (position ≤ place ∧ place ≤ data.length) ∧
            ∀ tag, reason = .unknownTag tag → data[place]? = some tag) ∧
        ∀ place, decodeAt data position = .error (.endOfInput place) → place = data.length) ∧
      (∀ position, data.length < position →
        decodeAt data position = .error (.endOfInput position)) ∧
      (∀ vs stop, InRow data 0 vs stop → vs.length ≤ data.length) ∧
      ∃ vs stop, InRow data 0 vs stop ∧
        ((stop = data.length ∧ decodeSequence data = vs.map .ok) ∨
          ∃ e, decodeAt data stop = .error e ∧
            decodeSequence data = vs.map .ok ++ [.error e]) := by
  refine ⟨?_, ?_, fun position h => decodeAt_of_length_lt h, ?_, decodeSequence_stops data⟩
  · intro position v next h
    exact ⟨lt_next_of_decodeAt h, fun data' position' hsame => decodeAt_of_slice_eq h hsame⟩
  · intro position hle
    refine ⟨fun place reason h => ?_, fun place h => ?_⟩
    · obtain ⟨hstart, hend, htag⟩ := le_position_of_malformed h
      exact ⟨⟨hstart, hend⟩, htag⟩
    · rw [position_of_endOfInput h, Nat.max_eq_right hle]
  · intro vs stop h
    obtain ⟨hlength, hend⟩ := h.length_le
    have := hend (Nat.zero_le _)
    omega

end Swarm.Bencode
