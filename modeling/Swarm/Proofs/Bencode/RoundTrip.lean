/-
# What is written is read back

`decodeAt_encode` puts the readers and the writers together.  The writing of a value is read
back as that value between any other bytes, and the reading ends where the writing does, as
long as no node lies deeper than `maxDepth`.  Beyond that the reading fails, and the reason it
gives is the depth.

The lengths of byte strings and keys must be counts of 64 bits, since a longer one would be
refused for its length.
-/
import Swarm.Proofs.Bencode.Reading
import Swarm.Proofs.Bencode.Writing

namespace Swarm.Bencode

/-! ## 1. Shallow values and deep ones -/

/-- A value whose nodes are shallow enough is read back from between other bytes. -/
theorem decodeAt_encode_of_shallow {v : Value} (hv : ∀ s, v.Holds s → s.length < UInt64.size)
    (hlow : ∀ depth, v.NodeAt depth → depth ≤ maxDepth) (front rest : Bytes) :
    decodeAt (front ++ v.encode ++ rest) front.length
      = .ok (v, front.length + v.encode.length) := by
  have h := decodeAt_text front (Value.fits_spelling hv) (Value.height_spelling_le_iff.mpr hlow) rest
  rw [Value.text_spelling, Value.value_spelling] at h
  exact h

/-- A value with a node that lies too deep is refused for that. -/
theorem decodeAt_encode_of_deep {v : Value} (hv : ∀ s, v.Holds s → s.length < UInt64.size)
    {depth : Nat} (hnode : v.NodeAt depth) (hdeep : maxDepth < depth) (front rest : Bytes) :
    ∃ position, decodeAt (front ++ v.encode ++ rest) front.length
      = .error (.malformed position .nestingTooDeep) := by
  have h := decodeAt_text_of_deep front (Value.fits_spelling hv)
    (Nat.lt_of_lt_of_le hdeep hnode.le_height) rest
  rw [Value.text_spelling] at h
  exact h

/-- All the bytes of a writing are decoded as the value only if its nodes are shallow enough. -/
theorem decode_encode_iff {v : Value} (hv : ∀ s, v.Holds s → s.length < UInt64.size) :
    decode v.encode = .ok v ↔ ∀ depth, v.NodeAt depth → depth ≤ maxDepth := by
  constructor
  · intro h depth hnode
    by_contra hdeep
    obtain ⟨position, hread⟩ :=
      decodeAt_encode_of_deep hv hnode (Nat.lt_of_not_le hdeep) [] []
    rw [List.nil_append, List.append_nil] at hread
    rw [decode, show (0 : Nat) = ([] : Bytes).length from rfl, hread] at h
    exact absurd h (by simp)
  · intro hlow
    exact decode_eq_ok_iff.mpr ⟨v.spelling,
      ⟨Value.fits_spelling hv, Value.height_spelling_le_iff.mpr hlow⟩,
      v.text_spelling, v.value_spelling⟩

/-! ## 2. Values inside lists

Inside lists a byte string lies as deep as there are lists around it, so `maxDepth` of them
are read back and one more is not. -/

/-- A value inside so many lists. -/
def nest : Nat → Value → Value
  | 0, v => v
  | n + 1, v => .list [nest n v]

theorem holds_of_holds_nest {v : Value} {s : Bytes} : ∀ {n : Nat}, (nest n v).Holds s → v.Holds s
  | 0, h => h
  | n + 1, h => by
    rw [nest] at h
    cases h with
    | item hx h =>
      rw [List.mem_singleton.mp hx] at h
      exact holds_of_holds_nest h

theorem nodeAt_nest (v : Value) : ∀ n : Nat, (nest n v).NodeAt n
  | 0 => .root v
  | n + 1 => .item List.mem_cons_self (nodeAt_nest v n)

theorem le_of_nodeAt_nest {s : Bytes} : ∀ {n depth : Nat},
    (nest n (.byteString s)).NodeAt depth → depth ≤ n
  | 0, _, h => by
    rw [nest] at h
    cases h with
    | root => exact Nat.le_refl 0
  | n + 1, _, h => by
    rw [nest] at h
    cases h with
    | root => exact Nat.zero_le _
    | item hx h =>
      rw [List.mem_singleton.mp hx] at h
      exact Nat.succ_le_succ (le_of_nodeAt_nest h)

/-! ## 3. Round trip -/

/-- **What is written is read back, anywhere.**  Behind `front` a value is written as it is
written alone; between `front` and `rest` it is read back, up to its last byte, if no node of
it lies deeper than `maxDepth`, and refused for its depth if one does.  Alone it is decoded
exactly in the first case. -/
theorem decodeAt_encode {v : Value} (hv : ∀ s, v.Holds s → s.length < UInt64.size) :
    (∀ front, v.encodeAfter front = front ++ v.encode) ∧
      (∀ front rest,
        ((∀ depth, v.NodeAt depth → depth ≤ maxDepth) →
          decodeAt (front ++ v.encode ++ rest) front.length
            = .ok (v, front.length + v.encode.length)) ∧
        ((∃ depth, v.NodeAt depth ∧ maxDepth < depth) →
          ∃ position, decodeAt (front ++ v.encode ++ rest) front.length
            = .error (.malformed position .nestingTooDeep))) ∧
      (decode v.encode = .ok v ↔ ∀ depth, v.NodeAt depth → depth ≤ maxDepth) := by
  refine ⟨fun front => v.encodeAfter_eq front, ?_, decode_encode_iff hv⟩
  intro front rest
  refine ⟨fun hlow => decodeAt_encode_of_shallow hv hlow front rest, ?_⟩
  rintro ⟨depth, hnode, hdeep⟩
  exact decodeAt_encode_of_deep hv hnode hdeep front rest

theorem decodeAt_encode_nest :
    (∀ s, (nest 64 (.byteString [101, 58])).Holds s → s.length < UInt64.size) ∧
      decode (nest 64 (.byteString [101, 58])).encode = .ok (nest 64 (.byteString [101, 58])) ∧
      (∀ s, (nest 65 (.byteString [101, 58])).Holds s → s.length < UInt64.size) ∧
      ∃ position, decodeAt ([105] ++ (nest 65 (.byteString [101, 58])).encode ++ [101]) 1
        = .error (.malformed position .nestingTooDeep) := by
  have hsize : ∀ n s, (nest n (.byteString [101, 58])).Holds s → s.length < UInt64.size := by
    intro n s hs
    cases holds_of_holds_nest hs with
    | here => decide
  refine ⟨hsize 64, ?_, hsize 65, ?_⟩
  · exact (decodeAt_encode (hsize 64)).2.2.mpr fun _ hd => le_of_nodeAt_nest hd
  · exact ((decodeAt_encode (hsize 65)).2.1 [105] [101]).2 ⟨65, nodeAt_nest _ 65, by decide⟩

end Swarm.Bencode
