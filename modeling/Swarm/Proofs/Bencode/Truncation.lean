/-
# A text that is cut off is refused because it ends

Readers go over the bytes from the front and stop as soon as they can tell.  So bytes that are
put behind a text can matter to one reading only, the one that ran out of bytes: whatever else
came of it, a value or a fault, comes of the longer text as well.

* `Persists` says this of two readings, `Persists.andThen` of readings one after another, and
  `readValue_persists` shows it for values, with one lemma for each reader on the way;
* `decodeAt_append` carries it over to positions;
* `decode_of_cut`: so no part that a decoded text begins with is taken for another value or for
  a malformed one.  It is refused at its end, because it ends there.

The loops are bounded by the number of bytes, which is larger in the longer text, so every
lemma about them has two bounds.
-/
import Swarm.Proofs.Bencode.Reading

namespace Swarm.Bencode

/-! ## 1. Readings that persist -/

section

variable {α β : Type}

/-- **The reading of `s` persists** when `more` bytes follow: `r` is what came of `s`, and `r'`
is what comes of `s ++ more`.  What is left over is an end of `s`, and has `more` behind it in
the longer text.  A result is the same but for what it says about the bytes behind it
(`change`).  Only where the bytes ran out anything may come of the longer text.  An unknown
tag is the byte at which the reader stopped. -/
inductive Persists (change : α → α) (s more : Bytes) : Reading α → Reading α → Prop
  | short {r' : Reading α} : Persists change s more (.error .short) r'
  | bad {reason : Malformed} {rest : Bytes} (hrest : rest <:+ s)
      (htag : ∀ tag, reason = .unknownTag tag → rest.head? = some tag) :
      Persists change s more (.error (.bad reason rest)) (.error (.bad reason (rest ++ more)))
  | ok {x : α} {rest : Bytes} (hrest : rest <:+ s) :
      Persists change s more (.ok (x, rest)) (.ok (change x, rest ++ more))

/-- One reading after another: what is done with the result of the first and with the bytes
behind it. -/
def Reading.andThen (r : Reading α) (next : α → Bytes → Reading β) : Reading β :=
  match r with
  | .error stop => .error stop
  | .ok (x, rest) => next x rest

/-- Readings one after another persist if each of them does. -/
theorem Persists.andThen {change : α → α} {change' : β → β} {s t more : Bytes}
    {r r' : Reading α} {next next' : α → Bytes → Reading β} (h : Persists change s more r r')
    (hs : s <:+ t) (hnext : ∀ x rest, rest <:+ t →
      Persists change' t more (next x rest) (next' (change x) (rest ++ more))) :
    Persists change' t more (Reading.andThen r next) (Reading.andThen r' next') := by
  cases h with
  | short => exact .short
  | bad hrest htag => exact .bad (hrest.trans hs) htag
  | ok hrest => exact hnext _ _ (hrest.trans hs)

end

/-! ## 2. Numbers and byte strings -/

/-- Digits that end within the bytes end at the same place when more bytes follow. -/
theorem splitDigits_append_of_cons {s run after : Bytes} {b : UInt8}
    (h : splitDigits s = (run, b :: after)) (more : Bytes) :
    splitDigits (s ++ more) = (run, b :: (after ++ more)) := by
  obtain ⟨hs, hrun⟩ := of_splitDigits h
  have hdrop : s.dropWhile Text.isDigit = b :: after := congrArg Prod.snd h
  have hb : Text.isDigit b = false := by
    have hhead := List.head_dropWhile_not Text.isDigit (l := s) (by rw [hdrop]; simp)
    simpa only [hdrop, List.head_cons] using hhead
  rw [hs, List.append_assoc, List.cons_append, splitDigits_append hrun hb]

theorem splitSign_append {s unsigned : Bytes} {negative : Bool} (hs : s ≠ [])
    (h : splitSign s = (negative, unsigned)) (more : Bytes) :
    splitSign (s ++ more) = (negative, unsigned ++ more) := by
  cases s with
  | nil => exact absurd rfl hs
  | cons b rest =>
    simp only [splitSign, List.cons_append] at h ⊢
    split at h
    · rename_i hb
      rw [Prod.mk.injEq] at h
      rw [if_pos hb, h.1, h.2]
    · rename_i hb
      rw [Prod.mk.injEq] at h
      rw [if_neg hb, h.1, ← h.2, List.cons_append]

theorem readInteger_persists {whole body : Bytes} (hbody : body <:+ whole) (more : Bytes) :
    Persists id whole more (readInteger whole body)
      (readInteger (whole ++ more) (body ++ more)) := by
  cases hsign : splitSign body with
  | mk negative unsigned =>
    cases hs : splitDigits unsigned with
    | mk run after =>
      cases after with
      | nil =>
        simp only [readInteger, hsign, hs]
        exact .short
      | cons b rest =>
        have hsplit : body = signed negative run ++ b :: rest := by
          rw [of_splitSign hsign, (of_splitDigits hs).1, signed_append]
        have hne : body ≠ [] := by
          rw [hsplit]
          simp
        have hafter : b :: rest <:+ body := hsplit ▸ List.suffix_append _ _
        have hrest := (List.suffix_cons b rest).trans hafter
        simp only [readInteger, hsign, hs, splitSign_append hne hsign,
          splitDigits_append_of_cons hs]
        by_cases hb : b = Mark.close
        · simp only [if_pos hb]
          cases integerOf? negative run with
          | none => exact .bad List.suffix_rfl (by simp)
          | some n => exact .ok (hrest.trans hbody)
        · simp only [if_neg hb]
          exact .bad (hafter.trans hbody) (by simp)

theorem readBytes_persists (s more : Bytes) :
    Persists id s more (readBytes s) (readBytes (s ++ more)) := by
  cases hs : splitDigits s with
  | mk run after =>
    cases after with
    | nil =>
      simp only [readBytes, hs]
      exact .short
    | cons b rest =>
      have hafter : b :: rest <:+ s := (of_splitDigits hs).1 ▸ List.suffix_append _ _
      have hrest := (List.suffix_cons b rest).trans hafter
      simp only [readBytes, hs, splitDigits_append_of_cons hs]
      by_cases hb : b = Mark.colon
      · simp only [if_pos hb]
        cases lengthOf? run with
        | none => exact .bad List.suffix_rfl (by simp)
        | some n =>
          simp only
          cases hcut : Bytes.cut? n rest with
          | none => exact .short
          | some result =>
            obtain ⟨front, back⟩ := result
            obtain ⟨hlength, rfl⟩ := Bytes.cut?_eq_some_iff.mp hcut
            have hcut' : Bytes.cut? n (front ++ back ++ more) = some (front, back ++ more) :=
              Bytes.cut?_eq_some_iff.mpr ⟨hlength, List.append_assoc front back more⟩
            simp only [hcut']
            exact .ok ((List.suffix_append front back).trans hrest)
      · simp only [if_neg hb]
        exact .bad hafter (by simp)

/-! ## 3. Items, entries and values

Their readers are readings one after another.
-/

theorem readItems_cons {α : Type} (item : Bytes → Reading α) (bound : Nat) (b : UInt8)
    (rest : Bytes) :
    readItems item (bound + 1) (b :: rest) =
      if b = Mark.close then .ok ([], rest)
      else (Reading.andThen (item (b :: rest)) fun x s =>
        Reading.andThen (readItems item bound s) fun xs s' => .ok (x :: xs, s')) := by
  simp only [readItems]
  cases item (b :: rest) with
  | error stop => rfl
  | ok result =>
    simp only [Reading.andThen]
    cases readItems item bound result.2 <;> rfl

theorem readEntry_cons (value : Bytes → Reading Value) (b : UInt8) (rest : Bytes) :
    readEntry value (b :: rest) =
      if Text.isDigit b then
        Reading.andThen (readBytes (b :: rest)) fun key s =>
          Reading.andThen (value s) fun v s' => .ok ((key, v, ⟨s, s'⟩), s')
      else .error (.bad .nonStringKey (b :: rest)) := by
  simp only [readEntry]
  cases readBytes (b :: rest) with
  | error stop => rfl
  | ok result =>
    simp only [Reading.andThen]
    cases value result.2 <;> rfl

theorem readValue_cons (bound levels : Nat) (b : UInt8) (rest : Bytes) :
    readValue bound (levels + 1) (b :: rest) =
      if b = Mark.integer then
        Reading.andThen (readInteger (b :: rest) rest) fun n s => .ok (.integer n, s)
      else if Text.isDigit b then
        Reading.andThen (readBytes (b :: rest)) fun x s => .ok (.byteString x, s)
      else if b = Mark.list then
        Reading.andThen (readItems (readValue bound levels) bound rest) fun items s =>
          .ok (.list items, s)
      else if b = Mark.dictionary then
        Reading.andThen (readItems (readEntry (readValue bound levels)) bound rest)
          fun entries s => .ok (.dictionary (dictionaryOf entries), s)
      else .error (.bad (.unknownTag b) (b :: rest)) := by
  simp only [readValue]
  cases readInteger (b :: rest) rest <;> cases readBytes (b :: rest) <;>
    cases readItems (readValue bound levels) bound rest <;>
    cases readItems (readEntry (readValue bound levels)) bound rest <;> rfl

/-- If the reading of each item persists, that of all the items does. -/
theorem readItems_persists {α : Type} {change : α → α} {item item' : Bytes → Reading α}
    {more : Bytes} (hitem : ∀ s, Persists change s more (item s) (item' (s ++ more))) :
    ∀ (bound bound' : Nat) (s : Bytes), bound ≤ bound' →
    Persists (List.map change) s more (readItems item bound s) (readItems item' bound' (s ++ more))
  | 0, _, _, _ => .short
  | _ + 1, _, [], _ => .short
  | bound + 1, 0, _ :: _, h => absurd h (Nat.not_succ_le_zero bound)
  | bound + 1, bound' + 1, b :: rest, h => by
    rw [List.cons_append, readItems_cons, readItems_cons]
    by_cases hb : b = Mark.close
    · simp only [if_pos hb]
      exact .ok (List.suffix_cons b rest)
    · simp only [if_neg hb]
      refine (hitem (b :: rest)).andThen List.suffix_rfl fun x s hs => ?_
      have ih := readItems_persists hitem bound bound' s (Nat.le_of_succ_le_succ h)
      exact ih.andThen hs fun xs s' hs' => .ok hs'

/-- An entry, when more bytes follow those among which its value stands. -/
def entryBefore (more : Bytes) (e : Key × Value × Extent) : Key × Value × Extent :=
  (e.1, e.2.1, ⟨e.2.2.start ++ more, e.2.2.stop ++ more⟩)

theorem readEntry_persists {value value' : Bytes → Reading Value} {more : Bytes}
    (hvalue : ∀ s, Persists id s more (value s) (value' (s ++ more))) (s : Bytes) :
    Persists (entryBefore more) s more (readEntry value s) (readEntry value' (s ++ more)) := by
  cases s with
  | nil => exact .short
  | cons b rest =>
    rw [List.cons_append, readEntry_cons, readEntry_cons]
    by_cases hb : Text.isDigit b = true
    · simp only [if_pos hb]
      refine (readBytes_persists (b :: rest) more).andThen List.suffix_rfl fun key s hs => ?_
      exact (hvalue s).andThen hs fun v s' hs' => .ok hs'
    · simp only [if_neg hb]
      exact .bad List.suffix_rfl (by simp)

/-- Where the values stand does not matter to the dictionary. -/
theorem dictionaryOf_map_entryBefore (more : Bytes) (entries : List (Key × Value × Extent)) :
    dictionaryOf (entries.map (entryBefore more)) = dictionaryOf entries := by
  rw [dictionaryOf, List.map_map]
  rfl

/-- **The reading of a value persists**, with any number of levels left. -/
theorem readValue_persists {bound bound' : Nat} (hbound : bound ≤ bound') (more : Bytes) :
    ∀ (levels : Nat) (s : Bytes),
    Persists id s more (readValue bound levels s) (readValue bound' levels (s ++ more))
  | 0, _ => .bad List.suffix_rfl (by simp)
  | _ + 1, [] => .short
  | levels + 1, b :: rest => by
    have ih := readValue_persists hbound more levels
    have hrest := List.suffix_cons b rest
    rw [List.cons_append, readValue_cons, readValue_cons]
    by_cases hinteger : b = Mark.integer
    · simp only [if_pos hinteger]
      exact (readInteger_persists hrest more).andThen List.suffix_rfl fun n s hs => .ok hs
    simp only [if_neg hinteger]
    by_cases hdigit : Text.isDigit b = true
    · simp only [if_pos hdigit]
      exact (readBytes_persists (b :: rest) more).andThen List.suffix_rfl fun x s hs => .ok hs
    simp only [if_neg hdigit]
    by_cases hlist : b = Mark.list
    · simp only [if_pos hlist]
      refine (readItems_persists ih bound bound' rest hbound).andThen hrest fun items s hs => ?_
      rw [List.map_id]
      exact .ok hs
    simp only [if_neg hlist]
    by_cases hdictionary : b = Mark.dictionary
    · simp only [if_pos hdictionary]
      refine (readItems_persists (readEntry_persists ih) bound bound' rest hbound).andThen hrest
        fun entries s hs => ?_
      rw [dictionaryOf_map_entryBefore]
      exact .ok hs
    · simp only [if_neg hdictionary]
      refine .bad List.suffix_rfl fun tag htag => ?_
      cases htag
      rfl

/-! ## 4. Reading at a position -/

/-- Nothing is read behind the end. -/
theorem decodeAt_of_length_lt {data : Bytes} {position : Nat} (h : data.length < position) :
    decodeAt data position = .error (.endOfInput position) := by
  simp only [decodeAt, List.drop_eq_nil_of_le h.le, readValue, Stop.locate, List.length_nil,
    Nat.add_zero]

/-- **More bytes matter to a reading that ran out of bytes, and to no other.**  The bytes run
out at their end, or at the position if that lies behind it. -/
theorem decodeAt_append (data more : Bytes) (position : Nat) :
    decodeAt data position = .error (.endOfInput (max position data.length)) ∨
      decodeAt (data ++ more) position = decodeAt data position := by
  by_cases hle : position ≤ data.length
  · have hread := readValue_persists
      (show (data.drop position).length ≤ (data.drop position ++ more).length by simp) more
      (maxDepth + 1) (data.drop position)
    simp only [decodeAt, List.drop_append_of_le_length hle]
    generalize readValue (data.drop position).length (maxDepth + 1) (data.drop position) = r,
      readValue (data.drop position ++ more).length (maxDepth + 1) (data.drop position ++ more) = r'
      at hread ⊢
    cases hread with
    | short =>
      left
      simp only [Stop.locate, List.length_drop]
      rw [Nat.add_sub_cancel' hle, Nat.max_eq_right hle]
    | bad hrest htag =>
      right
      simp only [Stop.locate, List.length_append, Nat.add_sub_add_right]
    | ok hrest =>
      right
      simp only [List.length_append, Nat.add_sub_add_right, id]
  · left
    have hlt := Nat.lt_of_not_le hle
    rw [decodeAt_of_length_lt hlt, Nat.max_eq_left hlt.le]

/-- A value takes at least one byte, and none behind the end. -/
theorem lt_next_of_decodeAt {data : Bytes} {position next : Nat} {v : Value}
    (h : decodeAt data position = .ok (v, next)) : position < next ∧ next ≤ data.length := by
  obtain ⟨x, rest, -, hs, -, rfl⟩ := decodeAt_eq_ok_iff.mp h
  obtain ⟨c, tail, hc, -⟩ := x.exists_cons_text
  have hlength := congrArg List.length hs
  simp only [hc, List.length_drop, List.length_append, List.length_cons] at hlength ⊢
  omega

/-! ## 5. Texts that are cut off -/

/-- **A text that is cut off is refused at its end, because it ends there**, wherever it has been
cut: it is not taken for another value, and nothing in it is called malformed. -/
theorem decode_of_cut {b part : Bytes} {v : Value} (h : decode b = .ok v) (hpart : part <+: b)
    (hne : part ≠ b) : decode part = .error (.endOfInput part.length) := by
  obtain ⟨more, rfl⟩ := hpart
  have hwhole := decode_eq_ok_iff_decodeAt.mp h
  rcases decodeAt_append part more 0 with hshort | hsame
  · rw [decode, hshort, Nat.zero_max]
  · -- the part would be read as far as the whole, which is longer
    rw [hsame] at hwhole
    have hnext := (lt_next_of_decodeAt hwhole).2
    rw [List.length_append] at hnext
    have hmore : more = [] := List.eq_nil_of_length_eq_zero (by omega)
    rw [hmore, List.append_nil] at hne
    exact absurd rfl hne

/-- `d1:ai-12e2:bcl3:xyzee` is cut behind the sign of the number, behind a key, and in the length
and in the bytes of the string in the list. -/
theorem decode_of_cut_in_turn :
    let b := Text.utf8 "d1:ai-12e2:bcl3:xyzee"
    decode b = .ok (.dictionary (Dictionary.ofList [(Text.utf8 "a", .integer (-12)),
        (Text.utf8 "bc", .list [.text "xyz"])])) ∧
      decode (b.take 6) = .error (.endOfInput 6) ∧ decode (b.take 13) = .error (.endOfInput 13) ∧
      decode (b.take 15) = .error (.endOfInput 15) ∧
      decode (b.take 18) = .error (.endOfInput 18) := by
  intro b
  have hread : decode b = .ok (.dictionary (Dictionary.ofList [(Text.utf8 "a", .integer (-12)),
      (Text.utf8 "bc", .list [.text "xyz"])])) := by decide +kernel
  have hcut : ∀ n, n < 21 → decode (b.take n) = .error (.endOfInput n) := by
    intro n hn
    have hlength : (b.take n).length = n := by
      rw [List.length_take]
      exact Nat.min_eq_left hn.le
    have hshorter : b.take n ≠ b := by
      intro he
      rw [he] at hlength
      exact absurd hlength hn.ne'
    rw [decode_of_cut hread (List.take_prefix n b) hshorter, hlength]
  exact ⟨hread, hcut 6 (by decide), hcut 13 (by decide), hcut 15 (by decide), hcut 18 (by decide)⟩

end Swarm.Bencode
