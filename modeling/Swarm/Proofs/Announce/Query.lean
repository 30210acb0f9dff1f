/-
# What an announcement says can be read back

The text of a query is a row of parts between `&`, each a name and a value with a `=` between
them, in which neither mark occurs otherwise.  `parameters` takes a text apart at these marks and
undoes the escapes, and `said` is what an announcement means to say, in plain bytes:

* `parameters_text`: what is read is what was said, whatever the text of the tracker id is;
* `said_injective`: and announcements that say the same are the same.
-/
import Mathlib.Data.Option.Basic
import Swarm.Announce.Query
import Swarm.Proofs.Net.Address
import Swarm.Proofs.Net.Percent

namespace Swarm.Announce

open Net.Percent (Reversible escape unescape)
open Text (decimal utf8)

/-! ## 1. Reading a query -/

/-- What stands before the first `=`, and what stands behind it. -/
def splitPair (part : List Char) : List Char × List Char :=
  (part.takeWhile (· ≠ '='), (part.dropWhile (· ≠ '=')).tail)

/-- **The parameters of a query**: its parts between `&`, each split at its first `=`, with the
escapes of the value undone. -/
def parameters (text : String) : List (String × Bytes) :=
  (text.toList.splitOn '&').map fun part =>
    let (name, value) := splitPair part
    (String.ofList name, unescape (utf8 (String.ofList value)))

theorem splitPair_append {name : List Char} (h : '=' ∉ name) (value : List Char) :
    splitPair (name ++ '=' :: value) = (name, value) := by
  have hname : ∀ c ∈ name, decide (c ≠ '=') = true := by
    intro c hc
    exact decide_eq_true fun heq => h (heq ▸ hc)
  rw [splitPair, List.takeWhile_append_of_pos hname, List.dropWhile_append_of_pos hname]
  simp

namespace Query

/-- **What an announcement says**, name by name, before anything is escaped. -/
def said (q : Query) : List (String × Bytes) :=
  [("info_hash", q.infoHash.bytes), ("peer_id", q.peerId.bytes), ("port", decimal q.port.toNat),
    ("uploaded", decimal q.uploaded.toNat), ("downloaded", decimal q.downloaded.toNat),
    ("left", decimal q.left.toNat), ("compact", decimal q.compact.toNat)] ++
  (q.numwant.map fun n => ("numwant", decimal n.toNat)).toList ++
  (q.trackerId.map fun t => ("trackerid", utf8 t)).toList ++
  (q.event.word?.map fun w => ("event", utf8 w)).toList

/-! ## 2. The characters of a query -/

/-- Characters of which a name or a value is made. -/
def isPlain (c : Char) : Bool := c.isAlphanum || "-._~%".toList.contains c

/-- Characters of which a query is made. -/
def isQueryChar (c : Char) : Bool := isPlain c || c = '&' || c = '='

theorem plain_of_not_escaped {b : UInt8} (h : escaped b = false) :
    b ≠ 0x25 ∧ b.toNat < 128 ∧ isPlain (Char.ofNat b.toNat) = true := by
  have hall : ∀ n < 256, escaped (UInt8.ofNat n) = false →
      UInt8.ofNat n ≠ 0x25 ∧ n < 128 ∧ isPlain (Char.ofNat n) = true := by
    decide +kernel
  have hb := hall b.toNat b.toNat_lt
  rw [UInt8.ofNat_toNat] at hb
  exact hb h

theorem reversible_escaped : Reversible escaped := fun _ h =>
  ⟨(plain_of_not_escaped h).1, (plain_of_not_escaped h).2.1⟩

theorem plain_escape {s : Bytes} : ∀ c ∈ (escape escaped s).toList, isPlain c = true := by
  intro c hc
  rcases Net.Percent.mem_escape hc with rfl | halphanum | ⟨b, hb, rfl⟩
  · decide
  · rw [isPlain, halphanum, Bool.true_or]
  · exact (plain_of_not_escaped hb).2.2

theorem plain_toString (n : Nat) : ∀ c ∈ (toString n).toList, isPlain c = true := by
  have hdigits : ∀ d < 10, isPlain (Nat.digitChar d) = true := by decide
  intro c hc
  have hdigit : c ∈ Nat.toDigits 10 n := by simpa using hc
  obtain ⟨d, hd, rfl⟩ := Net.exists_digit_of_mem_toDigits (by decide) hdigit
  exact hdigits d hd

/-- No mark is part of a name or a value. -/
theorem ne_of_isPlain {c : Char} (h : isPlain c = true) : c ≠ '&' ∧ c ≠ '=' := by
  constructor
  · rintro rfl
    exact absurd h (by decide)
  · rintro rfl
    exact absurd h (by decide)

theorem lt_of_isPlain {c : Char} (h : isPlain c = true) : c.toNat < 128 := by
  have hothers : "-._~%".toList.all (fun c => c.toNat < 128) = true := by decide
  rw [isPlain, Bool.or_eq_true, List.contains_iff_mem] at h
  rcases h with h | h
  · exact Text.lt_of_isAlphanum h
  · exact of_decide_eq_true (List.all_eq_true.mp hothers c h)

/-! ## 3. Names and values -/

/-- A name and a value, neither of which holds a mark. -/
def IsField (f : String × String) : Prop :=
  (∀ c ∈ f.1.toList, isPlain c = true) ∧ ∀ c ∈ f.2.toList, isPlain c = true

/-- The part of the text that holds a name and a value. -/
def part (f : String × String) : List Char := f.1.toList ++ '=' :: f.2.toList

/-- A name, and its value with the escapes undone. -/
def readField (f : String × String) : String × Bytes := (f.1, unescape (utf8 f.2))

theorem isField_fields (q : Query) : ∀ f ∈ q.fields, IsField f := by
  have hnames : ∀ name ∈ ["info_hash", "peer_id", "port", "uploaded", "downloaded", "left",
      "compact", "numwant", "trackerid", "event"], name.toList.all isPlain = true := by
    decide
  have hplain := fun name hname => List.all_eq_true.mp (hnames name hname)
  intro f hf
  simp only [fields, List.mem_append, List.mem_cons, List.not_mem_nil, or_false, Option.mem_toList,
    Option.map_eq_some_iff] at hf
  rcases hf with (((rfl | rfl | rfl | rfl | rfl | rfl | rfl) | ⟨n, -, rfl⟩) | ⟨t, -, rfl⟩) |
    ⟨w, hw, rfl⟩
  · exact ⟨hplain "info_hash" (by decide), plain_escape⟩
  · exact ⟨hplain "peer_id" (by decide), plain_escape⟩
  · exact ⟨hplain "port" (by decide), plain_toString _⟩
  · exact ⟨hplain "uploaded" (by decide), plain_toString _⟩
  · exact ⟨hplain "downloaded" (by decide), plain_toString _⟩
  · exact ⟨hplain "left" (by decide), plain_toString _⟩
  · refine ⟨hplain "compact" (by decide), List.all_eq_true.mp ?_⟩
    cases q.compact <;> decide
  · exact ⟨hplain "numwant" (by decide), plain_toString _⟩
  · exact ⟨hplain "trackerid" (by decide), plain_escape⟩
  · refine ⟨hplain "event" (by decide), List.all_eq_true.mp ?_⟩
    cases hevent : q.event with
    | regular => rw [hevent] at hw; exact absurd hw nofun
    | started | completed | stopped =>
      rw [hevent] at hw
      obtain rfl := Option.some.inj hw
      decide

theorem utf8_toString (n : Nat) : utf8 (toString n) = decimal n := by
  have htext : toString n = String.ofList (Nat.toDigits 10 n) := rfl
  have hascii : ∀ c ∈ Nat.toDigits 10 n, c.toNat < 128 := by
    intro c hc
    refine lt_of_isPlain (plain_toString n c ?_)
    rwa [htext, String.toList_ofList]
  rw [htext, Text.utf8_of_ascii hascii, decimal]

theorem unescape_decimal (n : Nat) : unescape (decimal n) = decimal n := by
  refine Net.Percent.unescape_of_notMem fun h => ?_
  exact absurd (Text.isDigit_of_mem_decimal n _ h) (by decide)

/-- **Each value is read as what was said.** -/
theorem map_readField (q : Query) : q.fields.map readField = q.said := by
  have hnumber : ∀ name n, readField (name, toString n) = (name, decimal n) := by
    intro name n
    rw [readField, utf8_toString, unescape_decimal]
  have hbytes : ∀ name s, readField (name, escape escaped s) = (name, s) := by
    intro name s
    rw [readField, Net.Percent.unescape_utf8_escape reversible_escaped]
  have hcompact : readField ("compact", if q.compact then "1" else "0") =
      ("compact", decimal q.compact.toNat) := by
    cases q.compact <;> decide
  have hevent : (q.event.word?.map fun w => ("event", w)).toList.map readField =
      (q.event.word?.map fun w => ("event", utf8 w)).toList := by
    cases q.event <;> decide
  rw [fields, said, List.map_append, List.map_append, List.map_append, hevent]
  simp only [List.map_cons, List.map_nil, hnumber, hbytes, hcompact, Option.toList_map,
    Net.Percent.escapeText, List.map_map, Function.comp_def]

/-! ## 4. The whole text -/

theorem toList_text (q : Query) : q.text.toList = List.intercalate ['&'] (q.fields.map part) := by
  rw [text, String.toList_intercalate, List.map_map]
  congr 1
  refine List.map_congr_left fun f _ => ?_
  simp [part]

theorem amp_notMem_part {f : String × String} (h : IsField f) : '&' ∉ part f := by
  intro hmem
  rcases List.mem_append.mp hmem with hname | hvalue
  · exact (ne_of_isPlain (h.1 _ hname)).1 rfl
  · rcases List.mem_cons.mp hvalue with heq | hvalue
    · exact absurd heq (by decide)
    · exact (ne_of_isPlain (h.2 _ hvalue)).1 rfl

theorem splitPair_part {f : String × String} (h : IsField f) :
    splitPair (part f) = (f.1.toList, f.2.toList) :=
  splitPair_append (fun hmem => (ne_of_isPlain (h.1 _ hmem)).2 rfl) _

/-- **What is read is what was said.** -/
theorem parameters_text (q : Query) : parameters q.text = q.said := by
  have hsplit : q.text.toList.splitOn '&' = q.fields.map part := by
    rw [toList_text]
    refine List.splitOn_intercalate '&' (List.forall_mem_map.mpr fun f hf => ?_) (by simp [fields])
    exact amp_notMem_part (q.isField_fields f hf)
  rw [parameters, hsplit, List.map_map, ← map_readField]
  refine List.map_congr_left fun f hf => ?_
  rw [Function.comp_apply, splitPair_part (q.isField_fields f hf)]
  simp [readField]

theorem mem_of_mem_intercalate {c mark : Char} {parts : List (List Char)}
    (h : c ∈ List.intercalate [mark] parts) : c = mark ∨ ∃ p ∈ parts, c ∈ p := by
  by_contra hno
  obtain ⟨hmark, hparts⟩ := not_or.mp hno
  exact Net.not_mem_intercalate hmark (fun p hp hc => hparts ⟨p, hp, hc⟩) h

/-- **No other characters than these stand in a query.** -/
theorem isQueryChar_text (q : Query) : ∀ c ∈ q.text.toList, isQueryChar c = true := by
  intro c hc
  rw [toList_text] at hc
  rcases mem_of_mem_intercalate hc with rfl | ⟨p, hp, hc⟩
  · decide
  · obtain ⟨f, hf, rfl⟩ := List.mem_map.mp hp
    have hplain : isPlain c = true ∨ c = '=' := by
      rcases List.mem_append.mp hc with hname | hvalue
      · exact .inl ((q.isField_fields f hf).1 c hname)
      · rcases List.mem_cons.mp hvalue with heq | hvalue
        · exact .inr heq
        · exact .inl ((q.isField_fields f hf).2 c hvalue)
    rcases hplain with hplain | rfl
    · rw [isQueryChar, hplain]
      rfl
    · decide

/-! ## 5. What was said tells announcements apart -/

/-- The names of the parameters: those that every announcement has, and those of what it says
besides. -/
def names (q : Query) : List String :=
  ["info_hash", "peer_id", "port", "uploaded", "downloaded", "left", "compact"] ++
  (if q.numwant.isSome then ["numwant"] else []) ++
  (if q.trackerId.isSome then ["trackerid"] else []) ++
  if q.event = .regular then [] else ["event"]

theorem nodup_names (q : Query) : q.names.Nodup := by
  unfold names
  split <;> split <;> split <;> decide

section Optional

variable {α : Type} (o : Option α) (name : String) (value : α → Bytes)

theorem map_fst_optional : (o.map fun x => (name, value x)).toList.map Prod.fst =
    if o.isSome then [name] else [] := by
  cases o <;> simp

/-- A parameter that may be left out is found under its name only. -/
theorem lookup_optional (key : String) : (o.map fun x => (name, value x)).toList.lookup key =
    if key = name then o.map value else none := by
  cases o with
  | none => simp
  | some x =>
    by_cases h : key = name
    · simp [h]
    · simp [List.lookup_cons, h, beq_false_of_ne h]

theorem filter_optional_of_eq {p : String × Bytes → Bool} (h : ∀ s, p (name, s) = false) :
    (o.map fun x => (name, value x)).toList.filter p = [] := by
  cases o <;> simp [h]

end Optional

theorem map_fst_said (q : Query) : q.said.map Prod.fst = q.names := by
  have hevent : (if q.event.word?.isSome then ["event"] else []) =
      if q.event = .regular then [] else ["event"] := by
    cases q.event <;> rfl
  simp only [said, List.map_append, map_fst_optional, hevent]
  rfl

theorem octets_inj {x y : Octets20} (h : x.bytes = y.bytes) : x = y := by
  obtain ⟨b, hb⟩ := x
  obtain ⟨c, hc⟩ := y
  obtain rfl : b = c := h
  rfl

theorem decimal_toNat_injective : Function.Injective fun n : UInt32 => decimal n.toNat :=
  fun _ _ h => UInt32.toNat_inj.mp (Text.decimal_injective h)

theorem toNat_injective : Function.Injective Bool.toNat := by
  intro b c h
  cases b <;> cases c <;> first | rfl | exact absurd h (by decide)

theorem word?_injective : Function.Injective Event.word? := by
  intro d e h
  cases d <;> cases e <;> first | rfl | exact absurd h (by decide)

/-- **Announcements that say the same are the same.** -/
theorem said_injective {q r : Query} (h : q.said = r.said) : q = r := by
  simp only [said, List.cons_append, List.nil_append, List.cons.injEq, Prod.mk.injEq, true_and] at h
  obtain ⟨hinfoHash, hpeerId, hport, huploaded, hdownloaded, hleft, hcompact, hoptional⟩ := h
  have hlookup := fun key => congrArg (List.lookup key) hoptional
  simp only [List.lookup_append, lookup_optional] at hlookup
  have hnumwant : q.numwant = r.numwant := by
    have hvalue := hlookup "numwant"
    simp only [reduceIte, String.reduceEq, Option.or_none] at hvalue
    exact Option.map_injective decimal_toNat_injective hvalue
  have htrackerId : q.trackerId = r.trackerId := by
    have hvalue := hlookup "trackerid"
    simp only [reduceIte, String.reduceEq, Option.or_none, Option.none_or] at hvalue
    exact Option.map_injective (fun _ _ ht => Text.utf8_injective ht) hvalue
  have hevent : q.event = r.event := by
    have hvalue := hlookup "event"
    simp only [reduceIte, String.reduceEq, Option.none_or] at hvalue
    exact word?_injective (Option.map_injective (fun _ _ ht => Text.utf8_injective ht) hvalue)
  have hbool : q.compact = r.compact := toNat_injective (Text.decimal_injective hcompact)
  have hword : ∀ {m n : UInt64}, decimal m.toNat = decimal n.toNat → m = n := fun hmn =>
    UInt64.toNat_inj.mp (Text.decimal_injective hmn)
  have hports : q.port = r.port := UInt16.toNat_inj.mp (Text.decimal_injective hport)
  obtain ⟨_, _, _, _, _, _, _, _, _, _⟩ := q
  obtain ⟨_, _, _, _, _, _, _, _, _, _⟩ := r
  rw [Query.mk.injEq]
  exact ⟨congrArg Digest.mk (octets_inj hinfoHash), congrArg PeerId.mk (octets_inj hpeerId), hports,
    hword huploaded, hword hdownloaded, hword hleft, hbool, hnumwant, htrackerId, hevent⟩

/-- The id of the tracker is one parameter, and changes no other. -/
theorem filter_said_trackerId (q : Query) (t : Option String) :
    ({ q with trackerId := t }.said).filter (·.1 ≠ "trackerid") =
      q.said.filter (·.1 ≠ "trackerid") := by
  simp only [said, List.filter_append]
  rw [filter_optional_of_eq t "trackerid" utf8 (by simp),
    filter_optional_of_eq q.trackerId "trackerid" utf8 (by simp)]

/-- **A query is read back as what the announcement says.**  It holds letters, digits and a few
marks only.  Its parameters are what was said, under the names that they should have, each of them
once and in their order.  So no id of a tracker adds a parameter or changes another one, and
announcements with the same query are the same. -/
theorem text_reads_back (q : Query) :
    (∀ c ∈ q.text.toList, c.isAlphanum = true ∨ c ∈ "-._~%&=".toList) ∧
      parameters q.text = q.said ∧
      (parameters q.text).map Prod.fst = q.names ∧ q.names.Nodup ∧
      (∀ t : Option String, (parameters { q with trackerId := t }.text).filter (·.1 ≠ "trackerid") =
        (parameters q.text).filter (·.1 ≠ "trackerid")) ∧
      ∀ r : Query, q.text = r.text ↔ q = r := by
  refine ⟨fun c hc => ?_, q.parameters_text, ?_, q.nodup_names, fun t => ?_, fun r => ?_⟩
  · have hchar := q.isQueryChar_text c hc
    simpa [isQueryChar, isPlain, or_assoc] using hchar
  · rw [parameters_text, map_fst_said]
  · rw [parameters_text, parameters_text, filter_said_trackerId]
  · constructor
    · intro h
      have hread := congrArg parameters h
      rw [parameters_text, parameters_text] at hread
      exact said_injective hread
    · rintro rfl
      rfl

end Query
end Swarm.Announce
