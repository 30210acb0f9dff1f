/-
# The two hashes of one document

The info hash is taken over the `info` dictionary as it is written, or over the bytes at which
it stands in the document.  The source is all that the two readings differ in:

* `ofBytes_eq_ok_iff`: of either source the fields of the document decide everything but the
  hash, and the bytes that are hashed are those of `Hashed`;
* `Hashed.eq_encode`: bytes in which the keys ascend are what is written anyway;
* `ofBytes_sources_agree`: so both readings succeed alike, agree on every field but the hash, and on
  the hash as well if the keys of the `info` bytes ascend.  Documents that have been written
  anew are hashed alike from either source;
* `writings_tell_apart`: different `info` dictionaries are never hashed over the same bytes, however
  deep they are.

Which function of the bytes the hash is does not matter here.
-/
import Swarm.Proofs.Bencode.Canonical
import Swarm.Proofs.Bencode.Span
import Swarm.Proofs.Metainfo.Reading

namespace Swarm.Metainfo

open Bencode
open Bencode.Grammar (LastValueAt)
open Swarm.Field (find?)

/-! ## 1. The bytes that are hashed -/

/-- The bytes that stand for the `info` dictionary when the hash is taken from this source. -/
inductive Hashed (data : Bytes) (info : Dictionary Value) : HashSource → Bytes → Prop
  | canonical : Hashed data info .canonical (Value.dictionary info).encode
  | raw {s : Span} (hs : LastValueAt (Text.utf8 "info") data s) :
      Hashed data info .raw (s.slice data)

section

variable {data : Bytes} {d info : Dictionary Value}

/-- The `info` dictionary stands somewhere in the document, and nowhere else. -/
theorem exists_infoSpan (hd : decode data = .ok (.dictionary d))
    (hinfo : find? d "info" = some (.dictionary info)) :
    ∃ s : Span, valueSpan? data (Text.utf8 "info") = .ok (some s) ∧
      decode (s.slice data) = .ok (.dictionary info) ∧
      ∀ t, LastValueAt (Text.utf8 "info") data t ↔ t = s := by
  obtain ⟨s, hspan, -, -, -, hslice, hlast⟩ :=
    exists_valueSpan? (decode_eq_ok_iff_decodeAt.mp hd) hinfo
  exact ⟨s, hspan, hslice, hlast⟩

theorem exists_hashed (hd : decode data = .ok (.dictionary d))
    (hinfo : find? d "info" = some (.dictionary info)) (source : HashSource) :
    ∃ b, Hashed data info source b := by
  cases source with
  | canonical => exact ⟨_, .canonical⟩
  | raw =>
    obtain ⟨s, -, -, hlast⟩ := exists_infoSpan hd hinfo
    exact ⟨_, .raw ((hlast s).mpr rfl)⟩

/-- **Bytes in order are what is written**, whichever source they are from. -/
theorem Hashed.eq_encode {source : HashSource} {b : Bytes} (h : Hashed data info source b)
    (hd : decode data = .ok (.dictionary d)) (hinfo : find? d "info" = some (.dictionary info))
    (hb : KeysAscend b) : (Value.dictionary info).encode = b := by
  cases h with
  | canonical => rfl
  | raw hs =>
    obtain ⟨s, -, hslice, hlast⟩ := exists_infoSpan hd hinfo
    obtain rfl := (hlast _).mp hs
    exact (encode_eq_iff_keysAscend hslice).mpr hb

/-- The value of a key in a text that is in order is in order. -/
theorem keysAscend_slice {x : Spelling} {key : Key} {s : Span} (hx : x.Ascending)
    (hs : LastValueAt key x.text s) : KeysAscend (s.slice x.text) := by
  obtain ⟨front, back, y, rest, -, -, htext, rfl⟩ := hs.exists_split
  obtain ⟨rfl, -⟩ := Spelling.text_append_inj ((List.append_nil _).trans htext)
  rw [htext, Spelling.slice_spanBehind, keysAscend_text_iff]
  exact (Spelling.ascending_dictionary_iff.mp hx).2 (key, y) (by simp)

/-- In a document that was written, all bytes are in order. -/
theorem Hashed.keysAscend {root : Value} {source : HashSource} {b : Bytes}
    (h : Hashed root.encode info source b) : KeysAscend b := by
  cases h with
  | canonical => exact keysAscend_encode _
  | raw hs =>
    rw [← root.text_spelling] at hs ⊢
    exact keysAscend_slice (Spelling.ascending_spelling root) hs

/-! ## 2. Reading from either source -/

variable {readUrl : Net.UrlReader}

/-- From either source it is the decoded document that is read. -/
theorem exists_readDocument {source : HashSource} {doc : Document}
    (h : documentOfBytes readUrl source data = .ok doc) :
    ∃ root raw, decode data = .ok root ∧ readDocument readUrl root raw = .ok doc := by
  simp only [documentOfBytes, bind_eq_ok_iff, mapError_eq_ok_iff] at h
  obtain ⟨root, hroot, h⟩ := h
  cases source with
  | canonical => exact ⟨root, none, hroot, h⟩
  | raw =>
    obtain ⟨found, -, h⟩ := bind_eq_ok_iff.mp h
    cases found with
    | none => exact absurd h nofun
    | some s => exact ⟨root, _, hroot, h⟩

theorem ofBytes_canonical_eq_ok_iff {m : Metainfo} :
    ofBytes readUrl .canonical data = .ok m ↔
      ∃ root, decode data = .ok root ∧
        (readDocument readUrl root none).map Document.metainfo = .ok m := by
  rw [ofBytes, documentOfBytes]
  cases decode data with
  | error e => exact ⟨nofun, nofun⟩
  | ok root => simp only [Except.ok.injEq, exists_eq_left']; rfl

theorem ofBytes_raw_eq_ok_iff {m : Metainfo} :
    ofBytes readUrl .raw data = .ok m ↔
      ∃ root s, decode data = .ok root ∧ valueSpan? data (Text.utf8 "info") = .ok (some s) ∧
        (readDocument readUrl root (some (s.slice data))).map Document.metainfo = .ok m := by
  rw [ofBytes, documentOfBytes]
  cases decode data with
  | error e => exact ⟨nofun, nofun⟩
  | ok root =>
    simp only [Except.ok.injEq, exists_and_left, exists_eq_left']
    cases valueSpan? data (Text.utf8 "info") with
    | error e => exact ⟨nofun, nofun⟩
    | ok found =>
      cases found with
      | none => exact ⟨nofun, nofun⟩
      | some s =>
        simp only [Except.ok.injEq, Option.some.injEq, exists_eq_left']
        rfl

/-- **What is read of the bytes of a document.** -/
theorem ofBytes_eq_ok_iff {source : HashSource} {m : Metainfo} :
    ofBytes readUrl source data = .ok m ↔
      ∃ d info b, decode data = .ok (.dictionary d) ∧ Describes readUrl d info m ∧
        Hashed data info source b ∧ Sha1.hash b = m.infoHash := by
  cases source with
  | canonical =>
    rw [ofBytes_canonical_eq_ok_iff]
    constructor
    · rintro ⟨root, hroot, hread⟩
      obtain ⟨d, info, rfl, hm, hhash⟩ := readDocument_eq_ok_iff.mp hread
      exact ⟨d, info, _, hroot, hm, .canonical, hhash⟩
    · rintro ⟨d, info, b, hd, hm, ⟨⟩, hhash⟩
      exact ⟨_, hd, readDocument_eq_ok_iff.mpr ⟨d, info, rfl, hm, hhash⟩⟩
  | raw =>
    rw [ofBytes_raw_eq_ok_iff]
    constructor
    · rintro ⟨root, s, hroot, hs, hread⟩
      obtain ⟨d, info, rfl, hm, hhash⟩ := readDocument_eq_ok_iff.mp hread
      obtain ⟨t, ht, -, hlast⟩ := exists_infoSpan hroot hm.infoField
      obtain rfl : s = t := by simpa using hs.symm.trans ht
      exact ⟨d, info, _, hroot, hm, .raw ((hlast s).mpr rfl), hhash⟩
    · rintro ⟨d, info, b, hd, hm, hb, hhash⟩
      cases hb with
      | raw hs =>
        exact ⟨_, _, hd, valueSpan?_of_lastValueAt hs,
          readDocument_eq_ok_iff.mpr ⟨d, info, rfl, hm, hhash⟩⟩

/-! ## 3. One source and the other -/

/-- A document that is read from one source is read from any other one, with another hash. -/
theorem exists_ofBytes {source : HashSource} {m : Metainfo}
    (h : ofBytes readUrl source data = .ok m) (other : HashSource) :
    ∃ infoHash, ofBytes readUrl other data = .ok { m with infoHash } := by
  obtain ⟨d, info, b, hd, hm, -, -⟩ := ofBytes_eq_ok_iff.mp h
  obtain ⟨b', hb'⟩ := exists_hashed hd hm.infoField other
  exact ⟨Sha1.hash b', ofBytes_eq_ok_iff.mpr ⟨d, info, b', hd, hm.with_infoHash _, hb', rfl⟩⟩

/-- A document that has been written anew is read from any source as the document itself is when
its `info` dictionary is hashed as it is written. -/
theorem ofBytes_encode_eq_ok_iff {root : Value} (h : decode data = .ok root) {source : HashSource}
    {m : Metainfo} :
    ofBytes readUrl source root.encode = .ok m ↔ ofBytes readUrl .canonical data = .ok m := by
  have hagain := decode_encode_of_decode h
  rw [ofBytes_eq_ok_iff, ofBytes_eq_ok_iff]
  constructor
  · rintro ⟨d, info, b, hd, hm, hb, hhash⟩
    -- from either source the bytes are those that are written for `info`
    obtain rfl := hb.eq_encode hd hm.infoField hb.keysAscend
    have hroot : root = .dictionary d := Except.ok.inj (hagain.symm.trans hd)
    exact ⟨d, info, _, hroot ▸ h, hm, .canonical, hhash⟩
  · rintro ⟨d, info, b, hd, hm, ⟨⟩, hhash⟩
    have hroot : root = .dictionary d := Except.ok.inj (h.symm.trans hd)
    have hd' : decode root.encode = .ok (.dictionary d) := hroot ▸ hagain
    obtain ⟨b, hb⟩ := exists_hashed hd' hm.infoField source
    obtain rfl := hb.eq_encode hd' hm.infoField hb.keysAscend
    exact ⟨d, info, _, hd', hm, hb, hhash⟩

/-- **The two sources agree on everything but the hash.**  The readings succeed alike.  The
metainfos they give are equal but for the info hash: it is the hash of the one place at which
the last value of `info` stands, and of that value as it is written.  Where the keys of those
bytes ascend, the metainfos are equal.  A document that is written anew is read from either
source as the metainfo of the writing. -/
theorem ofBytes_sources_agree (readUrl : Net.UrlReader) (data : Bytes) :
    ((∃ m, ofBytes readUrl .raw data = .ok m) ↔ ∃ m, ofBytes readUrl .canonical data = .ok m) ∧
      (∀ mr mc, ofBytes readUrl .raw data = .ok mr → ofBytes readUrl .canonical data = .ok mc →
        { mr with infoHash := mc.infoHash } = mc ∧
          ∃ d info s, decode data = .ok (.dictionary d) ∧ find? d "info" = some info ∧
            (∀ t, LastValueAt (Text.utf8 "info") data t ↔ t = s) ∧
            decode (s.slice data) = .ok info ∧
            mr.infoHash = Sha1.hash (s.slice data) ∧ mc.infoHash = Sha1.hash info.encode ∧
            (KeysAscend (s.slice data) → mr = mc)) ∧
      ∀ root, decode data = .ok root →
        ∀ source m, ofBytes readUrl source root.encode = .ok m ↔
          ofBytes readUrl .canonical data = .ok m := by
  refine ⟨⟨?_, ?_⟩, ?_, ?_⟩
  · rintro ⟨m, h⟩
    obtain ⟨infoHash, hother⟩ := exists_ofBytes h .canonical
    exact ⟨_, hother⟩
  · rintro ⟨m, h⟩
    obtain ⟨infoHash, hother⟩ := exists_ofBytes h .raw
    exact ⟨_, hother⟩
  · intro mr mc hraw hcanonical
    obtain ⟨infoHash, hother⟩ := exists_ofBytes hraw .canonical
    obtain rfl : { mr with infoHash } = mc := Except.ok.inj (hother.symm.trans hcanonical)
    obtain ⟨d, info, b, hd, hm, hb, hhash⟩ := ofBytes_eq_ok_iff.mp hraw
    obtain ⟨d', info', b', hd', hm', hb', hhash'⟩ := ofBytes_eq_ok_iff.mp hcanonical
    obtain rfl : d = d' := by simpa using hd.symm.trans hd'
    obtain rfl : info = info' := by simpa using hm.infoField.symm.trans hm'.infoField
    obtain ⟨s, -, hslice, hlast⟩ := exists_infoSpan hd hm.infoField
    cases hb' with
    | canonical =>
      cases hb with
      | raw hs =>
        obtain rfl := (hlast _).mp hs
        refine ⟨rfl, d, _, _, hd, hm.infoField, hlast, hslice, hhash.symm, hhash'.symm, ?_⟩
        intro hkeys
        have hsame : infoHash = mr.infoHash := by
          rw [← hhash, ← (encode_eq_iff_keysAscend hslice).mpr hkeys]
          exact hhash'.symm
        rw [hsame]
  · intro root hroot source m
    exact ofBytes_encode_eq_ok_iff hroot

end

/-! ## 4. One `info` dictionary and another -/

/-- A document that has been decoded is hashed over its `info` dictionary as it is written. -/
theorem infoHash_of_ofValue {readUrl : Net.UrlReader} {root : Value} {m : Metainfo}
    (h : ofValue readUrl root = .ok m) :
    ∃ d info, root = .dictionary d ∧ find? d "info" = some info ∧
      m.infoHash = Sha1.hash info.encode := by
  obtain ⟨d, info, hroot, hm, hhash⟩ := readDocument_eq_ok_iff.mp h
  exact ⟨d, _, hroot, hm.infoField, hhash.symm⟩

/-- **Writings tell values apart**, and none begins another.  No limit of depth comes in, so this
holds of values that a reader would refuse as well.  Hence two documents are hashed over the same
bytes only if their `info` dictionaries are equal. -/
theorem writings_tell_apart (readUrl : Net.UrlReader) :
    (∀ (v w : Value) (r s : Bytes), v.encode ++ r = w.encode ++ s → v = w ∧ r = s) ∧
      ∀ root root' m m', ofValue readUrl root = .ok m → ofValue readUrl root' = .ok m' →
        ∃ d info d' info', root = .dictionary d ∧ find? d "info" = some info ∧
          m.infoHash = Sha1.hash info.encode ∧ root' = .dictionary d' ∧
          find? d' "info" = some info' ∧ m'.infoHash = Sha1.hash info'.encode ∧
          (info.encode = info'.encode → info = info') := by
  refine ⟨fun v w r s h => Value.encode_append_inj h, ?_⟩
  intro root root' m m' h h'
  obtain ⟨d, info, hroot, hinfo, hhash⟩ := infoHash_of_ofValue h
  obtain ⟨d', info', hroot', hinfo', hhash'⟩ := infoHash_of_ofValue h'
  refine ⟨d, info, d', info', hroot, hinfo, hhash, hroot', hinfo', hhash', ?_⟩
  intro hsame
  exact (Value.encode_append_inj (congrArg (· ++ []) hsame)).1

end Swarm.Metainfo
