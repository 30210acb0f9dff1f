/-
# The documents that are accepted

`IsTorrent` says what a document must hold, as predicates on its fields and without an order in
which they are looked at; which texts are URLs is for the reader of URLs to say.  Documents are
accepted exactly if it holds:

* `Describes.isTorrent`: what is read is described by its fields, which are therefore as they
  must be;
* `IsTorrent.exists_describes`: and fields that are as they must be describe a metainfo;
* `ofValue_accepts_iff`: so nothing else decides, in particular no field that is only shown and
  no key that is not known, at any of the three levels.
-/
import Swarm.Net.Url.Reading
import Swarm.Proofs.Metainfo.Reading

namespace Swarm.Metainfo

open Bencode
open Swarm.Field (find?)
open List (Forall₂)

variable {readUrl : Net.UrlReader}

/-! ## 1. What a document must hold -/

/-- The content: one length that is not negative, or a list of files whose lengths add up to less
than `2 ^ 64`.  If there is such a list, a length beside it counts for nothing. -/
def IsContent (info : Dictionary Value) : Prop :=
  (find? info "files" = none ∧ ∃ n, CountIn info "length" n) ∨
    ∃ vs es, find? info "files" = some (.list vs) ∧ Forall₂ EntryIn vs es ∧
      (es.map Entry.length).sum ≤ 2 ^ 64 - 1

/-- The `info` dictionary. -/
@[mk_iff]
structure IsInfo (info : Dictionary Value) : Prop where
  name : ∃ t, find? info "name" = some (.text t) ∧ IsComponent t
  pieceLength : ∃ n, CountIn info "piece length" n ∧ 0 < n
  pieces : ∃ blob, find? info "pieces" = some (.byteString blob) ∧ 20 ∣ blob.length ∧
    blob.length / 20 ≤ 2 ^ 32 - 1
  privateFlag : ∀ v, find? info "private" = some v → ∃ i, v = .integer i
  content : IsContent info

/-- The document. -/
@[mk_iff]
structure IsTorrent (readUrl : Net.UrlReader) (root : Dictionary Value) : Prop where
  announce : ∃ t url, find? root "announce" = some (.text t) ∧ readUrl t = .ok url
  announceList : ∀ v, find? root "announce-list" = some v →
    ∃ tiers : List (List String), v = .list (tiers.map textList)
  info : ∃ info, find? root "info" = some (.dictionary info) ∧ IsInfo info

/-- A metainfo is read of the document. -/
def Accepted (readUrl : Net.UrlReader) (root : Value) : Prop := ∃ m, ofValue readUrl root = .ok m

/-! ## 2. Acceptance -/

/-- Bytes that are a whole number of hashes. -/
theorem exists_blobOf_eq : ∀ (count : Nat) {blob : Bytes}, blob.length = 20 * count →
    ∃ hashes, blobOf hashes = blob
  | 0, blob, h => ⟨[], (List.eq_nil_of_length_eq_zero h).symm⟩
  | count + 1, blob, h => by
    have hfront : (blob.take 20).length = 20 := by
      rw [List.length_take]
      omega
    have hback : (blob.drop 20).length = 20 * count := by
      rw [List.length_drop]
      omega
    obtain ⟨hashes, hrest⟩ := exists_blobOf_eq count hback
    refine ⟨⟨⟨blob.take 20, hfront⟩⟩ :: hashes, ?_⟩
    rw [blobOf, List.map_cons, List.flatten_cons, ← blobOf, hrest, List.take_append_drop]

/-- A field that is right wherever it is there. -/
theorem exists_map_eq {α : Type} {field : Option Value} {write : α → Value}
    (h : ∀ v, field = some v → ∃ a, v = write a) : ∃ held : Option α, field = held.map write := by
  cases field with
  | none => exact ⟨none, rfl⟩
  | some v =>
    obtain ⟨a, rfl⟩ := h v rfl
    exact ⟨some a, rfl⟩

theorem ContentIn.isContent {info : Dictionary Value} {name : String} {files : List File}
    {total : Count} {isMultiFile : Bool} (h : ContentIn info name files total isMultiFile) :
    IsContent info := by
  cases h with
  | single hfiles hlength => exact .inl ⟨hfiles, _, hlength⟩
  | listed hfiles hentries htotal => exact .inr ⟨_, _, hfiles, hentries, htotal⟩

theorem IsContent.exists_contentIn {info : Dictionary Value} (h : IsContent info) (name : String) :
    ∃ files total isMultiFile, ContentIn info name files total isMultiFile := by
  rcases h with ⟨hfiles, n, hlength⟩ | ⟨vs, es, hfiles, hentries, htotal⟩
  · exact ⟨_, _, _, .single hfiles hlength⟩
  · exact ⟨_, _, _, .listed hfiles hentries htotal⟩

/-- What is described is as it must be, -/
theorem Describes.isTorrent {root info : Dictionary Value} {m : Metainfo}
    (h : Describes readUrl root info m) : IsTorrent readUrl root := by
  obtain ⟨url, hurl⟩ := h.announceIsUrl
  obtain ⟨listed, hlisted, -⟩ := h.announceList
  obtain ⟨n, hn, hpositive, -⟩ := h.pieceLength
  obtain ⟨flag, hflag, -⟩ := h.privateFlag
  have hblob := length_blobOf m.pieces
  have hmany : m.pieces.length < 2 ^ 32 := h.pieceCount
  refine ⟨⟨m.announce, url, h.announce, hurl⟩, fun v hv => ?_, info, h.infoField, ?_⟩
  · rw [hlisted, Option.map_eq_some_iff] at hv
    obtain ⟨tiers, -, rfl⟩ := hv
    exact ⟨tiers, rfl⟩
  · refine ⟨⟨m.name, h.name, h.nameIsComponent⟩, ⟨n, hn, hpositive⟩, ⟨_, h.pieces, ?_, ?_⟩,
      fun v hv => ?_, h.content.isContent⟩
    · exact ⟨_, hblob⟩
    · omega
    · rw [hflag, Option.map_eq_some_iff] at hv
      obtain ⟨i, -, rfl⟩ := hv
      exact ⟨i, rfl⟩

/-- and what is as it must be describes a metainfo. -/
theorem IsTorrent.exists_describes {root : Dictionary Value} (h : IsTorrent readUrl root)
    (infoHash : Dictionary Value → Digest) :
    ∃ info m, Describes readUrl root info m ∧ infoHash info = m.infoHash := by
  obtain ⟨announce, url, hannounce, hurl⟩ := h.announce
  obtain ⟨info, hinfo, hvalid⟩ := h.info
  obtain ⟨name, hname, hcomponent⟩ := hvalid.name
  obtain ⟨n, hn, hpositive⟩ := hvalid.pieceLength
  obtain ⟨blob, hpieces, ⟨count, hwhole⟩, hmany⟩ := hvalid.pieces
  obtain ⟨hashes, rfl⟩ := exists_blobOf_eq count hwhole
  obtain ⟨files, total, isMultiFile, hcontent⟩ := hvalid.content.exists_contentIn name
  obtain ⟨listed, hlisted⟩ := exists_map_eq h.announceList
  obtain ⟨flag, hflag⟩ := exists_map_eq hvalid.privateFlag
  have hcount : hashes.length < UInt32.size := by
    rw [length_blobOf] at hmany
    simp only [UInt32.size]
    omega
  let m : Metainfo :=
    { announce, announceList := listed.getD [], infoHash := infoHash info, name
      pieceLength := UInt64.ofNat n, pieces := hashes, files, totalLength := total, isMultiFile
      isPrivate := flag = some 1
      comment := Field.looseText? root "comment"
      createdBy := Field.looseText? root "created by"
      creationDate := find? root "creation date" >>= Value.integer?
      encoding := Field.looseText? root "encoding" }
  have hm : Describes readUrl root info m :=
    ⟨hannounce, ⟨url, hurl⟩, ⟨listed, hlisted, rfl⟩, hinfo, hname, hcomponent,
      ⟨n, hn, hpositive, rfl⟩, hpieces, hcount, hcontent, ⟨flag, hflag, rfl⟩, rfl, rfl, rfl, rfl⟩
  exact ⟨info, m, hm, rfl⟩

theorem accepted_iff {root : Value} :
    Accepted readUrl root ↔ ∃ d, root = .dictionary d ∧ IsTorrent readUrl d := by
  constructor
  · rintro ⟨m, hm⟩
    obtain ⟨d, info, rfl, h, -⟩ := readDocument_eq_ok_iff.mp hm
    exact ⟨d, rfl, h.isTorrent⟩
  · rintro ⟨d, rfl, h⟩
    obtain ⟨info, m, hm, hhash⟩ := h.exists_describes fun info =>
      Sha1.hash (Value.dictionary info).encode
    exact ⟨m, readDocument_eq_ok_iff.mpr ⟨d, info, rfl, hm, hhash⟩⟩

theorem accepted_dictionary_iff {d : Dictionary Value} :
    Accepted readUrl (.dictionary d) ↔ IsTorrent readUrl d := by
  simp only [accepted_iff, Value.dictionary.injEq, exists_eq_left']

/-! ## 3. What does not matter -/

/-- The keys of a document that decide whether it is accepted. -/
def rootKeys : List String := ["announce", "announce-list", "info"]

/-- Those of its `info` dictionary; a length does not decide anything if there is a list of
files. -/
def infoKeys (info : Dictionary Value) : List String :=
  ["name", "piece length", "pieces", "private", "files"] ++
    if find? info "files" = none then ["length"] else []

/-- Those of an entry of that list. -/
def entryKeys : List String := ["length", "path"]

/-- The dictionary with this value in the field. -/
def withField (d : Dictionary Value) (key : String) (v : Value) : Dictionary Value :=
  Dictionary.insert (Text.utf8 key) v d

theorem find?_withField (d : Dictionary Value) (key : String) (v : Value) :
    find? (withField d key v) key = some v := by
  rw [find?, withField, Dictionary.get?_insert, if_pos rfl]

/-- An insertion leaves alone every field of a list in which its key is not. -/
theorem find?_insert_of_notMem {keys : List String} {k : Key} (hk : k ∉ keys.map Text.utf8)
    (d : Dictionary Value) (v : Value) :
    ∀ key ∈ keys, find? (Dictionary.insert k v d) key = find? d key := by
  intro key hkey
  have hne : Text.utf8 key ≠ k := fun h => hk (h ▸ List.mem_map_of_mem hkey)
  rw [find?, Dictionary.get?_insert, if_neg hne, find?]

theorem countIn_congr {d d' : Dictionary Value} {key : String} (h : find? d key = find? d' key)
    {n : Nat} : CountIn d key n ↔ CountIn d' key n := by
  rw [CountIn, CountIn, h]

/-- Documents that agree on their keys are torrents alike. -/
theorem isTorrent_congr {d d' : Dictionary Value}
    (h : ∀ key ∈ rootKeys, find? d' key = find? d key) :
    IsTorrent readUrl d' ↔ IsTorrent readUrl d := by
  have hannounce := h "announce" (by simp [rootKeys])
  have htiers := h "announce-list" (by simp [rootKeys])
  have hinfo := h "info" (by simp [rootKeys])
  rw [isTorrent_iff, isTorrent_iff, hannounce, htiers, hinfo]

theorem isInfo_congr {info info' : Dictionary Value}
    (h : ∀ key ∈ ["name", "piece length", "pieces", "private"], find? info' key = find? info key)
    (hcontent : IsContent info' ↔ IsContent info) : IsInfo info' ↔ IsInfo info := by
  have hname := h "name" (by simp)
  have hpieceLength := fun n => countIn_congr (n := n) (h "piece length" (by simp))
  have hpieces := h "pieces" (by simp)
  have hprivate := h "private" (by simp)
  simp only [isInfo_iff, hname, hpieceLength, hpieces, hprivate, hcontent]

theorem isContent_congr {info info' : Dictionary Value}
    (hfiles : find? info' "files" = find? info "files")
    (hlength : find? info "files" = none → find? info' "length" = find? info "length") :
    IsContent info' ↔ IsContent info := by
  rw [IsContent, IsContent, hfiles]
  refine or_congr_left (and_congr_right fun hnone => ?_)
  exact exists_congr fun n => countIn_congr (hlength hnone)

/-- The document with another `info` dictionary is a torrent alike if that dictionary is right
alike. -/
theorem isTorrent_withField_info {d info : Dictionary Value} {info' : Dictionary Value}
    (hinfo : find? d "info" = some (.dictionary info)) (h : IsInfo info' ↔ IsInfo info) :
    IsTorrent readUrl (withField d "info" (.dictionary info')) ↔ IsTorrent readUrl d := by
  have hothers : Text.utf8 "info" ∉ ["announce", "announce-list"].map Text.utf8 := by decide
  have hsame := find?_insert_of_notMem hothers d (.dictionary info')
  have hannounce := hsame "announce" (by simp)
  have htiers := hsame "announce-list" (by simp)
  rw [← withField] at hannounce htiers
  simp only [isTorrent_iff, hannounce, htiers, find?_withField, hinfo, Option.some.injEq,
    Value.dictionary.injEq, exists_eq_left', h]

/-- An entry of the list of files, with a key that is not read. -/
theorem entryIn_withEntry {k : Key} (hk : k ∉ entryKeys.map Text.utf8) (v w : Value) (e : Entry) :
    EntryIn (v.withEntry k w) e ↔ EntryIn v e := by
  cases v with
  | dictionary d =>
    have hlength := find?_insert_of_notMem hk d w "length" (by simp [entryKeys])
    have hpath := find?_insert_of_notMem hk d w "path" (by simp [entryKeys])
    simp only [EntryIn, Value.withEntry, Value.insert, Value.dictionary.injEq, exists_eq_left',
      countIn_congr hlength, hpath]
  | integer n => rfl
  | byteString s => rfl
  | list items => rfl

theorem forall₂_modify_iff {α β : Type} {R : α → β → Prop} {f : α → α}
    (h : ∀ x y, R (f x) y ↔ R x y) : ∀ (xs : List α) (i : Nat) (ys : List β),
    Forall₂ R (xs.modify i f) ys ↔ Forall₂ R xs ys
  | [], i, ys => by simp
  | x :: xs, 0, ys => by simp [List.forall₂_cons_left_iff, h]
  | x :: xs, i + 1, ys => by simp [List.forall₂_cons_left_iff, forall₂_modify_iff h xs i]

theorem isContent_withField_files {info : Dictionary Value} {vs vs' : List Value}
    (hfiles : find? info "files" = some (.list vs))
    (h : ∀ es, Forall₂ EntryIn vs' es ↔ Forall₂ EntryIn vs es) :
    IsContent (withField info "files" (.list vs')) ↔ IsContent info := by
  simp only [IsContent, find?_withField, hfiles, Option.some.injEq, Value.list.injEq,
    reduceCtorEq, false_and, false_or, exists_and_left, exists_eq_left', h]

/-! ## 4. The documents that are accepted -/

/-- **The documents that are accepted are the torrents**, whatever texts are read as URLs.  A value
under any other key does not change that, whatever it is: neither in the document itself, nor in
its `info` dictionary, nor in an entry of the list of files. -/
theorem ofValue_accepts_iff (readUrl : Net.UrlReader) :
    (∀ root, Accepted readUrl root ↔ ∃ d, root = .dictionary d ∧ IsTorrent readUrl d) ∧
      (∀ d k v, k ∉ rootKeys.map Text.utf8 →
        (Accepted readUrl (.dictionary (Dictionary.insert k v d))
          ↔ Accepted readUrl (.dictionary d))) ∧
      (∀ d info k v, find? d "info" = some (.dictionary info) →
        k ∉ (infoKeys info).map Text.utf8 →
        (Accepted readUrl (.dictionary (withField d "info"
          (.dictionary (Dictionary.insert k v info))))
          ↔ Accepted readUrl (.dictionary d))) ∧
      ∀ d info vs i k v, find? d "info" = some (.dictionary info) →
        find? info "files" = some (.list vs) → k ∉ entryKeys.map Text.utf8 →
        (Accepted readUrl (.dictionary (withField d "info" (.dictionary
          (withField info "files" (.list (vs.modify i fun entry => entry.withEntry k v))))))
          ↔ Accepted readUrl (.dictionary d)) := by
  simp only [accepted_dictionary_iff]
  refine ⟨fun root => accepted_iff, ?_, ?_, ?_⟩
  · intro d k v hk
    exact isTorrent_congr (find?_insert_of_notMem hk d v)
  · intro d info k v hinfo hk
    have hsame := find?_insert_of_notMem hk info v
    refine isTorrent_withField_info hinfo (isInfo_congr (fun key hkey => hsame key ?_) ?_)
    · exact List.mem_append_left _ (List.mem_append_left ["files"] hkey)
    · refine isContent_congr (hsame "files" (by simp [infoKeys])) fun hnone => ?_
      exact hsame "length" (by simp [infoKeys, hnone])
  · intro d info vs i k v hinfo hfiles hk
    have hentries := forall₂_modify_iff (fun entry e => entryIn_withEntry hk entry v e) vs i
    have hothers : Text.utf8 "files" ∉
        ["name", "piece length", "pieces", "private"].map Text.utf8 := by decide
    refine isTorrent_withField_info hinfo (isInfo_congr ?_ (isContent_withField_files hfiles hentries))
    exact find?_insert_of_notMem hothers info _

/-- A comment that is a number and a length beside the list of files are no fault. -/
example :
    let fields (fs : List (String × Value)) : Value :=
      .dictionary (fs.foldl (fun d f => withField d f.1 f.2) .nil)
    let file := fields [("path", .list [.text "b"]), ("length", .integer 5)]
    let info := fields [("name", .text "a"), ("piece length", .integer 4), ("pieces", .byteString []),
      ("length", .list []), ("files", .list [file])]
    (ofValue Net.Url.readAscii (fields [("announce", .text "http://t/"), ("comment", .integer 3),
      ("info", info)])).isOk = true := by decide +kernel

end Swarm.Metainfo
