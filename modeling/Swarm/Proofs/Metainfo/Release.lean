/-
# A torrent that is made from content

A `Release` is content with the URL, the name and the length of the pieces under which it is to
be shared.  Its document is the smallest one that says so, with the hashes of the blocks of the
content as pieces.

* `Valid.decode_encode_document`: the document stays within the limits of the notation, so its
  writing is read back;
* `Valid.describes`: its fields describe the metainfo that one would write down,
* `Valid.covers`: which covers the content;
* `released_content_verifies`: so the writing is accepted without a notice, and the content passes
  every check that the metainfo makes of it.

Which function of the bytes the hash is does not matter here either.
-/
import Swarm.Proofs.Bencode.RoundTrip
import Swarm.Proofs.Metainfo.Layout

namespace Swarm.Metainfo

open Bencode
open Bytes (blocks)
open Swarm.Field (find?)
open List (Forall₂)

/-! ## 1. Documents with given fields -/

/-- The dictionary with these fields. -/
def fieldsOf (fields : List (String × Value)) : Dictionary Value :=
  Dictionary.ofList (fields.map fun f => (Text.utf8 f.1, f.2))

@[simp] theorem find?_fieldsOf_nil (key : String) : find? (fieldsOf []) key = none := rfl

@[simp] theorem find?_fieldsOf_cons (key : String) (f : String × Value)
    (fields : List (String × Value)) :
    find? (fieldsOf (f :: fields)) key =
      (find? (fieldsOf fields) key).or (if key = f.1 then some f.2 else none) := by
  have hkey : Text.utf8 key = Text.utf8 f.1 ↔ key = f.1 :=
    ⟨Text.utf8_injective, congrArg Text.utf8⟩
  simp only [find?, fieldsOf, Dictionary.get?_ofList, List.map_cons, Dictionary.lastValue?_cons, hkey]

/-- The value stays within the limits of the notation: no node lies deeper than this, and no byte
string is too long. -/
structure Within (depth : Nat) (v : Value) : Prop where
  depth_le : ∀ d, v.NodeAt d → d ≤ depth
  length_lt : ∀ s, v.Holds s → s.length < UInt64.size

theorem within_integer (depth : Nat) (n : Int64) : Within depth (.integer n) where
  depth_le d h := by cases h; exact Nat.zero_le _
  length_lt s h := by cases h

theorem within_byteString (depth : Nat) {s : Bytes} (hs : s.length < UInt64.size) :
    Within depth (.byteString s) where
  depth_le d h := by cases h; exact Nat.zero_le _
  length_lt t h := by cases h; exact hs

theorem within_list {depth : Nat} {items : List Value} (h : ∀ x ∈ items, Within depth x) :
    Within (depth + 1) (.list items) where
  depth_le d hd := by
    cases hd with
    | root => exact Nat.zero_le _
    | item hx hd => exact Nat.succ_le_succ ((h _ hx).depth_le _ hd)
  length_lt s hs := by
    cases hs with
    | item hx hs => exact (h _ hx).length_lt s hs

theorem within_fieldsOf {depth : Nat} {fields : List (String × Value)}
    (h : ∀ f ∈ fields, (Text.utf8 f.1).length < UInt64.size ∧ Within depth f.2) :
    Within (depth + 1) (.dictionary (fieldsOf fields)) := by
  have hentry : ∀ e ∈ (fieldsOf fields).toList,
      e.1.length < UInt64.size ∧ Within depth e.2 := by
    intro e he
    obtain ⟨f, hf, rfl⟩ := List.mem_map.mp (Dictionary.mem_of_mem_toList_ofList he)
    exact h f hf
  constructor
  · intro d hd
    cases hd with
    | root => exact Nat.zero_le _
    | entry he hd => exact Nat.succ_le_succ ((hentry _ he).2.depth_le _ hd)
  · intro s hs
    cases hs with
    | key he => exact (hentry _ he).1
    | entry he hs => exact (hentry _ he).2.length_lt s hs

/-- Known fields are not noticed. -/
theorem unknownKeys_fieldsOf {fields : List (String × Value)}
    (h : ∀ f ∈ fields, Text.utf8 f.1 ∈ knownKeys) : unknownKeys (fieldsOf fields) = [] := by
  rw [unknownKeys, List.map_eq_nil_iff, List.filter_eq_nil_iff]
  intro k hk
  obtain ⟨e, he, rfl⟩ := List.mem_map.mp hk
  obtain ⟨f, hf, rfl⟩ := List.mem_map.mp (Dictionary.mem_of_mem_toList_ofList he)
  simpa using h f hf

/-! ## 2. Releases -/

/-- A file that is to be shared: the components of its path, and its bytes. -/
structure Item where
  path : List String
  data : Bytes

namespace Item

/-- The entry of the list of files that says so. -/
def value (i : Item) : Value :=
  .dictionary (fieldsOf
    [("length", .integer (Int64.ofNat i.data.length)), ("path", textList i.path)])

/-- What the entry says. -/
def entry (i : Item) : Entry := ⟨i.data.length, i.path⟩

end Item

/-- The content: one file without a path, or files in a directory. -/
inductive Content
  | single (data : Bytes)
  | listed (items : List Item)

namespace Content

/-- The bytes of each file. -/
def parts : Content → List Bytes
  | single data => [data]
  | listed items => items.map Item.data

/-- The components of all paths. -/
def components : Content → List String
  | single _ => []
  | listed items => items.flatMap Item.path

def isListed : Content → Bool
  | single _ => false
  | listed _ => true

/-- The name of the field that says what there is. -/
def key : Content → String
  | single _ => "length"
  | listed _ => "files"

theorem key_eq (c : Content) : c.key = "length" ∨ c.key = "files" := by
  cases c with
  | single data => exact .inl rfl
  | listed items => exact .inr rfl

/-- Its value. -/
def value : Content → Value
  | single data => .integer (Int64.ofNat data.length)
  | listed items => .list (items.map Item.value)

/-- The files as they are laid out. -/
def files (name : String) : Content → List File
  | single data => [⟨0, UInt64.ofNat data.length, 0, name⟩]
  | listed items => layOut 0 0 (items.map Item.entry)

/-- Path and length of each file. -/
def listing (name : String) : Content → List (String × Nat)
  | single data => [(name, data.length)]
  | listed items => items.map fun i => (joinPath i.path, i.data.length)

end Content

/-- Content that is to be shared. -/
structure Release where
  announce : String
  name : String
  pieceLength : Int64
  content : Content

namespace Release

/-- The content, one file after another. -/
def bytes (r : Release) : Bytes := r.content.parts.flatten

/-- The pieces of the content; the last one may be shorter. -/
def chunks (r : Release) : List Bytes := blocks r.pieceLength.toInt.toNat r.bytes

/-- The fields of the `info` dictionary. -/
def info (r : Release) : List (String × Value) :=
  [("name", .text r.name), ("piece length", .integer r.pieceLength),
    ("pieces", .byteString (blobOf (r.chunks.map Sha1.hash))),
    (r.content.key, r.content.value)]

/-- The fields of the document. -/
def fields (r : Release) : List (String × Value) :=
  [("announce", .text r.announce), ("info", .dictionary (fieldsOf r.info))]

/-- The document that shares the content. -/
def document (r : Release) : Value := .dictionary (fieldsOf r.fields)

/-- **The release can be made**: its texts are what they must be, its pieces have a length, and
nothing in it is larger than can be counted. -/
structure Valid (readUrl : Net.UrlReader) (r : Release) : Prop where
  announce : ∃ url, readUrl r.announce = .ok url
  name : IsComponent r.name
  pieceLength : 0 < r.pieceLength.toInt
  paths : ∀ items, r.content = .listed items →
    ∀ i ∈ items, i.path ≠ [] ∧ ∀ c ∈ i.path, IsComponent c
  parts : ∀ data ∈ r.content.parts, data.length < 2 ^ 63
  bytes : r.bytes.length < 2 ^ 64
  chunks : r.chunks.length ≤ 2 ^ 32 - 1
  /-- No text is longer than a byte string can be. -/
  texts : ∀ t ∈ r.announce :: r.name :: r.content.components, (Text.utf8 t).length < 2 ^ 64

/-! ## 3. The writing is read back -/

variable {readUrl : Net.UrlReader} {r : Release}

theorem Valid.within_text (h : r.Valid readUrl) {t : String}
    (ht : t ∈ r.announce :: r.name :: r.content.components) (depth : Nat) :
    Within depth (.text t) :=
  within_byteString depth (h.texts t ht)

theorem Valid.within_content (h : r.Valid readUrl) : Within 3 r.content.value := by
  have htexts := fun {t} => h.within_text (t := t)
  cases hcontent : r.content with
  | single data => exact within_integer _ _
  | listed items =>
    refine within_list (List.forall_mem_map.mpr fun i hi => within_fieldsOf ?_)
    rw [hcontent] at htexts
    simp only [List.forall_mem_cons, List.not_mem_nil, false_imp_iff, implies_true, and_true]
    refine ⟨⟨by decide, within_integer _ _⟩, by decide, ?_⟩
    refine within_list (List.forall_mem_map.mpr fun c hc => htexts ?_ _)
    exact List.mem_cons_of_mem _ (List.mem_cons_of_mem _ (List.mem_flatMap_of_mem hi hc))

theorem Valid.within_document (h : r.Valid readUrl) : Within 5 r.document := by
  have hannounce := h.within_text List.mem_cons_self 4
  have hname := h.within_text (List.mem_cons_of_mem _ List.mem_cons_self) 3
  have hkey : (Text.utf8 r.content.key).length < UInt64.size := by
    rcases r.content.key_eq with hkey | hkey <;> rw [hkey] <;> decide
  have hblob : (blobOf (r.chunks.map Sha1.hash)).length < UInt64.size := by
    have hcount := h.chunks
    rw [length_blobOf, List.length_map]
    simp only [UInt64.size]
    omega
  have hinfo : Within 4 (.dictionary (fieldsOf r.info)) := by
    refine within_fieldsOf ?_
    simp only [info, List.forall_mem_cons, List.not_mem_nil, false_imp_iff, implies_true, and_true]
    exact ⟨⟨by decide, hname⟩, ⟨by decide, within_integer _ _⟩,
      ⟨by decide, within_byteString _ hblob⟩, hkey, h.within_content⟩
  refine within_fieldsOf ?_
  simp only [fields, List.forall_mem_cons, List.not_mem_nil, false_imp_iff, implies_true, and_true]
  exact ⟨⟨by decide, hannounce⟩, by decide, hinfo⟩

theorem Valid.decode_encode_document (h : r.Valid readUrl) :
    decode r.document.encode = .ok r.document := by
  have hwithin := h.within_document
  refine (decode_encode_iff hwithin.length_lt).mpr fun d hd => ?_
  exact Nat.le_trans (hwithin.depth_le d hd) (by decide)

/-! ## 4. The metainfo -/

/-- **The metainfo of a release**, with some hash. -/
def metainfo (r : Release) (infoHash : Digest) : Metainfo where
  announce := r.announce
  announceList := []
  infoHash := infoHash
  name := r.name
  pieceLength := UInt64.ofNat r.pieceLength.toInt.toNat
  pieces := r.chunks.map Sha1.hash
  files := r.content.files r.name
  totalLength := UInt64.ofNat r.bytes.length
  isMultiFile := r.content.isListed
  isPrivate := false
  comment := none
  createdBy := none
  creationDate := none
  encoding := none

theorem entryIn_value {i : Item} (hlength : i.data.length < 2 ^ 63) (hne : i.path ≠ [])
    (hpath : ∀ c ∈ i.path, IsComponent c) : EntryIn i.value i.entry := by
  refine ⟨_, rfl, ⟨_, ?_, Int64.toInt_ofNat_of_lt hlength⟩, ?_, hne, hpath⟩
  · simp [Item.entry]
  · simp [Item.entry]

theorem totalOf_entries (items : List Item) :
    totalOf (items.map Item.entry) = (items.map Item.data).flatten.length := by
  rw [totalOf, List.map_map, List.length_flatten, List.map_map]
  rfl

theorem Valid.contentIn (h : r.Valid readUrl) :
    ContentIn (fieldsOf r.info) r.name (r.content.files r.name) (UInt64.ofNat r.bytes.length)
      r.content.isListed := by
  have hparts := h.parts
  have hpaths := h.paths
  have hbytes := h.bytes
  unfold info
  unfold Release.bytes at hbytes ⊢
  cases hcontent : r.content with
  | single data =>
    rw [hcontent] at hparts
    have hone : (Content.single data).parts.flatten = data := List.flatten_singleton
    rw [hone]
    refine .single ?_ ⟨_, ?_, Int64.toInt_ofNat_of_lt (hparts data List.mem_cons_self)⟩
    · simp [Content.key]
    · simp [Content.key, Content.value]
  | listed items =>
    rw [hcontent] at hparts hbytes
    have htotal := totalOf_entries items
    have hsum : (Content.listed items).parts.flatten.length = totalOf (items.map Item.entry) :=
      htotal.symm
    rw [hsum] at hbytes ⊢
    have hentries : Forall₂ EntryIn (items.map Item.value) (items.map Item.entry) := by
      rw [List.forall₂_map_left_iff, List.forall₂_map_right_iff, List.forall₂_same]
      intro i hi
      obtain ⟨hne, hpath⟩ := hpaths items hcontent i hi
      exact entryIn_value (hparts _ (List.mem_map_of_mem hi)) hne hpath
    refine .listed ?_ hentries (Nat.le_of_lt_succ hbytes)
    simp [Content.key, Content.value]

/-- **The fields of the document describe it.** -/
theorem Valid.describes (h : r.Valid readUrl) (infoHash : Digest) :
    Describes readUrl (fieldsOf r.fields) (fieldsOf r.info) (r.metainfo infoHash) where
  announce := by simp [fields, metainfo]
  announceIsUrl := h.announce
  announceList := ⟨none, by simp [fields], rfl⟩
  infoField := by simp [fields]
  name := by cases hc : r.content <;> simp [info, hc, Content.key, metainfo]
  nameIsComponent := h.name
  pieceLength := by
    have hpositive := h.pieceLength
    refine ⟨r.pieceLength.toInt.toNat, ⟨r.pieceLength, ?_, by omega⟩, by omega, rfl⟩
    cases hc : r.content <;> simp [info, hc, Content.key]
  pieces := by cases hc : r.content <;> simp [info, hc, Content.key, metainfo]
  pieceCount := by
    have hcount := h.chunks
    simp only [metainfo, List.length_map, UInt32.size]
    omega
  content := h.contentIn
  privateFlag := ⟨none, by cases hc : r.content <;> simp [info, hc, Content.key], rfl⟩
  comment := by simp [Field.looseText?, fields, metainfo]
  createdBy := by simp [Field.looseText?, fields, metainfo]
  creationDate := by simp [fields, metainfo]
  encoding := by simp [Field.looseText?, fields, metainfo]

/-! ## 5. The content is covered -/

/-- A length that is counted is not cut off. -/
theorem toNat_ofNat_length {data : Bytes} (h : data.length < 2 ^ 64) :
    (UInt64.ofNat data.length).toNat = data.length :=
  UInt64.toNat_ofNat_of_lt' h

theorem listing_layOut {items : List Item} (h : totalOf (items.map Item.entry) < 2 ^ 64)
    (index offset : Nat) :
    (layOut index offset (items.map Item.entry)).map (fun f => (f.path, f.length.toNat)) =
      items.map fun i => (joinPath i.path, i.data.length) := by
  rw [map_layOut h, List.map_map]
  rfl

theorem laidOut_layOut {items : List Item} (h : totalOf (items.map Item.entry) < 2 ^ 64) :
    LaidOut 0 ((layOut 0 0 (items.map Item.entry)).zip (items.map Item.data)) := by
  have hrow : InRow 0 0 (layOut 0 0 (items.map Item.entry)) (0 + totalOf (items.map Item.entry)) :=
    inRow_layOut (by simp only [UInt64.size]; omega)
  refine hrow.laidOut ?_
  have hlengths := congrArg (List.map Prod.snd) (listing_layOut h 0 0)
  rw [List.map_map, List.map_map] at hlengths
  rw [List.map_map]
  exact hlengths

/-- **The files are laid out as the content is**, and say so. -/
theorem Valid.files_eq (h : r.Valid readUrl) :
    LaidOut 0 ((r.content.files r.name).zip r.content.parts) ∧
      (r.content.files r.name).map (fun f => (f.path, f.length.toNat)) =
        r.content.listing r.name := by
  have hbytes := h.bytes
  have hparts := h.parts
  unfold Release.bytes at hbytes
  cases hcontent : r.content with
  | single data =>
    rw [hcontent] at hparts
    have hlt := hparts data List.mem_cons_self
    have hlength : (UInt64.ofNat data.length).toNat = data.length :=
      toNat_ofNat_length (by omega)
    refine ⟨.cons rfl hlength .nil, ?_⟩
    rw [Content.files, List.map_singleton, hlength]
    rfl
  | listed items =>
    rw [hcontent, Content.parts, ← totalOf_entries] at hbytes
    exact ⟨laidOut_layOut hbytes, listing_layOut hbytes 0 0⟩

theorem length_listing (name : String) (c : Content) : (c.listing name).length = c.parts.length := by
  cases c with
  | single data => rfl
  | listed items => rw [Content.listing, Content.parts, List.length_map, List.length_map]

/-- The length of a piece that an integer holds is counted exactly. -/
theorem toNat_pieceLength (r : Release) (infoHash : Digest) :
    (r.metainfo infoHash).pieceLength.toNat = r.pieceLength.toInt.toNat := by
  have hle := r.pieceLength.toInt_le
  have hmax := Int64.toInt_maxValue
  exact UInt64.toNat_ofNat_of_lt' (by simp only [UInt64.size]; omega)

/-- **The metainfo covers the content.** -/
theorem Valid.covers (h : r.Valid readUrl) (infoHash : Digest) :
    Covers (r.metainfo infoHash) r.content.parts where
  positive := by
    have hpositive := h.pieceLength
    rw [toNat_pieceLength]
    omega
  pieces := by
    rw [toNat_pieceLength]
    rfl
  total := toNat_ofNat_length h.bytes
  files := by
    have hlength := congrArg List.length h.files_eq.2
    rw [List.length_map, length_listing] at hlength
    exact hlength
  laidOut := h.files_eq.1

/-! ## 6. The writing is accepted -/

/-- **The writing of the document is read as the metainfo of the release**, and nothing is
noticed. -/
theorem Valid.exists_documentOfBytes (h : r.Valid readUrl) (source : HashSource) :
    ∃ doc infoHash, documentOfBytes readUrl source r.document.encode = .ok doc ∧
      doc.metainfo = r.metainfo infoHash ∧ doc.notices = [] := by
  have hdecode := h.decode_encode_document
  have hinfo := (h.describes (Sha1.hash [])).infoField
  obtain ⟨b, hb⟩ := exists_hashed hdecode hinfo source
  have hread : ofBytes readUrl source r.document.encode = .ok (r.metainfo (Sha1.hash b)) :=
    ofBytes_eq_ok_iff.mpr ⟨_, _, b, hdecode, h.describes _, hb, rfl⟩
  obtain ⟨doc, hdoc, hm⟩ := map_eq_ok_iff.mp hread
  refine ⟨doc, _, hdoc, hm, ?_⟩
  obtain ⟨root, raw, hroot, hdocument⟩ := exists_readDocument hdoc
  obtain rfl : r.document = root := Except.ok.inj (hdecode.symm.trans hroot)
  have hfields : unknownKeys (fieldsOf r.fields) = [] := by
    refine unknownKeys_fieldsOf ?_
    simp only [fields, List.forall_mem_cons, List.not_mem_nil, false_imp_iff, implies_true]
    decide
  have hinfoFields : unknownKeys (fieldsOf r.info) = [] := by
    refine unknownKeys_fieldsOf ?_
    simp only [info, List.forall_mem_cons, List.not_mem_nil, false_imp_iff, implies_true]
    rcases r.content.key_eq with hkey | hkey <;> rw [hkey] <;> decide
  have hpieces : pieceMismatch doc.metainfo = [] := by
    rw [hm]
    exact if_pos (h.covers _).neededPieces_eq
  rw [notices_of_readDocument hdocument hinfo, hfields, hinfoFields, hpieces]
  rfl

end Release

/-- **A torrent that is made from content verifies that content.**  The writing of its document
is read without a notice.  There are as many pieces as the content has blocks, and their lengths
add up to the length of the content, whose files are those that were released.  Each piece has
the length that is told and the hash that it must have, and it is what the files that it is said
to have bytes in have in its range, one after another. -/
theorem released_content_verifies {readUrl : Net.UrlReader} {r : Release} (h : r.Valid readUrl)
    (source : HashSource) :
    ∃ doc, documentOfBytes readUrl source r.document.encode = .ok doc ∧
      ofBytes readUrl source r.document.encode = .ok doc.metainfo ∧ doc.notices = [] ∧
      doc.metainfo.pieceCount = r.chunks.length ∧
      doc.metainfo.totalLength.toNat = r.bytes.length ∧
      doc.metainfo.files.map (fun f => (f.path, f.length.toNat)) = r.content.listing r.name ∧
      (∀ (index : UInt32) chunk, r.chunks[index.toNat]? = some chunk →
        (∃ size, doc.metainfo.pieceSize index = .ok size ∧ size.toNat = chunk.length) ∧
        doc.metainfo.verifyPiece index chunk = .ok true ∧
        ∃ held : List (File × Bytes), held.Sublist (doc.metainfo.files.zip r.content.parts) ∧
          doc.metainfo.filesOfPiece index = .ok (held.map Prod.fst) ∧
          held.flatMap (fun e => e.1.cut e.2 (index.toNat * r.pieceLength.toInt.toNat)
            (index.toNat * r.pieceLength.toInt.toNat + chunk.length)) = chunk) ∧
      ∃ sizes, (List.range doc.metainfo.pieceCount).mapM
          (fun i => doc.metainfo.pieceSize (UInt32.ofNat i)) = .ok sizes ∧
        (sizes.map UInt64.toNat).sum = doc.metainfo.totalLength.toNat := by
  obtain ⟨doc, infoHash, hdoc, hm, hnotices⟩ := h.exists_documentOfBytes source
  have hcovers := h.covers infoHash
  have hsize := r.toNat_pieceLength infoHash
  rw [← hm] at hcovers hsize
  have hchunks : blocks doc.metainfo.pieceLength.toNat r.content.parts.flatten = r.chunks := by
    rw [hsize]
    rfl
  have hcount : doc.metainfo.pieceCount = r.chunks.length := by
    rw [hcovers.pieceCount_eq, hchunks]
  refine ⟨doc, hdoc, map_eq_ok_iff.mpr ⟨doc, hdoc, rfl⟩, hnotices, hcount, hcovers.total, ?_, ?_,
    hcovers.sum_pieceSizes ?_⟩
  · rw [hm]
    exact h.files_eq.2
  · intro index chunk hchunk
    rw [← hchunks] at hchunk
    rw [← hsize]
    exact ⟨hcovers.pieceSize_chunk hchunk, hcovers.verifyPiece_chunk hchunk,
      hcovers.filesOfPiece_chunk hchunk⟩
  · have hmany := h.chunks
    omega

/-- Three files, one of them empty, in two pieces: the second piece has bytes in two files. -/
theorem released_content_verifies_spanning :
    ∃ r : Release, r = ⟨"http://a/b", "n", 3,
        .listed [⟨["x"], [1, 2, 3, 4]⟩, ⟨["e"], []⟩, ⟨["d", "z"], [5, 6]⟩]⟩ ∧
      r.Valid Net.Url.readAscii ∧
      ∃ doc, documentOfBytes Net.Url.readAscii .raw r.document.encode = .ok doc ∧
        doc.notices = [] ∧
        doc.metainfo.pieceCount = 2 ∧ doc.metainfo.totalLength.toNat = 6 ∧
        doc.metainfo.verifyPiece 1 [4, 5, 6] = .ok true := by
  obtain ⟨r, hr⟩ : ∃ r : Release, r = ⟨"http://a/b", "n", 3,
      .listed [⟨["x"], [1, 2, 3, 4]⟩, ⟨["e"], []⟩, ⟨["d", "z"], [5, 6]⟩]⟩ := ⟨_, rfl⟩
  have hchunks : r.chunks = [[1, 2, 3], [4, 5, 6]] := by
    subst hr
    decide
  have hcomponent : ∀ c ∈ ["n", "x", "e", "d", "z"], IsComponent c := by
    intro c hc
    refine not_isForbiddenComponent_iff.mp ?_
    revert c
    decide
  have hvalid : r.Valid Net.Url.readAscii := by
    subst hr
    refine ⟨⟨_, rfl⟩, hcomponent "n" (by decide), by decide, ?_, by decide, by decide, by decide,
      by decide⟩
    rintro items ⟨⟩ i hi
    have hpath : i.path ≠ [] ∧ ∀ c ∈ i.path, c ∈ ["n", "x", "e", "d", "z"] := by
      revert i
      decide
    exact ⟨hpath.1, fun c hc => hcomponent c (hpath.2 c hc)⟩
  obtain ⟨doc, hdoc, -, hnotices, hcount, htotal, -, hpieces, -⟩ :=
    released_content_verifies hvalid .raw
  refine ⟨r, hr, hvalid, doc, hdoc, hnotices, ?_, ?_, ?_⟩
  · rw [hcount, hchunks]
    rfl
  · rw [htotal, hr]
    rfl
  · exact (hpieces 1 [4, 5, 6] (by rw [hchunks]; rfl)).2.1

end Swarm.Metainfo
