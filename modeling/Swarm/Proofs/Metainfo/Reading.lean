/-
# What the fields of a document say

`readDocument` checks a document field by field.  Here each of its readers is taken apart once,
into what the field must hold and what is made of it, and `readDocument_eq_ok_iff` puts the
parts together: a metainfo is read exactly if the fields describe it (`Describes`), and its info
hash is the one thing about it that the fields do not decide.

Lengths are natural numbers here.  A document holds them as integers (`CountIn`), a metainfo
as counts of 64 bits, and `layOut` says where the files of a list stand without mentioning
either.
-/
import Mathlib.Algebra.Ring.Nat
import Swarm.Metainfo.Reading
import Swarm.Proofs.Bencode.Field

namespace Swarm.Metainfo

open Bencode
open Swarm.Field (find?)
open List (Forall₂)

/-! ## 1. Numbers and lists of texts -/

/-- The field holds this number, which is not negative. -/
def CountIn (d : Dictionary Value) (key : String) (n : Nat) : Prop :=
  ∃ i : Int64, find? d key = some (.integer i) ∧ i.toInt = n

theorem CountIn.lt {d : Dictionary Value} {key : String} {n : Nat} (h : CountIn d key n) :
    n < UInt64.size := by
  obtain ⟨i, -, hi⟩ := h
  have hle := i.toInt_le
  have hmax := Int64.toInt_maxValue
  simp only [UInt64.size]
  omega

/-- A field that is read as a count holds the number of that count. -/
theorem count_eq_ok_iff {d : Dictionary Value} {key name : String} {c : Count} :
    (∃ v, find? d key = some v ∧ Field.count name v = .ok c) ↔
      ∃ n, CountIn d key n ∧ UInt64.ofNat n = c := by
  constructor
  · rintro ⟨v, hv, hc⟩
    obtain ⟨i, rfl, hi⟩ := Field.count_eq_ok_iff.mp hc
    exact ⟨c.toNat, ⟨i, hv, hi⟩, UInt64.ofNat_toNat⟩
  · rintro ⟨n, hn, rfl⟩
    obtain ⟨i, hv, hi⟩ := id hn
    refine ⟨_, hv, Field.count_eq_ok_iff.mpr ⟨i, rfl, ?_⟩⟩
    rw [hi, UInt64.toNat_ofNat_of_lt' hn.lt]

/-- The list of these texts. -/
def textList (ts : List String) : Value := .list (ts.map .text)

/-! ## 2. Paths -/

/-- A component of a path: not empty, not a step to the directory itself or out of it, and
without the characters that part a path or end it. -/
structure IsComponent (component : String) : Prop where
  ne_empty : component ≠ ""
  ne_dot : component ≠ "."
  ne_dots : component ≠ ".."
  free : ∀ c ∈ component.toList, c ≠ '/' ∧ c ≠ '\\' ∧ c ≠ '\x00'

theorem not_isForbiddenComponent_iff {component : String} :
    ¬ isForbiddenComponent component = true ↔ IsComponent component := by
  simp only [isForbiddenComponent, Bool.or_eq_true, decide_eq_true_eq, List.any_eq_true, not_or,
    not_exists, not_and, and_assoc]
  constructor
  · rintro ⟨hempty, hdot, hdots, hfree⟩
    exact ⟨hempty, hdot, hdots, hfree⟩
  · rintro ⟨hempty, hdot, hdots, hfree⟩
    exact ⟨hempty, hdot, hdots, hfree⟩

theorem checkComponent_eq_ok_iff {name component : String} {u : Unit} :
    checkComponent name component = .ok u ↔ IsComponent component := by
  rw [← not_isForbiddenComponent_iff, checkComponent]
  split
  · rename_i h
    exact ⟨nofun, fun h' => absurd h h'⟩
  · rename_i h
    exact ⟨fun _ => h, fun _ => rfl⟩

theorem readComponent_eq_ok_iff {name component : String} {v : Value} :
    readComponent name v = .ok component ↔ v = .text component ∧ IsComponent component := by
  simp only [readComponent, bind_eq_ok_iff, pure_eq_ok_iff, Field.text_eq_ok_iff,
    checkComponent_eq_ok_iff]
  constructor
  · rintro ⟨t, hv, -, ht, rfl⟩
    exact ⟨hv, ht⟩
  · rintro ⟨hv, ht⟩
    exact ⟨component, hv, (), ht, rfl⟩

/-! ## 3. Files -/

/-- What an entry of the list of files says. -/
structure Entry where
  length : Nat
  /-- The components of the path. -/
  path : List String

/-- The value is an entry that says this: a dictionary with a length that is not negative and a
path of one component at least. -/
def EntryIn (v : Value) (e : Entry) : Prop :=
  ∃ d, v = .dictionary d ∧ CountIn d "length" e.length ∧
    find? d "path" = some (textList e.path) ∧ e.path ≠ [] ∧ ∀ c ∈ e.path, IsComponent c

theorem EntryIn.length_lt {v : Value} {e : Entry} (h : EntryIn v e) : e.length < UInt64.size := by
  obtain ⟨d, -, hlength, -⟩ := h
  exact hlength.lt

theorem readPath_eq_ok_iff {name : String} {vs : List Value} {path : List String} :
    Field.each (fun _ => readComponent name) 0 vs = .ok path ↔
      vs = path.map .text ∧ ∀ c ∈ path, IsComponent c := by
  have hread : ∀ (i : Nat) v c, readComponent name v = .ok c ↔ v = .text c ∧ IsComponent c :=
    fun _ _ _ => readComponent_eq_ok_iff
  rw [Field.each_eq_ok_iff hread]
  exact Field.forall₂_eq_map_and_iff

theorem readFileEntry_eq_ok_iff {index : Nat} {v : Value} {length : Count} {path : String} :
    readFileEntry index v = .ok (length, path) ↔
      ∃ e, EntryIn v e ∧ UInt64.ofNat e.length = length ∧ joinPath e.path = path := by
  simp only [readFileEntry, bind_eq_ok_iff, refuse_eq_ok_iff, pure_eq_ok_iff,
    Field.dictionary_eq_ok_iff, Field.requiredAs_eq_ok_iff, Field.list_eq_ok_iff,
    readPath_eq_ok_iff, count_eq_ok_iff, Prod.mk.injEq, List.isEmpty_iff]
  constructor
  · rintro ⟨d, rfl, _, ⟨n, hn, rfl⟩, _, ⟨_, hfield, rfl⟩, hne, path, ⟨rfl, hpath⟩, rfl, rfl⟩
    exact ⟨⟨n, path⟩, ⟨d, rfl, hn, hfield, fun h => hne (List.map_eq_nil_iff.mpr h), hpath⟩,
      rfl, rfl⟩
  · rintro ⟨⟨n, path⟩, ⟨d, rfl, hn, hfield, hne, hpath⟩, rfl, rfl⟩
    exact ⟨d, rfl, _, ⟨n, hn, rfl⟩, _, ⟨_, hfield, rfl⟩, fun h => hne (List.map_eq_nil_iff.mp h),
      path, ⟨rfl, hpath⟩, rfl, rfl⟩

/-- The total length of a list of entries. -/
def totalOf (es : List Entry) : Nat := (es.map Entry.length).sum

@[simp] theorem totalOf_nil : totalOf [] = 0 := rfl

@[simp] theorem totalOf_cons (e : Entry) (es : List Entry) :
    totalOf (e :: es) = e.length + totalOf es := by
  simp [totalOf]

/-- The files of a list of entries, one after another, from an index and an offset on. -/
def layOut (index offset : Nat) : List Entry → List File
  | [] => []
  | e :: es =>
    ⟨UInt64.ofNat index, UInt64.ofNat e.length, UInt64.ofNat offset, joinPath e.path⟩
      :: layOut (index + 1) (offset + e.length) es

/-- The first entry is read, its length is added to the offset, and the rest follows it. -/
theorem readFilesFrom_cons_eq_ok_iff {v : Value} {vs : List Value} {index : Nat} {offset : Count}
    {files : List File} {total : Count} :
    readFilesFrom index offset (v :: vs) = .ok (files, total) ↔
      ∃ e next rest, EntryIn v e ∧ offset.toNat + e.length = next.toNat ∧
        readFilesFrom (index + 1) next vs = .ok (rest, total) ∧
        ⟨UInt64.ofNat index, UInt64.ofNat e.length, offset, joinPath e.path⟩ :: rest = files := by
  rw [readFilesFrom, bind_eq_ok_iff]
  constructor
  · rintro ⟨⟨length, path⟩, hentry, h⟩
    obtain ⟨e, he, rfl, rfl⟩ := readFileEntry_eq_ok_iff.mp hentry
    dsimp only at h
    split at h
    · exact absurd h nofun
    · rename_i next hnext
      obtain ⟨⟨rest, total'⟩, hrest, hresult⟩ := bind_eq_ok_iff.mp h
      simp only [pure_eq_ok_iff, Prod.mk.injEq] at hresult
      obtain ⟨rfl, rfl⟩ := hresult
      rw [Count.add?_eq_some_iff, UInt64.toNat_ofNat_of_lt' he.length_lt] at hnext
      exact ⟨e, next, rest, he, hnext, hrest, rfl⟩
  · rintro ⟨e, next, rest, he, hnext, hrest, rfl⟩
    rw [← UInt64.toNat_ofNat_of_lt' he.length_lt] at hnext
    refine ⟨_, readFileEntry_eq_ok_iff.mpr ⟨e, he, rfl, rfl⟩, ?_⟩
    simp only [Count.add?_eq_some_iff.mpr hnext, hrest]
    rfl

/-- **The files of a list are laid out if every entry is right and the total is a count.** -/
theorem readFilesFrom_eq_ok_iff : ∀ {vs : List Value} {index : Nat} {offset : Count}
    {files : List File} {total : Count},
    readFilesFrom index offset vs = .ok (files, total) ↔
      ∃ es, Forall₂ EntryIn vs es ∧ offset.toNat + totalOf es = total.toNat ∧
        layOut index offset.toNat es = files
  | [], index, offset, files, total => by
    simp only [readFilesFrom, List.forall₂_nil_left_iff, exists_eq_left, totalOf_nil, Nat.add_zero,
      UInt64.toNat_inj, layOut, Except.ok.injEq, Prod.mk.injEq]
    exact and_comm
  | v :: vs, index, offset, files, total => by
    rw [readFilesFrom_cons_eq_ok_iff]
    constructor
    · rintro ⟨e, next, rest, he, hnext, hrest, rfl⟩
      obtain ⟨es, hes, htotal, rfl⟩ := readFilesFrom_eq_ok_iff.mp hrest
      refine ⟨e :: es, .cons he hes, ?_, ?_⟩
      · rw [totalOf_cons]
        omega
      · rw [layOut, hnext, UInt64.ofNat_toNat]
    · rintro ⟨es, hes, htotal, rfl⟩
      obtain ⟨e, es, he, htail, rfl⟩ := List.forall₂_cons_left_iff.mp hes
      rw [totalOf_cons] at htotal
      have hlt := total.toNat_lt
      -- no offset is beyond the total, so none is cut off
      have hnext : (UInt64.ofNat (offset.toNat + e.length)).toNat = offset.toNat + e.length :=
        UInt64.toNat_ofNat_of_lt' (by simp only [UInt64.size]; omega)
      have hrest : readFilesFrom (index + 1) (UInt64.ofNat (offset.toNat + e.length)) vs
          = .ok (layOut (index + 1) (offset.toNat + e.length) es, total) :=
        readFilesFrom_eq_ok_iff.mpr ⟨es, htail, by rw [hnext]; omega, by rw [hnext]⟩
      refine ⟨e, _, _, he, hnext.symm, hrest, ?_⟩
      rw [layOut, UInt64.ofNat_toNat]

/-- The content that the `info` dictionary describes: one file of the name of the torrent, or the
files of a list, whose total length must be a count. -/
inductive ContentIn (info : Dictionary Value) (name : String) : List File → Count → Bool → Prop
  | single {n : Nat} (hfiles : find? info "files" = none) (hlength : CountIn info "length" n) :
      ContentIn info name [⟨0, UInt64.ofNat n, 0, name⟩] (UInt64.ofNat n) false
  | listed {vs : List Value} {es : List Entry} (hfiles : find? info "files" = some (.list vs))
      (hentries : Forall₂ EntryIn vs es) (htotal : totalOf es ≤ Count.largest) :
      ContentIn info name (layOut 0 0 es) (UInt64.ofNat (totalOf es)) true

theorem readFiles_eq_ok_iff {info : Dictionary Value} {name : String} {files : List File}
    {total : Count} {isMultiFile : Bool} :
    readFiles name info = .ok (files, total, isMultiFile) ↔
      ContentIn info name files total isMultiFile := by
  unfold readFiles
  cases hfiles : find? info "files" with
  | none =>
    simp only [bind_eq_ok_iff, pure_eq_ok_iff, Field.required_eq_ok_iff, count_eq_ok_iff,
      Prod.mk.injEq]
    constructor
    · rintro ⟨_, ⟨n, hn, rfl⟩, rfl, rfl, rfl⟩
      exact .single hfiles hn
    · intro h
      cases h with
      | single _ hn => exact ⟨_, ⟨_, hn, rfl⟩, rfl, rfl, rfl⟩
      | listed hlist => rw [hfiles] at hlist; exact absurd hlist nofun
  | some v =>
    simp only [bind_eq_ok_iff, pure_eq_ok_iff, Field.list_eq_ok_iff, Prod.mk.injEq]
    constructor
    · rintro ⟨vs, rfl, ⟨_, total⟩, hread, rfl, rfl, rfl⟩
      obtain ⟨es, hes, htotal, rfl⟩ := readFilesFrom_eq_ok_iff.mp hread
      rw [UInt64.toNat_zero, Nat.zero_add] at htotal
      rw [← UInt64.ofNat_toNat (x := total), ← htotal]
      exact .listed hfiles hes (htotal ▸ total.toNat_le_largest)
    · intro h
      cases h with
      | single hnone => rw [hfiles] at hnone; exact absurd hnone nofun
      | listed hlist hes htotal =>
        rename_i vs es
        have hread : readFilesFrom 0 0 vs = .ok (layOut 0 0 es, UInt64.ofNat (totalOf es)) := by
          refine readFilesFrom_eq_ok_iff.mpr ⟨es, hes, ?_, rfl⟩
          rw [UInt64.toNat_zero, Nat.zero_add, UInt64.toNat_ofNat_of_lt']
          exact Nat.lt_succ_of_le htotal
        exact ⟨vs, Option.some.inj (hfiles.symm.trans hlist), _, hread, rfl, rfl, rfl⟩

/-! ## 4. Trackers and pieces -/

/-- The tiers of trackers in the document: none unless the field is there. -/
def TiersIn (root : Dictionary Value) (tiers : List (List String)) : Prop :=
  ∃ listed : Option (List (List String)),
    find? root "announce-list" = listed.map (fun ts => .list (ts.map textList)) ∧
      listed.getD [] = tiers

theorem readTier_eq_ok_iff {index : Nat} {v : Value} {urls : List String} :
    readTier index v = .ok urls ↔ v = textList urls := by
  have hread : ∀ {name : String} (i : Nat) v t, Field.text name v = .ok t ↔ v = .text t :=
    fun _ _ _ => Field.text_eq_ok_iff
  simp only [readTier, bind_eq_ok_iff, Field.list_eq_ok_iff, Field.each_eq_ok_iff hread,
    Field.forall₂_eq_map_iff, exists_eq_right, textList]

theorem readAnnounceList_eq_ok_iff {root : Dictionary Value} {tiers : List (List String)} :
    readAnnounceList root = .ok tiers ↔ TiersIn root tiers := by
  have hread : ∀ (i : Nat) v urls, readTier i v = .ok urls ↔ v = textList urls :=
    fun _ _ _ => readTier_eq_ok_iff
  unfold readAnnounceList TiersIn
  cases find? root "announce-list" with
  | none =>
    rw [Except.ok.injEq]
    constructor
    · rintro rfl
      exact ⟨none, rfl, rfl⟩
    · rintro ⟨listed, hlisted, rfl⟩
      rw [Option.map_eq_none_iff.mp hlisted.symm]
      rfl
  | some v =>
    simp only [bind_eq_ok_iff, Field.list_eq_ok_iff, Field.each_eq_ok_iff hread,
      Field.forall₂_eq_map_iff, exists_eq_right]
    constructor
    · rintro rfl
      exact ⟨some tiers, rfl, rfl⟩
    · rintro ⟨listed, hlisted, rfl⟩
      obtain ⟨ts, rfl, rfl⟩ := Option.map_eq_some_iff.mp hlisted.symm
      rfl

theorem readAnnounce_eq_ok_iff {readUrl : Net.UrlReader} {root : Dictionary Value}
    {announce : String} :
    readAnnounce readUrl root = .ok announce ↔
      find? root "announce" = some (.text announce) ∧ ∃ url, readUrl announce = .ok url := by
  simp only [readAnnounce, bind_eq_ok_iff, Field.required_eq_ok_iff, Field.text_eq_ok_iff]
  constructor
  · rintro ⟨t, ⟨_, hfield, rfl⟩, h⟩
    split at h
    · rename_i url hurl
      rw [pure_eq_ok_iff] at h
      exact h ▸ ⟨hfield, url, hurl⟩
    · exact absurd h nofun
  · rintro ⟨hfield, url, hurl⟩
    exact ⟨announce, ⟨_, hfield, rfl⟩, by rw [hurl]; rfl⟩

theorem readPieceLength_eq_ok_iff {info : Dictionary Value} {c : Count} :
    readPieceLength info = .ok c ↔
      ∃ n, CountIn info "piece length" n ∧ 0 < n ∧ UInt64.ofNat n = c := by
  simp only [readPieceLength, bind_eq_ok_iff, refuse_eq_ok_iff, pure_eq_ok_iff,
    Field.required_eq_ok_iff, Field.integer_eq_ok_iff]
  constructor
  · rintro ⟨i, ⟨_, hfield, rfl⟩, hpositive, rfl⟩
    exact ⟨i.toInt.toNat, ⟨i, hfield, by omega⟩, by omega, rfl⟩
  · rintro ⟨n, ⟨i, hfield, hi⟩, hpositive, rfl⟩
    exact ⟨i, ⟨_, hfield, rfl⟩, by omega, by rw [hi]; rfl⟩

/-- The bytes of the hashes, one after another. -/
def blobOf (hashes : List Digest) : Bytes := (hashes.map fun h => h.bytes).flatten

theorem length_blobOf (hashes : List Digest) : (blobOf hashes).length = 20 * hashes.length := by
  induction hashes with
  | nil => rfl
  | cons h hashes ih =>
    rw [blobOf, List.map_cons, List.flatten_cons, List.length_append, ← blobOf, ih, h.length_bytes,
      List.length_cons]
    omega

theorem mapM_ofBytes?_eq_some_iff : ∀ {bs : List Bytes} {hashes : List Digest},
    bs.mapM Digest.ofBytes? = some hashes ↔ bs = hashes.map fun h => h.bytes
  | [], hashes => by
    rw [List.mapM_nil, Option.pure_def, Option.some.injEq, eq_comm (a := []), eq_comm (a := []),
      List.map_eq_nil_iff]
  | b :: bs, hashes => by
    simp only [List.mapM_cons, Option.bind_eq_bind, Option.bind_eq_some_iff, Option.pure_def,
      Option.some.injEq, Digest.ofBytes?_eq_some_iff, mapM_ofBytes?_eq_some_iff]
    constructor
    · rintro ⟨h, rfl, hs, rfl, rfl⟩
      rfl
    · intro hcut
      obtain ⟨h, hs, rfl, rfl, rfl⟩ := List.map_eq_cons_iff.mp hcut.symm
      exact ⟨h, rfl, hs, rfl, rfl⟩

/-- A whole number of hashes is cut into the hashes whose bytes it is. -/
theorem mapM_chunks_eq_some_iff {blob : Bytes} {hashes : List Digest} (h : 20 ∣ blob.length) :
    (Bytes.chunks 20 (blob.length / 20) blob).mapM Digest.ofBytes? = some hashes ↔
      blobOf hashes = blob := by
  rw [mapM_ofBytes?_eq_some_iff]
  constructor
  · intro hcut
    rw [blobOf, ← hcut]
    exact Bytes.flatten_chunks 20 _ blob (by omega)
  · rintro rfl
    rw [length_blobOf, Nat.mul_div_cancel_left _ (by decide), blobOf]
    have hsize : ∀ b ∈ hashes.map fun h => h.bytes, b.length = 20 :=
      List.forall_mem_map.mpr fun h _ => h.length_bytes
    simpa using Bytes.chunks_flatten 20 _ hsize

theorem readPieces_eq_ok_iff {info : Dictionary Value} {hashes : List Digest} :
    readPieces info = .ok hashes ↔
      find? info "pieces" = some (.byteString (blobOf hashes)) ∧ hashes.length < UInt32.size := by
  simp only [readPieces, bind_eq_ok_iff, refuse_eq_ok_iff, mapError_eq_ok_iff,
    Field.required_eq_ok_iff, Field.bytes_eq_ok_iff]
  have hlength := length_blobOf hashes
  constructor
  · rintro ⟨blob, ⟨_, hfield, rfl⟩, hwhole, hmany, h⟩
    split at h
    · rename_i hashes' hread
      rw [pure_eq_ok_iff] at h
      subst h
      obtain rfl := (mapM_chunks_eq_some_iff (by omega)).mp hread
      exact ⟨hfield, by omega⟩
    · exact absurd h nofun
  · rintro ⟨hfield, hmany⟩
    refine ⟨_, ⟨_, hfield, rfl⟩, by omega, by omega, ?_⟩
    rw [(mapM_chunks_eq_some_iff (by omega)).mpr rfl]
    rfl

/-! ## 5. The document -/

variable {readUrl : Net.UrlReader}

/-- **The fields describe the metainfo**: those of the document itself and those of its `info`
dictionary.  Nothing is said about the info hash. -/
structure Describes (readUrl : Net.UrlReader) (root info : Dictionary Value) (m : Metainfo) :
    Prop where
  announce : find? root "announce" = some (.text m.announce)
  announceIsUrl : ∃ url, readUrl m.announce = .ok url
  announceList : TiersIn root m.announceList
  infoField : find? root "info" = some (.dictionary info)
  name : find? info "name" = some (.text m.name)
  nameIsComponent : IsComponent m.name
  pieceLength : ∃ n, CountIn info "piece length" n ∧ 0 < n ∧ UInt64.ofNat n = m.pieceLength
  pieces : find? info "pieces" = some (.byteString (blobOf m.pieces))
  pieceCount : m.pieces.length < UInt32.size
  content : ContentIn info m.name m.files m.totalLength m.isMultiFile
  privateFlag : ∃ flag : Option Int64, find? info "private" = flag.map .integer ∧
    decide (flag = some 1) = m.isPrivate
  comment : Field.looseText? root "comment" = m.comment
  createdBy : Field.looseText? root "created by" = m.createdBy
  creationDate : find? root "creation date" >>= Value.integer? = m.creationDate
  encoding : Field.looseText? root "encoding" = m.encoding

/-- Whatever the info hash is, the description fits. -/
theorem Describes.with_infoHash {root info : Dictionary Value} {m : Metainfo}
    (h : Describes readUrl root info m) (infoHash : Digest) :
    Describes readUrl root info { m with infoHash } :=
  { h with }

theorem readPrivate_eq_ok_iff {info : Dictionary Value} {flag : Option Int64} :
    Field.optional Field.integer info "private" = .ok flag ↔
      find? info "private" = flag.map .integer := by
  simp only [Field.optional_eq_ok_iff, Field.integer_eq_ok_iff]
  constructor
  · rintro (⟨hfield, rfl⟩ | ⟨_, i, hfield, rfl, rfl⟩)
    · exact hfield
    · exact hfield
  · intro hfield
    cases flag with
    | none => exact .inl ⟨hfield, rfl⟩
    | some i => exact .inr ⟨_, i, hfield, rfl, rfl⟩

/-- **What is read of a document.**  The fields decide all of the metainfo but its info hash,
which is the hash of the bytes that came with the document, or of its `info` dictionary as it is
written. -/
theorem readDocument_eq_ok_iff {root : Value} {raw : Option Bytes} {m : Metainfo} :
    (readDocument readUrl root raw).map Document.metainfo = .ok m ↔
      ∃ d info, root = .dictionary d ∧ Describes readUrl d info m ∧
        Sha1.hash (raw.getD (Value.dictionary info).encode) = m.infoHash := by
  -- each check becomes what it says of its field; the files are left for their own lemma, as
  -- the three parts of their result are taken apart by the document
  simp only [map_eq_ok_iff, readDocument, bind_eq_ok_iff, pure_eq_ok_iff, mapError_eq_ok_iff,
    Field.dictionary_eq_ok_iff, Field.required_eq_ok_iff, readAnnounce_eq_ok_iff,
    readAnnounceList_eq_ok_iff, readComponent_eq_ok_iff, readPieceLength_eq_ok_iff,
    readPieces_eq_ok_iff, readPrivate_eq_ok_iff]
  constructor
  · rintro ⟨_, ⟨d, rfl, announce, ⟨hannounce, hurl⟩, tiers, htiers, _, hinfo, info, rfl, name,
      ⟨_, hname, rfl, hcomponent⟩, pieceLength, hpieceLength, hashes, ⟨hpieces, hmany⟩,
      ⟨files, total, isMultiFile⟩, hfiles, flag, hflag, rfl⟩, rfl⟩
    refine ⟨d, info, rfl, ?_, rfl⟩
    exact ⟨hannounce, hurl, htiers, hinfo, hname, hcomponent, hpieceLength, hpieces, hmany,
      readFiles_eq_ok_iff.mp hfiles, ⟨flag, hflag, rfl⟩, rfl, rfl, rfl, rfl⟩
  · rintro ⟨d, info, rfl, h, hhash⟩
    obtain ⟨flag, hflag, hprivate⟩ := h.privateFlag
    refine ⟨_, ⟨d, rfl, m.announce, ⟨h.announce, h.announceIsUrl⟩, m.announceList, h.announceList,
      _, h.infoField, info, rfl, m.name, ⟨_, h.name, rfl, h.nameIsComponent⟩, m.pieceLength,
      h.pieceLength, m.pieces, ⟨h.pieces, h.pieceCount⟩, (m.files, m.totalLength, m.isMultiFile),
      readFiles_eq_ok_iff.mpr h.content, flag, hflag, rfl⟩, ?_⟩
    simp only [hhash, hprivate, h.comment, h.createdBy, h.creationDate, h.encoding]

/-- **What is noticed** about a document that is read: keys that are not known, and a number of
pieces that does not fit. -/
theorem notices_of_readDocument {root info : Dictionary Value} {raw : Option Bytes} {doc : Document}
    (h : readDocument readUrl (.dictionary root) raw = .ok doc)
    (hinfo : find? root "info" = some (.dictionary info)) :
    doc.notices = unknownKeys root ++ unknownKeys info ++ pieceMismatch doc.metainfo := by
  simp only [readDocument, bind_eq_ok_iff, pure_eq_ok_iff, mapError_eq_ok_iff,
    Field.dictionary_eq_ok_iff, Field.required_eq_ok_iff] at h
  obtain ⟨_, hroot, _, -, _, -, _, hinfo', _, rfl, _, -, _, -, _, -, ⟨_, _, _⟩, -, _, -, rfl⟩ := h
  obtain rfl := Value.dictionary.inj hroot
  obtain rfl := Value.dictionary.inj (Option.some.inj (hinfo.symm.trans hinfo'))
  rfl

end Swarm.Metainfo
