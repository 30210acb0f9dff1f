/-
# What is not read has no influence

Two documents are read side by side.  They differ in keys that no reader asks for, so every check
comes out for both alike, in the same order and with the same error (`Alike`).  There are three
levels on which keys are not read: in the document itself, in its `info` dictionary, and in the
entries of its list of files.  What stands there below `info` is hashed nevertheless, and nothing
else comes of it:

* `readFiles_congr`: the files are the same, each with its place and its path;
* `ofValue_ignores`: so is all of the metainfo but the hash, and the hash as well if the `info`
  dictionaries are equal.
-/
import Swarm.Proofs.Metainfo.HashSource
import Swarm.Proofs.Metainfo.Valid

namespace Swarm

/-! ## 1. Two runs -/

/-- **Two runs come out alike**: both fail with the same error, or what they give is related. -/
inductive Alike {ε α β : Type} (R : α → β → Prop) : Except ε α → Except ε β → Prop
  | error (e : ε) : Alike R (.error e) (.error e)
  | ok {a : α} {b : β} (h : R a b) : Alike R (.ok a) (.ok b)

namespace Alike

variable {ε δ α β γ α' β' : Type} {R : α → β → Prop} {S : α' → β' → Prop}

/-- Runs that come out alike go on alike. -/
theorem bind {x : Except ε α} {y : Except ε β} {f : α → Except ε α'} {g : β → Except ε β'}
    (h : Alike R x y) (hnext : ∀ a b, R a b → Alike S (f a) (g b)) :
    Alike S (x >>= f) (y >>= g) := by
  cases h with
  | error e => exact .error e
  | ok hab => exact hnext _ _ hab

/-- So do runs that begin with the same step. -/
theorem bind_same (x : Except ε γ) {f : γ → Except ε α'} {g : γ → Except ε β'}
    (hnext : ∀ c, Alike S (f c) (g c)) : Alike S (x >>= f) (x >>= g) := by
  cases x with
  | error e => exact .error e
  | ok c => exact hnext c

theorem mapError {x : Except ε α} {y : Except ε β} (h : Alike R x y) (f : ε → δ) :
    Alike R (x.mapError f) (y.mapError f) := by
  cases h with
  | error e => exact .error (f e)
  | ok hab => exact .ok hab

theorem map {x : Except ε α} {y : Except ε β} (h : Alike R x y) {f : α → α'} {g : β → β'}
    (hout : ∀ a b, R a b → S (f a) (g b)) : Alike S (x.map f) (y.map g) := by
  cases h with
  | error e => exact .error e
  | ok hab => exact .ok (hout _ _ hab)

end Alike

namespace Metainfo

open Bencode
open Swarm.Field (AgreeOn find?)
open List (Forall₂)

/-! ## 2. Documents that look the same -/

/-- The values are equal, or are dictionaries that look the same. -/
inductive DictionaryAlike (R : Dictionary Value → Dictionary Value → Prop) : Value → Value → Prop
  | same (v : Value) : DictionaryAlike R v v
  | dictionary {d d' : Dictionary Value} (h : R d d') :
    DictionaryAlike R (.dictionary d) (.dictionary d')

/-- Entries of a list of files that look the same. -/
abbrev EntryAlike : Value → Value → Prop := DictionaryAlike (AgreeOn entryKeys)

/-- The values are equal, or are lists of files whose entries look the same one by one. -/
inductive FilesAlike : Value → Value → Prop
  | same (v : Value) : FilesAlike v v
  | list {vs vs' : List Value} (h : Forall₂ EntryAlike vs vs') : FilesAlike (.list vs) (.list vs')

/-- The `info` dictionaries look the same.  A length counts only if there is no list of files. -/
structure InfoAlike (info info' : Dictionary Value) : Prop where
  fields : AgreeOn ["name", "piece length", "pieces", "private"] info info'
  files : Option.Rel FilesAlike (find? info "files") (find? info' "files")
  length : find? info "files" = none → find? info "length" = find? info' "length"

/-- The keys of a document that are read, besides its `info` dictionary. -/
def outerKeys : List String :=
  ["announce", "announce-list", "comment", "created by", "creation date", "encoding"]

/-- The documents look the same. -/
structure DocumentAlike (d d' : Dictionary Value) : Prop where
  fields : AgreeOn outerKeys d d'
  info : Option.Rel (DictionaryAlike InfoAlike) (find? d "info") (find? d' "info")

theorem optionRel_of_eq {R : Value → Value → Prop} (hrefl : ∀ v, R v v) {x y : Option Value}
    (h : x = y) : Option.Rel R x y := by
  subst h
  cases x with
  | none => exact .none
  | some v => exact .some (hrefl v)

theorem InfoAlike.refl (info : Dictionary Value) : InfoAlike info info :=
  ⟨AgreeOn.refl _ info, optionRel_of_eq .same rfl, fun _ => rfl⟩

/-! ## 3. The readers -/

theorem dictionary_alike {R : Dictionary Value → Dictionary Value → Prop} (hrefl : ∀ d, R d d)
    {v v' : Value} (h : DictionaryAlike R v v') (name : String) :
    Alike R (Field.dictionary name v) (Field.dictionary name v') := by
  cases h with
  | dictionary h => exact .ok h
  | same v =>
    cases v with
    | dictionary d => exact .ok (hrefl d)
    | integer _ | byteString _ | list _ => exact .error _

theorem required_alike {R : Value → Value → Prop} {d d' : Dictionary Value} {key : String}
    (h : Option.Rel R (find? d key) (find? d' key)) :
    Alike R (Field.required d key) (Field.required d' key) := by
  unfold Field.required Field.requiredAs
  generalize find? d key = value, find? d' key = value' at h ⊢
  cases h with
  | none => exact .error _
  | some hv => exact .ok hv

section Fields

variable {d d' : Dictionary Value}

theorem readAnnounce_congr (readUrl : Net.UrlReader) (h : AgreeOn outerKeys d d') :
    readAnnounce readUrl d = readAnnounce readUrl d' := by
  rw [readAnnounce, Field.required_congr (h "announce" (by simp [outerKeys])), readAnnounce]

theorem readAnnounceList_congr (h : AgreeOn outerKeys d d') :
    readAnnounceList d = readAnnounceList d' := by
  rw [readAnnounceList, h "announce-list" (by simp [outerKeys]), readAnnounceList]

theorem readPieceLength_congr (h : InfoAlike d d') : readPieceLength d = readPieceLength d' := by
  rw [readPieceLength, Field.required_congr (h.fields "piece length" (by simp)), readPieceLength]

theorem readPieces_congr (h : InfoAlike d d') : readPieces d = readPieces d' := by
  rw [readPieces, Field.required_congr (h.fields "pieces" (by simp)), readPieces]

end Fields

theorem readFileEntry_congr {v v' : Value} (h : EntryAlike v v') (index : Nat) :
    readFileEntry index v = readFileEntry index v' := by
  cases h with
  | same => rfl
  | dictionary h =>
    have hlength := Field.requiredAs_congr (h "length" (by simp [entryKeys]))
    have hpath := Field.requiredAs_congr (h "path" (by simp [entryKeys]))
    simp only [readFileEntry, Field.dictionary, ok_bind, hlength, hpath]

/-- **Lists of files that look the same are laid out the same**, or fail in the same entry. -/
theorem readFilesFrom_congr {vs vs' : List Value} (h : Forall₂ EntryAlike vs vs') (index : Nat)
    (offset : Count) : readFilesFrom index offset vs = readFilesFrom index offset vs' := by
  induction h generalizing index offset with
  | nil => rfl
  | cons hentry _ ih => simp only [readFilesFrom, readFileEntry_congr hentry, ih]

theorem readFiles_congr {info info' : Dictionary Value} (h : InfoAlike info info')
    (name : String) : readFiles name info = readFiles name info' := by
  have hfiles := h.files
  have hlength := h.length
  unfold readFiles
  generalize find? info "files" = files, find? info' "files" = files' at hfiles hlength ⊢
  cases hfiles with
  | none => rw [Field.required_congr (hlength rfl)]
  | some hv =>
    cases hv with
    | same => rfl
    | list hentries => simp only [Field.list, ok_bind, readFilesFrom_congr hentries]

/-! ## 4. The document -/

/-- The metainfos are equal but for the hash. -/
def EqualButHash (m m' : Metainfo) : Prop := m' = { m with infoHash := m'.infoHash }

/-- **Documents that look the same** are refused with the same error, or give metainfos that differ
in their hash only. -/
theorem ofValue_alike (readUrl : Net.UrlReader) {d d' : Dictionary Value} (h : DocumentAlike d d') :
    Alike EqualButHash (ofValue readUrl (.dictionary d)) (ofValue readUrl (.dictionary d')) := by
  refine Alike.map (R := fun a b => EqualButHash a.metainfo b.metainfo) ?_ fun _ _ hsame => hsame
  rw [readDocument, readDocument]
  refine Alike.bind (R := DocumentAlike) (.ok h) fun d d' h => ?_
  rw [readAnnounce_congr readUrl h.fields, readAnnounceList_congr h.fields]
  refine Alike.bind_same _ fun announce => ?_
  refine Alike.bind_same _ fun announceList => ?_
  refine Alike.bind ((required_alike h.info).mapError _) fun v v' hinfo => ?_
  refine Alike.bind ((dictionary_alike .refl hinfo _).mapError _) fun info info' hinfo => ?_
  -- What is hashed differs from here on, but no later check looks at the hash.
  rw [Field.required_congr (hinfo.fields "name" (by simp)), readPieceLength_congr hinfo,
    readPieces_congr hinfo, Field.optional_congr (hinfo.fields "private" (by simp))]
  refine Alike.bind_same _ fun name => ?_
  refine Alike.bind_same _ fun pieceLength => ?_
  refine Alike.bind_same _ fun pieces => ?_
  rw [readFiles_congr hinfo]
  refine Alike.bind_same _ fun read => ?_
  obtain ⟨files, totalLength, isMultiFile⟩ := read
  refine Alike.bind_same _ fun privateFlag => .ok ?_
  have hcomment := Field.looseText?_congr (h.fields "comment" (by simp [outerKeys]))
  have hcreator := Field.looseText?_congr (h.fields "created by" (by simp [outerKeys]))
  have hdate := h.fields "creation date" (by simp [outerKeys])
  have hencoding := Field.looseText?_congr (h.fields "encoding" (by simp [outerKeys]))
  simp only [EqualButHash, hcomment, hcreator, hdate, hencoding]

/-- Documents that agree in every key that is read give the same, the hash included: their `info`
dictionaries are equal. -/
theorem ofValue_congr (readUrl : Net.UrlReader) {d d' : Dictionary Value}
    (h : AgreeOn ("info" :: outerKeys) d d') :
    ofValue readUrl (.dictionary d) = ofValue readUrl (.dictionary d') := by
  have hinfo : find? d "info" = find? d' "info" := h "info" (by simp)
  have halike : DocumentAlike d d' :=
    ⟨fun key hkey => h key (List.mem_cons_of_mem _ hkey), optionRel_of_eq .same hinfo⟩
  have hread := ofValue_alike readUrl halike
  generalize hx : ofValue readUrl (.dictionary d) = x, hx' : ofValue readUrl (.dictionary d') = x'
    at hread
  cases hread with
  | error e => rfl
  | @ok m m' hsame =>
    obtain ⟨_, info, ⟨⟩, hfield, hhash⟩ := infoHash_of_ofValue hx
    obtain ⟨_, info', ⟨⟩, hfield', hhash'⟩ := infoHash_of_ofValue hx'
    obtain rfl : info = info' := Option.some.inj (hfield.symm.trans (hinfo.trans hfield'))
    rw [hsame, hhash', ← hhash]

/-- **What is not read has no influence.**  Documents that agree in the keys that are read give the
same metainfo or the same error.  If their `info` dictionaries differ as well, but only in keys that
are not read, there or in the entries of the list of files, or in the length beside such a list,
then both are refused with the same error, or the hash is all in which the metainfos differ. -/
theorem ofValue_ignores (readUrl : Net.UrlReader) (d d' : Dictionary Value) :
    (AgreeOn ("info" :: outerKeys) d d' →
        ofValue readUrl (.dictionary d) = ofValue readUrl (.dictionary d')) ∧
      (DocumentAlike d d' →
        Alike EqualButHash (ofValue readUrl (.dictionary d))
          (ofValue readUrl (.dictionary d'))) :=
  ⟨ofValue_congr readUrl, ofValue_alike readUrl⟩

/-- A stray length beside the list of files, a checksum in an entry of it and a list of nodes in the
document make no difference, whatever is written there. -/
theorem ofValue_ignores_strays :
    let fields (fs : List (String × Value)) : Dictionary Value :=
      Dictionary.ofList (fs.map fun f => (Text.utf8 f.1, f.2))
    let document (nodes length checksum : Value) : Dictionary Value :=
      let file := fields [("length", .integer 5), ("md5sum", checksum), ("path", .list [.text "b"])]
      let info := fields [("files", .list [.dictionary file]), ("length", length),
        ("name", .text "a"), ("piece length", .integer 4), ("pieces", .byteString [])]
      fields [("announce", .text "http://t/"), ("info", .dictionary info), ("nodes", nodes)]
    let d := document (.list []) (.integer 7) (.text "x")
    let e := document (.integer 0) (.integer 7) (.text "x")
    let d' := document (.integer 0) (.list []) (.integer (-1))
    let read (d : Dictionary Value) := ofValue Net.Url.readAscii (.dictionary d)
    AgreeOn ("info" :: outerKeys) d e ∧ read d = read e ∧ DocumentAlike d d' ∧
      ∃ m m', read d = .ok m ∧ read d' = .ok m' ∧ EqualButHash m m' := by
  intro fields document d e d' read
  have hagree : AgreeOn ("info" :: outerKeys) d e := by decide +kernel
  have halike : DocumentAlike d d' := by
    refine ⟨by decide +kernel, .some (.dictionary ⟨by decide +kernel, .some (.list ?_), nofun⟩)⟩
    exact .cons (.dictionary (by decide +kernel)) .nil
  have hread : (read d).isOk = true := by decide +kernel
  refine ⟨hagree, (ofValue_ignores Net.Url.readAscii d e).1 hagree, halike, ?_⟩
  have hboth : Alike EqualButHash (read d) (read d') :=
    (ofValue_ignores Net.Url.readAscii d d').2 halike
  generalize read d = x, read d' = x' at hread hboth
  cases hboth with
  | error e => exact absurd hread nofun
  | @ok m m' hsame => exact ⟨m, m', rfl, rfl, hsame⟩

end Metainfo
end Swarm
