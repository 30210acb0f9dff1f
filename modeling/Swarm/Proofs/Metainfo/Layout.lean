/-
# Where the files stand in the content

Whatever document a metainfo is read from, its files follow one another without gap or overlap and
its total length is exactly theirs.  What carries this along the list is `InRow`: from an index and
an offset on, each file has the index, stands at the offset, and hands both on to the next.

* `InRow.existsUnique_holds`: a position between the first offset and the last is in one file;
* `InRow.laidOut`: parts of these lengths are the bytes of the files, one after another;
* `inRow_layOut`: the files of a list are in a row as long as no offset is cut off;
* `sound_of_read`: so the content of every metainfo that is read is `Sound`.
-/
import Mathlib.Logic.ExistsUnique
import Swarm.Net.Url.Reading
import Swarm.Proofs.Metainfo.HashSource
import Swarm.Proofs.Metainfo.Pieces

namespace Swarm.Metainfo

open Bencode
open Swarm.Field (find?)
open List (Forall₂)

/-! ## 1. Files in a row -/

/-- The file has this position of the content. -/
def File.Holds (f : File) (x : Nat) : Prop :=
  f.offset.toNat ≤ x ∧ x < f.offset.toNat + f.length.toNat

/-- **Files in a row**: they count up from an index, and each stands where the one before it ends,
from an offset on up to a stop. -/
inductive InRow : Nat → Nat → List File → Nat → Prop
  | nil {index stop : Nat} : InRow index stop [] stop
  | cons {index offset stop : Nat} {f : File} {rest : List File}
    (hindex : f.index = UInt64.ofNat index) (hoffset : f.offset.toNat = offset)
    (hrest : InRow (index + 1) (offset + f.length.toNat) rest stop) :
    InRow index offset (f :: rest) stop

namespace InRow

variable {index offset stop : Nat} {files : List File}

/-- The lengths are what lies between offset and stop. -/
theorem sum_lengths (h : InRow index offset files stop) :
    offset + (files.map fun f => f.length.toNat).sum = stop := by
  induction h with
  | nil => rfl
  | cons hindex hoffset hrest ih =>
    rw [List.map_cons, List.sum_cons]
    omega

theorem index_eq (h : InRow index offset files stop) :
    ∀ {i : Nat} {f : File}, files[i]? = some f → f.index = UInt64.ofNat (index + i) := by
  induction h with
  | nil => exact fun hf => absurd hf nofun
  | cons hindex hoffset hrest ih =>
    intro i g hg
    cases i with
    | zero => exact Option.some.inj hg ▸ hindex
    | succ i => rw [ih hg, Nat.add_right_comm, Nat.add_assoc]

theorem first_offset (h : InRow index offset files stop) {f : File} (hf : files[0]? = some f) :
    f.offset.toNat = offset := by
  cases h with
  | nil => exact absurd hf nofun
  | cons hindex hoffset hrest => exact Option.some.inj hf ▸ hoffset

/-- **A file ends where the next one stands.** -/
theorem next_offset (h : InRow index offset files stop) :
    ∀ {i : Nat} {f g : File}, files[i]? = some f → files[i + 1]? = some g →
      f.offset.toNat + f.length.toNat = g.offset.toNat := by
  induction h with
  | nil => exact fun hf => absurd hf nofun
  | cons hindex hoffset hrest ih =>
    intro i f g hf hg
    cases i with
    | zero =>
      obtain rfl := Option.some.inj hf
      rw [hoffset, hrest.first_offset hg]
    | succ i => exact ih hf hg

/-- No file reaches out of the row. -/
theorem bounds (h : InRow index offset files stop) :
    ∀ f ∈ files, offset ≤ f.offset.toNat ∧ f.offset.toNat + f.length.toNat ≤ stop := by
  induction h with
  | nil => exact nofun
  | cons hindex hoffset hrest ih =>
    have hsum := hrest.sum_lengths
    refine List.forall_mem_cons.mpr ⟨by omega, fun g hg => ?_⟩
    have hbounds := ih g hg
    omega

/-- **Every position of the row is in one file.** -/
theorem existsUnique_holds (h : InRow index offset files stop) :
    ∀ {x : Nat}, offset ≤ x → x < stop → ∃! i : Nat, ∃ f : File, files[i]? = some f ∧ f.Holds x := by
  induction h with
  | nil => exact fun hle hlt => absurd hlt (Nat.not_lt_of_le hle)
  | @cons index offset stop f rest hindex hoffset hrest ih =>
    intro x hle hlt
    by_cases hhere : x < offset + f.length.toNat
    · refine ⟨0, ⟨f, rfl, by omega, by omega⟩, ?_⟩
      rintro (_ | i) ⟨g, hg, hholds⟩
      · rfl
      · -- the files behind this one stand behind the position
        have hbounds := hrest.bounds g (List.mem_of_getElem? hg)
        have hfrom := hholds.1
        omega
    · obtain ⟨i, hi, hunique⟩ := ih (Nat.le_of_not_lt hhere) hlt
      refine ⟨i + 1, hi, ?_⟩
      rintro (_ | j) hj
      · obtain ⟨g, hg, hholds⟩ := hj
        obtain rfl := Option.some.inj hg
        have huntil := hholds.2
        omega
      · exact congrArg (· + 1) (hunique j hj)

/-- Files in a row hold the parts that have their lengths. -/
theorem laidOut (h : InRow index offset files stop) : ∀ {parts : List Bytes},
    (files.map fun f => f.length.toNat) = parts.map List.length →
      LaidOut offset (files.zip parts) := by
  induction h with
  | nil => exact fun _ => .nil
  | cons hindex hoffset hrest ih =>
    intro parts hlengths
    obtain ⟨part, parts, rfl, hlength, htail⟩ := List.map_eq_cons_iff.mp hlengths.symm
    refine .cons hoffset hlength.symm ?_
    rw [hlength]
    exact ih htail.symm

end InRow

/-- **The files of a list are in a row**, up to where their total length is a count. -/
theorem inRow_layOut : ∀ {es : List Entry} {index offset : Nat},
    offset + totalOf es < UInt64.size →
      InRow index offset (layOut index offset es) (offset + totalOf es)
  | [], _, _, _ => .nil
  | e :: es, index, offset, h => by
    rw [totalOf_cons] at h
    have hoffset : (UInt64.ofNat offset).toNat = offset := UInt64.toNat_ofNat_of_lt' (by omega)
    have hlength : (UInt64.ofNat e.length).toNat = e.length := UInt64.toNat_ofNat_of_lt' (by omega)
    refine .cons rfl hoffset ?_
    rw [hlength, totalOf_cons, ← Nat.add_assoc]
    exact inRow_layOut (by omega)

/-- Each file of a list has the path and the length of its entry. -/
theorem map_layOut : ∀ {es : List Entry} {index offset : Nat}, totalOf es < UInt64.size →
    (layOut index offset es).map (fun f => (f.path, f.length.toNat)) =
      es.map fun e => (joinPath e.path, e.length)
  | [], _, _, _ => rfl
  | e :: es, index, offset, h => by
    rw [totalOf_cons] at h
    have hlength : (UInt64.ofNat e.length).toNat = e.length := UInt64.toNat_ofNat_of_lt' (by omega)
    rw [layOut, List.map_cons, List.map_cons, map_layOut (by omega), hlength]

/-! ## 2. The content of a document -/

/-- **A layout of the content**: the files count up from 0, the first one stands at 0 and each of
the others where the one before it ends, and the total is the exact sum of their lengths, which is
a count.  So a position before the total is in one file, and no other position is in any. -/
structure IsLayout (files : List File) (total : Count) : Prop where
  index : ∀ i f, files[i]? = some f →
    f.index = UInt64.ofNat i ∧ (i < UInt64.size → f.index.toNat = i)
  first : ∀ f, files[0]? = some f → f.offset = 0
  next : ∀ i f g, files[i]? = some f → files[i + 1]? = some g →
    g.offset.toNat = f.offset.toNat + f.length.toNat
  sum : total.toNat = (files.map fun f => f.length.toNat).sum
  fits : (files.map fun f => f.length.toNat).sum < UInt64.size
  holds : ∀ x < total.toNat, ∃! i : Nat, ∃ f : File, files[i]? = some f ∧ f.Holds x
  only : ∀ f ∈ files, ∀ x, f.Holds x → x < total.toNat

theorem InRow.isLayout {files : List File} {total : Count} (h : InRow 0 0 files total.toNat) :
    IsLayout files total where
  index i f hf := by
    have hindex := h.index_eq hf
    rw [Nat.zero_add] at hindex
    exact ⟨hindex, fun hi => by rw [hindex, UInt64.toNat_ofNat_of_lt' hi]⟩
  first f hf := UInt64.toNat_inj.mp (h.first_offset hf)
  next i f g hf hg := (h.next_offset hf hg).symm
  sum := by rw [← h.sum_lengths, Nat.zero_add]
  fits := by
    have hsum := h.sum_lengths
    have hlt := total.toNat_lt
    simp only [UInt64.size]
    omega
  holds x hx := h.existsUnique_holds x.zero_le hx
  only f hf x hholds := Nat.lt_of_lt_of_le hholds.2 (h.bounds f hf).2

section

variable {info : Dictionary Value} {name : String} {files : List File} {total : Count}
  {isMultiFile : Bool}

/-- **The content that is described is in a row**, up to its total length. -/
theorem ContentIn.inRow (h : ContentIn info name files total isMultiFile) :
    InRow 0 0 files total.toNat := by
  cases h with
  | @single n hfiles hlength =>
    refine .cons rfl rfl ?_
    rw [Nat.zero_add (UInt64.toNat _)]
    exact .nil
  | @listed vs es hfiles hentries htotal =>
    have hlt : totalOf es < UInt64.size := Nat.lt_succ_of_le htotal
    have hrow : InRow 0 0 (layOut 0 0 es) (0 + totalOf es) := inRow_layOut (by omega)
    rwa [Nat.zero_add, ← UInt64.toNat_ofNat_of_lt' hlt] at hrow

theorem ContentIn.isMultiFile_iff (h : ContentIn info name files total isMultiFile) :
    isMultiFile = true ↔ ∃ v, find? info "files" = some v := by
  cases h with
  | single hfiles hlength =>
    rw [hfiles]
    exact ⟨nofun, fun ⟨_, hv⟩ => absurd hv nofun⟩
  | listed hfiles hentries htotal => exact ⟨fun _ => ⟨_, hfiles⟩, fun _ => rfl⟩

/-- The files of a list are those of its entries. -/
theorem ContentIn.exists_entries (h : ContentIn info name files total true) :
    ∃ vs es, find? info "files" = some (.list vs) ∧ Forall₂ EntryIn vs es ∧
      files.map (fun f => (f.path, f.length.toNat)) =
        es.map fun e => (joinPath e.path, e.length) := by
  cases h with
  | listed hfiles hentries htotal =>
    exact ⟨_, _, hfiles, hentries, map_layOut (Nat.lt_succ_of_le htotal)⟩

/-- Without a list there is one file, of the name of the torrent. -/
theorem ContentIn.exists_file (h : ContentIn info name files total false) :
    ∃ f, files = [f] ∧ f.path = name ∧ CountIn info "length" f.length.toNat := by
  cases h with
  | single hfiles hlength =>
    refine ⟨_, rfl, rfl, ?_⟩
    rwa [UInt64.toNat_ofNat_of_lt' hlength.lt]

end

/-- The bytes of the hashes are cut into them again. -/
theorem chunks_blobOf (hashes : List Digest) :
    Bytes.chunks 20 ((blobOf hashes).length / 20) (blobOf hashes) =
      hashes.map fun h => h.bytes :=
  mapM_ofBytes?_eq_some_iff.mp ((mapM_chunks_eq_some_iff ⟨_, length_blobOf hashes⟩).mpr rfl)

/-- **The content is sound**, as the `info` dictionary has it. -/
structure Sound (info : Dictionary Value) (m : Metainfo) : Prop where
  layout : IsLayout m.files m.totalLength
  pieceLength : 0 < m.pieceLength.toNat
  /-- The hashes are the consecutive blocks of twenty bytes. -/
  pieces : ∃ blob, find? info "pieces" = some (.byteString blob) ∧
    Bytes.chunks 20 (blob.length / 20) blob = m.pieces.map (fun h => h.bytes) ∧
    (m.pieces.map fun h => h.bytes).flatten = blob ∧ m.pieceCount * 20 = blob.length
  /-- The number of pieces is not cut off in 32 bits. -/
  pieceCount : (UInt32.ofNat m.pieceCount).toNat = m.pieceCount
  isMultiFile : m.isMultiFile = true ↔ ∃ v, find? info "files" = some v
  /-- The files of a list are those of its entries, one by one. -/
  listed : m.isMultiFile = true → ∃ vs es, find? info "files" = some (.list vs) ∧
    Forall₂ EntryIn vs es ∧ m.files.map (fun f => (f.path, f.length.toNat)) =
      es.map fun e => (joinPath e.path, e.length)
  /-- Without a list there is one file, which has the name of the torrent. -/
  single : m.isMultiFile = false → find? info "name" = some (.text m.name) ∧
    ∃ f, m.files = [f] ∧ f.path = m.name ∧ CountIn info "length" f.length.toNat

/-- **A description is of sound content.** -/
theorem Describes.sound {readUrl : Net.UrlReader} {root info : Dictionary Value} {m : Metainfo}
    (h : Describes readUrl root info m) : Sound info m where
  layout := h.content.inRow.isLayout
  pieceLength := by
    obtain ⟨n, hn, hpositive, hcount⟩ := h.pieceLength
    rwa [← hcount, UInt64.toNat_ofNat_of_lt' hn.lt]
  pieces := ⟨_, h.pieces, chunks_blobOf m.pieces, rfl,
    (Nat.mul_comm _ _).trans (length_blobOf m.pieces).symm⟩
  pieceCount := UInt32.toNat_ofNat_of_lt' h.pieceCount
  isMultiFile := h.content.isMultiFile_iff
  listed hmany := (hmany ▸ h.content).exists_entries
  single hone := ⟨h.name, (hone ▸ h.content).exists_file⟩

/-! ## 3. Documents that are read -/

/-- **Whatever is read has sound content**, from a value or from bytes and with either source of
the hash. -/
theorem sound_of_read (readUrl : Net.UrlReader) :
    (∀ root m, ofValue readUrl root = .ok m → ∃ d info, root = .dictionary d ∧
      find? d "info" = some (.dictionary info) ∧ Sound info m) ∧
    ∀ source data m, ofBytes readUrl source data = .ok m → ∃ d info,
      decode data = .ok (.dictionary d) ∧ find? d "info" = some (.dictionary info) ∧
        Sound info m := by
  constructor
  · intro root m h
    obtain ⟨d, info, rfl, hm, -⟩ := readDocument_eq_ok_iff.mp h
    exact ⟨d, info, rfl, hm.infoField, hm.sound⟩
  · intro source data m h
    obtain ⟨d, info, b, hd, hm, -⟩ := ofBytes_eq_ok_iff.mp h
    exact ⟨d, info, hd, hm.infoField, hm.sound⟩

/-- An empty file stands where the next one does, and holds no position. -/
theorem sound_of_read_emptyFile :
    let data := Text.utf8 <|
      "d8:announce9:http://t/4:infod5:filesld6:lengthi3e4:pathl1:aeed6:lengthi0e4:pathl1:bee" ++
      "d6:lengthi2e4:pathl1:ceee4:name1:n12:piece lengthi4e6:pieces0:ee"
    ∃ m d info, ofBytes Net.Url.readAscii .raw data = .ok m ∧ decode data = .ok (.dictionary d) ∧
      find? d "info" = some (.dictionary info) ∧ Sound info m ∧
      m.files.map (fun f => (f.index, f.offset, f.length)) = [(0, 0, 3), (1, 3, 0), (2, 3, 2)] := by
  intro data
  have hread : (ofBytes Net.Url.readAscii .raw data).map
      (fun m => m.files.map fun f => (f.index, f.offset, f.length)) =
      .ok [(0, 0, 3), (1, 3, 0), (2, 3, 2)] := by decide +kernel
  obtain ⟨m, hm, hfiles⟩ := map_eq_ok_iff.mp hread
  obtain ⟨d, info, hd, hinfo, hsound⟩ := (sound_of_read Net.Url.readAscii).2 .raw data m hm
  exact ⟨m, d, info, hm, hd, hinfo, hsound, hfiles⟩

end Swarm.Metainfo
