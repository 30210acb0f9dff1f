/-
# Pieces and the files they have bytes in

Content can be looked at in two ways: it is cut into pieces of one length, and it is laid out as
files one after another.  Both are cuts of the same bytes:

* `Bytes.getElem?_blocks_eq_some_iff`: a piece is what lies between two multiples of the length;
* `LaidOut.flatMap_cut`: what lies between two places of the content is what the files have
  there, file by file;
* `LaidOut.flatMap_cut_overlapping`: and the files that do not overlap have nothing there.

`Covers` says that a metainfo describes content in both ways.  From it follow the arithmetic of
the pieces (`Covers.pieceSize_eq`, `Covers.sum_pieceSizes`), which is done in counts of 64 bits
and cut off nowhere, and what a piece is checked against (`Covers.verifyPiece_eq`,
`Covers.filesOfPiece_eq`).
-/
import Mathlib.Algebra.Ring.Nat
import Mathlib.Data.List.Basic
import Swarm.Metainfo.Reading

namespace Swarm

/-! ## 1. Pieces as blocks -/

namespace Bytes

/-- What lies from one place on and before another. -/
def between (start stop : Nat) (s : Bytes) : Bytes := (s.take stop).drop start

/-- In two byte strings, one behind the other, the places of the second are counted anew. -/
theorem between_append (start stop : Nat) (a b : Bytes) :
    between start stop (a ++ b) =
      between start stop a ++ between (start - a.length) (stop - a.length) b := by
  unfold between
  rw [List.take_append, List.drop_append, List.length_take]
  by_cases hstop : a.length ≤ stop
  · rw [Nat.min_eq_right hstop]
  · have hnone : stop - a.length = 0 := by omega
    rw [hnone, List.take_zero, List.drop_nil, List.drop_nil]

theorem between_eq_nil_of_length_le {start : Nat} {s : Bytes} (h : s.length ≤ start) (stop : Nat) :
    between start stop s = [] := by
  refine List.drop_eq_nil_of_le ?_
  rw [List.length_take]
  omega

theorem between_zero (start : Nat) (s : Bytes) : between start 0 s = [] := by
  rw [between, List.take_zero, List.drop_nil]

/-- A place lies in one of the blocks that the length needs if it lies before the end. -/
theorem lt_blocks_iff {size : Nat} (h : 0 < size) (i length : Nat) :
    i < (length + size - 1) / size ↔ i * size < length := by
  rw [← Nat.succ_le_iff, Nat.le_div_iff_mul_le h, Nat.succ_mul]
  omega

/-- **A block is what lies between two multiples of the size**, or before the end. -/
theorem getElem?_blocks_eq_some_iff {size : Nat} (h : 0 < size) {s block : Bytes} {i : Nat} :
    (blocks size s)[i]? = some block ↔
      i * size < s.length ∧ (s.drop (i * size)).take size = block := by
  rw [blocks, getElem?_chunks, Option.ite_none_right_eq_some, Option.some.injEq, lt_blocks_iff h]

end Bytes

/-! ## 2. Files one after another -/

namespace Metainfo

open Bytes (between blocks)

/-- What the file has between two places of the content. -/
def File.cut (f : File) (data : Bytes) (start stop : Nat) : Bytes :=
  between (start - f.offset.toNat) (stop - f.offset.toNat) data

/-- Files and their bytes, one after another from an offset on. -/
inductive LaidOut : Nat → List (File × Bytes) → Prop
  | nil {offset : Nat} : LaidOut offset []
  | cons {offset : Nat} {f : File} {data : Bytes} {rest : List (File × Bytes)}
    (hoffset : f.offset.toNat = offset) (hlength : f.length.toNat = data.length)
    (hrest : LaidOut (offset + data.length) rest) : LaidOut offset ((f, data) :: rest)

/-- The bytes of files, one after another. -/
def bytesOf (held : List (File × Bytes)) : Bytes := held.flatMap Prod.snd

theorem bytesOf_cons (f : File) (data : Bytes) (rest : List (File × Bytes)) :
    bytesOf ((f, data) :: rest) = data ++ bytesOf rest :=
  List.flatMap_cons

/-- **Between two places lies what the files have there.** -/
theorem LaidOut.flatMap_cut {offset : Nat} {held : List (File × Bytes)} (h : LaidOut offset held)
    (start stop : Nat) :
    held.flatMap (fun e => e.1.cut e.2 start stop) =
      between (start - offset) (stop - offset) (bytesOf held) := by
  induction h with
  | nil => simp [bytesOf, between]
  | cons hoffset hlength hrest ih =>
    subst hoffset
    rw [List.flatMap_cons, ih, bytesOf_cons, Bytes.between_append, Nat.sub_sub, Nat.sub_sub]
    rfl

/-- No file reaches beyond the end. -/
theorem LaidOut.le_of_mem {offset : Nat} {held : List (File × Bytes)} (h : LaidOut offset held) :
    ∀ e ∈ held, e.1.length.toNat = e.2.length ∧
      e.1.offset.toNat + e.2.length ≤ offset + (bytesOf held).length := by
  induction h with
  | nil => exact nofun
  | cons hoffset hlength hrest ih =>
    subst hoffset
    rw [bytesOf_cons, List.length_append]
    refine List.forall_mem_cons.mpr ⟨⟨hlength, ?_⟩, fun e he => ?_⟩
    · exact Nat.add_le_add_left (Nat.le_add_right _ _) _
    · obtain ⟨hlength, hle⟩ := ih e he
      exact ⟨hlength, by omega⟩

/-- What is compared when a file is asked whether a range touches it. -/
theorem File.overlaps_iff {f : File} {start stop : Count} :
    f.overlaps start stop = true ↔ 0 < f.length.toNat ∧
      start.toNat < min (f.offset.toNat + f.length.toNat) Count.largest ∧
        f.offset.toNat < stop.toNat := by
  rw [← Count.toNat_addSat]
  simp only [overlaps, Bool.and_eq_true, decide_eq_true_eq, UInt64.lt_iff_toNat_lt,
    UInt64.toNat_zero, and_assoc]

/-- **A file that is not touched has nothing there.** -/
theorem File.cut_eq_nil {f : File} {data : Bytes} {start stop : Count}
    (hlength : f.length.toNat = data.length) (hle : f.offset.toNat + data.length ≤ Count.largest)
    (h : f.overlaps start stop = false) : f.cut data start.toNat stop.toNat = [] := by
  have hnot : ¬ f.overlaps start stop = true := by
    rw [h]
    exact Bool.false_ne_true
  rw [overlaps_iff, hlength, Nat.min_eq_left hle] at hnot
  unfold cut
  by_cases hbefore : stop.toNat ≤ f.offset.toNat
  · rw [Nat.sub_eq_zero_of_le hbefore]
    exact Bytes.between_zero _ _
  · exact Bytes.between_eq_nil_of_length_le (by omega) _

/-- What comes to nothing can be left out. -/
theorem flatMap_filter_of_nil {α β : Type} {p : α → Bool} {f : α → List β} : ∀ {xs : List α},
    (∀ x ∈ xs, p x = false → f x = []) → (xs.filter p).flatMap f = xs.flatMap f
  | [], _ => rfl
  | x :: xs, h => by
    obtain ⟨hx, hxs⟩ := List.forall_mem_cons.mp h
    cases hp : p x with
    | true =>
      rw [List.filter_cons_of_pos hp, List.flatMap_cons, List.flatMap_cons,
        flatMap_filter_of_nil hxs]
    | false =>
      rw [List.filter_cons_of_neg (by simp [hp]), List.flatMap_cons, hx hp, List.nil_append,
        flatMap_filter_of_nil hxs]

/-- So only the files that overlap count. -/
theorem LaidOut.flatMap_cut_overlapping {held : List (File × Bytes)} (h : LaidOut 0 held)
    (htotal : (bytesOf held).length ≤ Count.largest) (start stop : Count) :
    (held.filter fun e => e.1.overlaps start stop).flatMap
        (fun e => e.1.cut e.2 start.toNat stop.toNat) =
      between start.toNat stop.toNat (bytesOf held) := by
  rw [flatMap_filter_of_nil, h.flatMap_cut, Nat.sub_zero, Nat.sub_zero]
  intro e he hapart
  obtain ⟨hlength, hle⟩ := h.le_of_mem e he
  exact File.cut_eq_nil hlength (by omega) hapart

/-! ## 3. The arithmetic of pieces -/

/-- The quotient that is rounded up. -/
theorem div_add_ite_mod {size : Nat} (h : 0 < size) (length : Nat) :
    length / size + (if length % size = 0 then 0 else 1) = (length + size - 1) / size := by
  have hsplit := Nat.mod_add_div length size
  have hmod := Nat.mod_lt length h
  by_cases hwhole : length % size = 0
  · have hsum : length + size - 1 = size - 1 + size * (length / size) := by omega
    have hrest : (size - 1) / size = 0 := Nat.div_eq_of_lt (by omega)
    rw [if_pos hwhole, hsum, Nat.add_mul_div_left _ _ h, hrest, Nat.zero_add, Nat.add_zero]
  · have hsum : length + size - 1 = length % size - 1 + size * (length / size + 1) := by
      rw [Nat.mul_succ]
      omega
    have hrest : (length % size - 1) / size = 0 := Nat.div_eq_of_lt (by omega)
    rw [if_neg hwhole, hsum, Nat.add_mul_div_left _ _ h, hrest, Nat.zero_add]

section

variable {m : Metainfo}

/-- **The content needs as many pieces as the rounded quotient says.** -/
theorem toNat_neededPieces (h : 0 < m.pieceLength.toNat) : m.neededPieces.toNat =
    (m.totalLength.toNat + m.pieceLength.toNat - 1) / m.pieceLength.toNat := by
  have hmod := Nat.mod_lt m.totalLength.toNat h
  have hlt := m.totalLength.toNat_lt
  have hzero : m.totalLength % m.pieceLength = 0 ↔
      m.totalLength.toNat % m.pieceLength.toNat = 0 := by
    rw [← UInt64.toNat_inj, UInt64.toNat_mod, UInt64.toNat_zero]
  rw [← div_add_ite_mod h, neededPieces]
  by_cases hwhole : m.totalLength.toNat % m.pieceLength.toNat = 0
  · rw [if_pos hwhole, if_pos (hzero.mpr hwhole), UInt64.add_zero, UInt64.toNat_div, Nat.add_zero]
  · -- a quotient with a remainder is at most half of what is divided
    have hhalf : m.totalLength.toNat / m.pieceLength.toNat ≤ m.totalLength.toNat / 2 :=
      Nat.div_le_div_left (by omega) (by decide)
    rw [if_neg hwhole, if_neg fun h => hwhole (hzero.mp h), UInt64.toNat_add, UInt64.toNat_div,
      UInt64.toNat_one, Nat.mod_eq_of_lt (by omega)]

/-- The last piece has what the others leave of the content, and not more than the length of all
pieces, however many pieces there are. -/
theorem toNat_lastPieceLength {i : Nat} (hi : i + 1 = m.pieceCount)
    (hcount : m.pieceCount ≤ UInt64.size) :
    m.lastPieceLength.toNat =
      min (m.totalLength.toNat - i * m.pieceLength.toNat) m.pieceLength.toNat := by
  have hsome : ¬ m.pieces.isEmpty = true := by
    rw [List.isEmpty_iff_length_eq_zero]
    exact fun hnone => absurd (hi.trans hnone) (Nat.succ_ne_zero i)
  have hle := m.totalLength.toNat_le_largest
  have hindex : (UInt64.ofNat (m.pieceCount - 1)).toNat = i := by
    rw [← hi, Nat.add_sub_cancel, UInt64.toNat_ofNat_of_lt' (by omega)]
  rw [lastPieceLength, if_neg hsome, UInt64.toNat_min, Count.toNat_subSat, Count.toNat_mulSat,
    hindex]
  omega

/-- **The length of a piece.**  The last one has what is left; all others have the length of the
pieces. -/
theorem pieceSize_of_lt {index : UInt32} (hi : index.toNat < m.pieceCount)
    (hcount : m.pieceCount ≤ UInt64.size) :
    ∃ size, m.pieceSize index = .ok size ∧ size.toNat =
      if index.toNat + 1 = m.pieceCount then
        min (m.totalLength.toNat - index.toNat * m.pieceLength.toNat) m.pieceLength.toNat
      else m.pieceLength.toNat := by
  have hcheck : m.checkPiece index = .ok () := if_pos hi
  rw [pieceSize, hcheck]
  refine ⟨_, rfl, ?_⟩
  split
  · rename_i hlast
    exact toNat_lastPieceLength hlast hcount
  · rfl

end

/-- **The metainfo describes this content**, which is that of these files: its hashes are those
of the blocks, and its files are laid out as they are. -/
structure Covers (m : Metainfo) (parts : List Bytes) : Prop where
  positive : 0 < m.pieceLength.toNat
  pieces : m.pieces = (blocks m.pieceLength.toNat parts.flatten).map Sha1.hash
  total : m.totalLength.toNat = parts.flatten.length
  files : m.files.length = parts.length
  laidOut : LaidOut 0 (m.files.zip parts)

namespace Covers

variable {m : Metainfo} {parts : List Bytes}

theorem pieceCount_eq (h : Covers m parts) :
    m.pieceCount = (blocks m.pieceLength.toNat parts.flatten).length := by
  rw [pieceCount, h.pieces, List.length_map]

/-- A piece that is there begins before the end of the content. -/
theorem lt_pieceCount_iff (h : Covers m parts) (i : Nat) :
    i < m.pieceCount ↔ i * m.pieceLength.toNat < m.totalLength.toNat := by
  rw [h.pieceCount_eq, blocks, Bytes.length_chunks, Bytes.lt_blocks_iff h.positive, h.total]

/-- **The content needs as many pieces as there are.** -/
theorem neededPieces_eq (h : Covers m parts) : m.neededPieces.toNat = m.pieceCount := by
  rw [toNat_neededPieces h.positive, h.pieceCount_eq, blocks, Bytes.length_chunks, h.total]

/-- What lies before a piece is counted exactly. -/
theorem toNat_mulSat (h : Covers m parts) {i : Count} (hi : i.toNat < m.pieceCount) :
    (Count.mulSat i m.pieceLength).toNat = i.toNat * m.pieceLength.toNat := by
  have hlt := (h.lt_pieceCount_iff i.toNat).mp hi
  have hle := m.totalLength.toNat_le_largest
  rw [Count.toNat_mulSat]
  omega

/-- The pieces are counted in 64 bits, as the bytes are. -/
theorem pieceCount_le (h : Covers m parts) : m.pieceCount ≤ UInt64.size := by
  refine Nat.le_of_not_lt fun hmany => ?_
  have hlt := (h.lt_pieceCount_iff UInt64.size).mp hmany
  have hmul := Nat.le_mul_of_pos_right UInt64.size h.positive
  have htotal := m.totalLength.toNat_lt
  simp only [UInt64.size] at *
  omega

/-- **The length of a piece**: what is left from its first byte on, and not more than the length
of all pieces. -/
theorem pieceSize_eq (h : Covers m parts) {index : UInt32} (hi : index.toNat < m.pieceCount) :
    ∃ size, m.pieceSize index = .ok size ∧ size.toNat =
      min (m.totalLength.toNat - index.toNat * m.pieceLength.toNat) m.pieceLength.toNat := by
  obtain ⟨size, hsize, hlength⟩ := pieceSize_of_lt hi h.pieceCount_le
  refine ⟨size, hsize, ?_⟩
  split at hlength
  · exact hlength
  · -- the piece behind this one begins before the end
    rename_i hmore
    have hnext := (h.lt_pieceCount_iff (index.toNat + 1)).mp (by omega)
    rw [Nat.succ_mul] at hnext
    omega

/-! ## 4. What a piece is checked against -/

/-- A piece is one of the blocks. -/
theorem lt_pieceCount (h : Covers m parts) {i : Nat} {chunk : Bytes}
    (hchunk : (blocks m.pieceLength.toNat parts.flatten)[i]? = some chunk) : i < m.pieceCount := by
  rw [h.pieceCount_eq]
  exact (List.getElem?_eq_some_iff.mp hchunk).1

theorem length_chunk (h : Covers m parts) {i : Nat} {chunk : Bytes}
    (hchunk : (blocks m.pieceLength.toNat parts.flatten)[i]? = some chunk) :
    chunk.length =
      min (m.totalLength.toNat - i * m.pieceLength.toNat) m.pieceLength.toNat := by
  obtain ⟨-, rfl⟩ := (Bytes.getElem?_blocks_eq_some_iff h.positive).mp hchunk
  rw [List.length_take, List.length_drop, ← h.total, Nat.min_comm]

/-- **A piece has the length that is told.** -/
theorem pieceSize_chunk (h : Covers m parts) {index : UInt32} {chunk : Bytes}
    (hchunk : (blocks m.pieceLength.toNat parts.flatten)[index.toNat]? = some chunk) :
    ∃ size, m.pieceSize index = .ok size ∧ size.toNat = chunk.length := by
  rw [h.length_chunk hchunk]
  exact h.pieceSize_eq (h.lt_pieceCount hchunk)

/-- **A piece has the hash that it must have.** -/
theorem verifyPiece_chunk (h : Covers m parts) {index : UInt32} {chunk : Bytes}
    (hchunk : (blocks m.pieceLength.toNat parts.flatten)[index.toNat]? = some chunk) :
    m.verifyPiece index chunk = .ok true := by
  have hhash : m.pieces[index.toNat]? = some (Sha1.hash chunk) := by
    rw [h.pieces, List.getElem?_map, hchunk]
    rfl
  have hexpected : m.pieceHash index = .ok (Sha1.hash chunk) := by
    rw [pieceHash, hhash]
  rw [verifyPiece, hexpected]
  exact congrArg Except.ok (decide_eq_true rfl)

/-- A piece is what lies in its range. -/
theorem between_chunk (h : Covers m parts) {i : Nat} {chunk : Bytes}
    (hchunk : (blocks m.pieceLength.toNat parts.flatten)[i]? = some chunk) :
    between (i * m.pieceLength.toNat) (i * m.pieceLength.toNat + chunk.length) parts.flatten =
      chunk := by
  have hlength := h.length_chunk hchunk
  obtain ⟨-, rfl⟩ := (Bytes.getElem?_blocks_eq_some_iff h.positive).mp hchunk
  rw [between, List.drop_take, Nat.add_sub_cancel_left, List.length_take,
    ← List.take_eq_take_min]

/-- The files with their bytes. -/
theorem bytesOf_zip (h : Covers m parts) : bytesOf (m.files.zip parts) = parts.flatten := by
  rw [bytesOf, List.flatMap_def, List.map_snd_zip (Nat.le_of_eq h.files.symm)]

/-- **A piece is what its files have in its range**, one after another. -/
theorem filesOfPiece_chunk (h : Covers m parts) {index : UInt32} {chunk : Bytes}
    (hchunk : (blocks m.pieceLength.toNat parts.flatten)[index.toNat]? = some chunk) :
    ∃ held : List (File × Bytes), held.Sublist (m.files.zip parts) ∧
      m.filesOfPiece index = .ok (held.map Prod.fst) ∧
      held.flatMap (fun e => e.1.cut e.2 (index.toNat * m.pieceLength.toNat)
        (index.toNat * m.pieceLength.toNat + chunk.length)) = chunk := by
  obtain ⟨size, hsize, hlength⟩ := h.pieceSize_chunk hchunk
  have hindex : index.toUInt64.toNat < m.pieceCount := by
    rw [UInt32.toNat_toUInt64]
    exact h.lt_pieceCount hchunk
  have hstart : (Count.mulSat index.toUInt64 m.pieceLength).toNat =
      index.toNat * m.pieceLength.toNat := by
    rw [h.toNat_mulSat hindex, UInt32.toNat_toUInt64]
  have hstop : (Count.addSat (Count.mulSat index.toUInt64 m.pieceLength) size).toNat =
      index.toNat * m.pieceLength.toNat + chunk.length := by
    have hlt := (h.lt_pieceCount_iff _).mp (h.lt_pieceCount hchunk)
    have hle := m.totalLength.toNat_le_largest
    have hchunkLength := h.length_chunk hchunk
    rw [Count.toNat_addSat, hstart, hlength]
    omega
  have hbytes : (bytesOf (m.files.zip parts)).length ≤ Count.largest := by
    rw [h.bytesOf_zip, ← h.total]
    exact m.totalLength.toNat_le_largest
  have hfiles : m.files = (m.files.zip parts).map Prod.fst :=
    (List.map_fst_zip (Nat.le_of_eq h.files)).symm
  refine ⟨(m.files.zip parts).filter fun e =>
    e.1.overlaps (Count.mulSat index.toUInt64 m.pieceLength)
      (Count.addSat (Count.mulSat index.toUInt64 m.pieceLength) size), List.filter_sublist, ?_, ?_⟩
  · rw [filesOfPiece, hsize]
    exact congrArg Except.ok ((congrArg (List.filter _) hfiles).trans List.filter_map)
  · rw [← hstop, ← hstart, h.laidOut.flatMap_cut_overlapping hbytes, hstart, hstop, h.bytesOf_zip,
      h.between_chunk hchunk]

/-! ## 5. All pieces together -/

theorem mapM_eq_ok_map {α β ε : Type} {f : α → Except ε β} {g : α → β} : ∀ {xs : List α},
    (∀ x ∈ xs, f x = .ok (g x)) → xs.mapM f = .ok (xs.map g)
  | [], _ => rfl
  | x :: xs, h => by
    obtain ⟨hx, hxs⟩ := List.forall_mem_cons.mp h
    rw [List.mapM_cons, hx, mapM_eq_ok_map hxs]
    rfl

/-- **The lengths of the pieces add up to the length of the content.** -/
theorem sum_pieceSizes (h : Covers m parts) (hcount : m.pieceCount ≤ 2 ^ 32) :
    ∃ sizes, (List.range m.pieceCount).mapM (fun i => m.pieceSize (UInt32.ofNat i)) = .ok sizes ∧
      (sizes.map UInt64.toNat).sum = m.totalLength.toNat := by
  obtain ⟨chunks, hchunks⟩ : ∃ chunks, blocks m.pieceLength.toNat parts.flatten = chunks := ⟨_, rfl⟩
  have hlength := h.pieceCount_eq
  rw [hchunks] at hlength
  have hsize : ∀ i ∈ List.range m.pieceCount, ∃ size : Count,
      m.pieceSize (UInt32.ofNat i) = .ok size ∧ size.toNat = (chunks[i]?.getD []).length := by
    intro i hi
    rw [List.mem_range] at hi
    have hindex : (UInt32.ofNat i).toNat = i :=
      UInt32.toNat_ofNat_of_lt' (by simp only [UInt32.size]; omega)
    obtain ⟨chunk, hchunk⟩ : ∃ chunk, chunks[i]? = some chunk :=
      ⟨_, List.getElem?_eq_getElem (by omega)⟩
    rw [hchunk]
    exact h.pieceSize_chunk (by rw [hchunks, hindex]; exact hchunk)
  choose! size hsize hsizeLength using hsize
  refine ⟨_, mapM_eq_ok_map hsize, ?_⟩
  have hsum : (List.range m.pieceCount).map (fun i => (chunks[i]?.getD []).length) =
      chunks.map List.length := by
    rw [hlength]
    refine List.ext_getElem (by simp) fun i _ hi => ?_
    rw [List.length_map] at hi
    simp [List.getElem?_eq_getElem hi]
  calc
    (((List.range m.pieceCount).map size).map UInt64.toNat).sum
        = ((List.range m.pieceCount).map fun i => (chunks[i]?.getD []).length).sum := by
          rw [List.map_map]
          exact congrArg List.sum (List.map_congr_left hsizeLength)
    _ = chunks.flatten.length := by rw [hsum, List.length_flatten]
    _ = m.totalLength.toNat := by rw [← hchunks, Bytes.flatten_blocks h.positive, h.total]

end Covers

end Metainfo
end Swarm
