/-
# Positions of the content

Bytes are counted in 64 bits, and sums that do not fit are cut off.  Here the answers of a metainfo
are compared with the positions of its content, which are natural numbers and have no largest one.

* `File.overlaps_eq_meets_iff`: when a file tells rightly whether a range touches it;
* `filesOfPiece_eq_meets`: a piece has bytes in the files that hold one of its positions, and in no
  other one;
* `pieceSize_eq_card_iff`: when the length of a piece is the number of its positions.

The number of pieces is the one that the document says, and the last two are about any such number:
nothing but a notice comes of one that does not fit the content.
-/
import Mathlib.Order.Interval.Finset.Nat
import Swarm.Proofs.Metainfo.Layout

namespace Swarm.Metainfo

/-! ## 1. Files and ranges -/

namespace File

variable {f : File}

/-- The file has a position from `start` on and before `stop`. -/
def Meets (f : File) (start stop : Nat) : Prop := ∃ x, f.Holds x ∧ start ≤ x ∧ x < stop

/-- Two ranges have a position in common if neither is empty and each begins before the other
ends. -/
theorem meets_iff {start stop : Nat} :
    f.Meets start stop ↔ start < stop ∧ 0 < f.length.toNat ∧
      start < f.offset.toNat + f.length.toNat ∧ f.offset.toNat < stop := by
  constructor
  · rintro ⟨x, ⟨hfrom, huntil⟩, hstart, hstop⟩
    omega
  · rintro ⟨hrange, hlength, hstart, hstop⟩
    refine ⟨max start f.offset.toNat, ⟨Nat.le_max_right _ _, ?_⟩, Nat.le_max_left _ _, ?_⟩
    · omega
    · omega

instance (f : File) (start stop : Nat) : Decidable (f.Meets start stop) :=
  decidable_of_iff _ meets_iff.symm

/-- The range is empty or reversed, and both its ends lie within the file. -/
def Surrounds (f : File) (start stop : Count) : Prop :=
  f.offset < stop ∧ stop ≤ start ∧ start < Count.addSat f.offset f.length

/-- **What a file answers**: that the range has a position of it, or that it surrounds the range. -/
theorem overlaps_iff_meets_or_surrounds {start stop : Count} :
    f.overlaps start stop = true ↔ f.Meets start.toNat stop.toNat ∨ f.Surrounds start stop := by
  have hstop := stop.toNat_le_largest
  rw [overlaps_iff, meets_iff, Surrounds, UInt64.lt_iff_toNat_lt, UInt64.le_iff_toNat_le,
    UInt64.lt_iff_toNat_lt, Count.toNat_addSat]
  -- a range that is not empty begins below the largest count, so nothing is cut off for it
  omega

theorem Surrounds.not_meets {start stop : Count} (h : f.Surrounds start stop) :
    ¬ f.Meets start.toNat stop.toNat := by
  rw [meets_iff]
  exact fun hmeets => Nat.not_le_of_lt hmeets.1 h.2.1

/-- **A file tells rightly whether a range touches it, unless it surrounds the range**: then there
is no position in the range, and the answer is that there is one.  So the answer is right about
every range that is not empty, and about every empty file, also where offset and length add up to
more than can be counted. -/
theorem overlaps_eq_meets_iff (f : File) (start stop : Count) :
    f.overlaps start stop = decide (f.Meets start.toNat stop.toNat) ↔ ¬ f.Surrounds start stop := by
  rw [Bool.eq_iff_iff, decide_eq_true_iff, overlaps_iff_meets_or_surrounds, or_iff_left_iff_imp]
  exact ⟨fun h hin => hin.not_meets (h hin), fun hout hin => absurd hin hout⟩

/-- An empty range and a reversed one, both within a file, are said to touch it. -/
theorem overlaps_surrounded :
    let f : File := ⟨0, 6, 4, "a"⟩
    (f.overlaps 5 5 = true ∧ ¬ f.Meets 5 5) ∧ f.overlaps 8 6 = true ∧ ¬ f.Meets 8 6 := by
  decide

end File

/-! ## 2. Metainfos that are read -/

/-- The metainfo is read: of a value, or of bytes with either source of the hash. -/
def IsRead (readUrl : Net.UrlReader) (m : Metainfo) : Prop :=
  (∃ root, ofValue readUrl root = .ok m) ∨ ∃ source data, ofBytes readUrl source data = .ok m

namespace IsRead

variable {readUrl : Net.UrlReader} {m : Metainfo}

theorem exists_describes (h : IsRead readUrl m) : ∃ d info, Describes readUrl d info m := by
  rcases h with ⟨root, h⟩ | ⟨source, data, h⟩
  · obtain ⟨d, info, -, hm, -⟩ := readDocument_eq_ok_iff.mp h
    exact ⟨d, info, hm⟩
  · obtain ⟨d, info, -, -, hm, -⟩ := ofBytes_eq_ok_iff.mp h
    exact ⟨d, info, hm⟩

theorem pieceLength_pos (h : IsRead readUrl m) : 0 < m.pieceLength.toNat := by
  obtain ⟨d, info, hm⟩ := h.exists_describes
  exact hm.sound.pieceLength

theorem pieceCount_le (h : IsRead readUrl m) : m.pieceCount ≤ UInt64.size := by
  obtain ⟨d, info, hm⟩ := h.exists_describes
  have hcount := hm.pieceCount
  simp only [pieceCount, UInt64.size, UInt32.size] at *
  omega

/-- No file reaches beyond the total length. -/
theorem le_totalLength (h : IsRead readUrl m) {f : File} (hf : f ∈ m.files) :
    f.offset.toNat + f.length.toNat ≤ m.totalLength.toNat := by
  obtain ⟨d, info, hm⟩ := h.exists_describes
  exact (hm.content.inRow.bounds f hf).2

end IsRead

/-! ## 3. The files of a piece -/

/-- **Cutting off moves no end of a piece across a file.**  Whatever between the content that is left
and the length of all pieces is taken for the length of a piece, its range touches the files that
have one of its positions. -/
theorem overlaps_piece {m : Metainfo} {f : File} {index : UInt32} {size : Count}
    (hfile : f.offset.toNat + f.length.toNat ≤ m.totalLength.toNat)
    (hpositive : 0 < m.pieceLength.toNat)
    (hleft : min (m.totalLength.toNat - index.toNat * m.pieceLength.toNat) m.pieceLength.toNat ≤
      size.toNat)
    (hsize : size.toNat ≤ m.pieceLength.toNat) :
    f.overlaps (Count.mulSat index.toUInt64 m.pieceLength)
        (Count.addSat (Count.mulSat index.toUInt64 m.pieceLength) size) =
      decide (f.Meets (index.toNat * m.pieceLength.toNat)
        ((index.toNat + 1) * m.pieceLength.toNat)) := by
  have htotal := m.totalLength.toNat_le_largest
  rw [Bool.eq_iff_iff, decide_eq_true_iff, File.overlaps_iff, File.meets_iff, Count.toNat_addSat,
    Count.toNat_mulSat, UInt32.toNat_toUInt64, Nat.succ_mul]
  omega

/-- The length of a piece is not less than what is left of the content for it. -/
theorem IsRead.exists_pieceSize {readUrl : Net.UrlReader} {m : Metainfo} (h : IsRead readUrl m)
    {index : UInt32}
    (hi : index.toNat < m.pieceCount) :
    ∃ size, m.pieceSize index = .ok size ∧
      min (m.totalLength.toNat - index.toNat * m.pieceLength.toNat) m.pieceLength.toNat ≤
        size.toNat ∧
      size.toNat ≤ m.pieceLength.toNat := by
  obtain ⟨size, hsize, hlength⟩ := pieceSize_of_lt hi h.pieceCount_le
  refine ⟨size, hsize, ?_⟩
  split at hlength <;> omega

/-- **A piece has bytes in the files that hold one of its positions**, in their order, and an index
that is none of a piece is refused.  Positions are counted without a bound, and there may be more
or fewer pieces than the content needs. -/
theorem filesOfPiece_eq_meets {readUrl : Net.UrlReader} {m : Metainfo} (h : IsRead readUrl m)
    (index : UInt32) :
    (index.toNat < m.pieceCount → m.filesOfPiece index = .ok (m.files.filter fun f =>
      f.Meets (index.toNat * m.pieceLength.toNat) ((index.toNat + 1) * m.pieceLength.toNat))) ∧
    (m.pieceCount ≤ index.toNat →
      m.filesOfPiece index = .error (.indexOutOfRange index.toNat m.pieceCount)) := by
  constructor
  · intro hi
    obtain ⟨size, hsize, hleft, hle⟩ := h.exists_pieceSize hi
    rw [filesOfPiece, hsize]
    refine congrArg Except.ok (List.filter_congr fun f hf => ?_)
    exact overlaps_piece (h.le_totalLength hf) h.pieceLength_pos hleft hle
  · intro hi
    have hcheck : m.checkPiece index = .error (.indexOutOfRange index.toNat m.pieceCount) :=
      if_neg (Nat.not_lt_of_le hi)
    rw [filesOfPiece, pieceSize, hcheck]
    rfl

/-- The content ends one before the largest count, in the second of four pieces; the last piece
begins behind that count. -/
theorem filesOfPiece_eq_meets_cutOff :
    let data := Text.utf8 <|
      "d8:announce9:http://t/4:infod5:filesld6:lengthi9223372036854775807e4:pathl1:aee" ++
      "d6:lengthi9223372036854775807e4:pathl1:beee4:name1:n12:piece lengthi9223372036854775807e" ++
      "6:pieces80:" ++ String.ofList (List.replicate 80 'x') ++ "ee"
    ∃ m, ofBytes Net.Url.readAscii .canonical data = .ok m ∧
      m.filesOfPiece 1 = .ok [⟨1, 9223372036854775807, 9223372036854775807, "b"⟩] ∧
      m.filesOfPiece 3 = .ok [] ∧ m.filesOfPiece 4 = .error (.indexOutOfRange 4 4) := by
  intro data
  have hread : (ofBytes Net.Url.readAscii .canonical data).map
      (fun m => (m.pieceCount, m.pieceLength, m.files)) =
      .ok (4, 9223372036854775807, [⟨0, 9223372036854775807, 0, "a"⟩,
        ⟨1, 9223372036854775807, 9223372036854775807, "b"⟩]) := by decide +kernel
  obtain ⟨m, hm, hfields⟩ := map_eq_ok_iff.mp hread
  simp only [Prod.mk.injEq] at hfields
  obtain ⟨hcount, hlength, hfiles⟩ := hfields
  have hall := filesOfPiece_eq_meets (.inr ⟨_, _, hm⟩)
  rw [hcount, hlength, hfiles] at hall
  refine ⟨m, hm, ((hall 1).1 (by decide)).trans ?_, ((hall 3).1 (by decide)).trans ?_,
    (hall 4).2 (by decide)⟩
  · decide
  · decide

/-! ## 4. The length of a piece -/

/-- The positions of the content that a piece has. -/
def positions (m : Metainfo) (i : Nat) : Finset Nat :=
  (Finset.range m.totalLength.toNat).filter fun x =>
    i * m.pieceLength.toNat ≤ x ∧ x < (i + 1) * m.pieceLength.toNat

theorem card_positions (m : Metainfo) (i : Nat) : (m.positions i).card =
    min (m.totalLength.toNat - i * m.pieceLength.toNat) m.pieceLength.toNat := by
  have hpositions : m.positions i = Finset.Ico (i * m.pieceLength.toNat)
      (min m.totalLength.toNat ((i + 1) * m.pieceLength.toNat)) := by
    ext x
    simp only [positions, Finset.mem_filter, Finset.mem_range, Finset.mem_Ico, lt_min_iff]
    tauto
  rw [hpositions, Nat.card_Ico, Nat.succ_mul]
  omega

/-- **When the length of a piece is the number of its positions**: for the last piece, and for one
that ends within the content.  A piece before the last one that reaches beyond the content is told
too long. -/
theorem pieceSize_eq_card_iff {readUrl : Net.UrlReader} {m : Metainfo} (h : IsRead readUrl m)
    (index : UInt32) (hi : index.toNat < m.pieceCount) :
    ∃ size, m.pieceSize index = .ok size ∧ (m.positions index.toNat).card ≤ size.toNat ∧
      (size.toNat = (m.positions index.toNat).card ↔ index.toNat + 1 = m.pieceCount ∨
        (index.toNat + 1) * m.pieceLength.toNat ≤ m.totalLength.toNat) := by
  have hpositive := h.pieceLength_pos
  obtain ⟨size, hsize, hlength⟩ := pieceSize_of_lt hi h.pieceCount_le
  refine ⟨size, hsize, ?_⟩
  rw [card_positions, Nat.succ_mul]
  split at hlength <;> omega

/-- The last of three pieces has one of five bytes. -/
theorem pieceSize_eq_card_iff_shortPiece :
    let data := Text.utf8 <|
      "d8:announce9:http://t/4:infod6:lengthi5e4:name1:n12:piece lengthi2e6:pieces60:" ++
      String.ofList (List.replicate 60 'x') ++ "ee"
    ∃ m size, ofBytes Net.Url.readAscii .canonical data = .ok m ∧ m.pieceSize 2 = .ok size ∧
      size.toNat = (m.positions 2).card ∧ (m.positions 2).card = 1 := by
  intro data
  have hread : (ofBytes Net.Url.readAscii .canonical data).map
      (fun m => (m.pieceCount, m.pieceLength, m.totalLength)) = .ok (3, 2, 5) := by decide +kernel
  obtain ⟨m, hm, hfields⟩ := map_eq_ok_iff.mp hread
  simp only [Prod.mk.injEq] at hfields
  obtain ⟨hcount, hlength, htotal⟩ := hfields
  obtain ⟨size, hsize, -, hiff⟩ :=
    pieceSize_eq_card_iff (.inr ⟨_, _, hm⟩) 2 (by rw [hcount]; decide)
  refine ⟨m, size, hm, hsize, hiff.mpr (.inl ?_), ?_⟩
  · rw [hcount]
    rfl
  · rw [card_positions, hlength, htotal]
    rfl

/-- Of two pieces for one byte, the first is told too long; the last one has nothing left. -/
theorem pieceSize_surplus :
    let data := Text.utf8 <|
      "d8:announce9:http://t/4:infod6:lengthi1e4:name1:n12:piece lengthi2e6:pieces40:" ++
      String.ofList (List.replicate 40 'x') ++ "ee"
    ∃ m, ofBytes Net.Url.readAscii .canonical data = .ok m ∧ m.pieceCount = 2 ∧
      (m.pieceSize 0 = .ok 2 ∧ (m.positions 0).card = 1) ∧
      m.pieceSize 1 = .ok 0 ∧ (m.positions 1).card = 0 := by
  intro data
  have hread : (ofBytes Net.Url.readAscii .canonical data).map
      (fun m => (m.pieceCount, m.pieceLength, m.totalLength, m.pieceSize 0, m.pieceSize 1)) =
      .ok (2, 2, 1, .ok 2, .ok 0) := by decide +kernel
  obtain ⟨m, hm, hfields⟩ := map_eq_ok_iff.mp hread
  simp only [Prod.mk.injEq] at hfields
  obtain ⟨hcount, hlength, htotal, hfirst, hlast⟩ := hfields
  refine ⟨m, hm, hcount, ⟨hfirst, ?_⟩, hlast, ?_⟩
  · rw [card_positions, hlength, htotal]
    rfl
  · rw [card_positions, hlength, htotal]
    rfl

end Swarm.Metainfo
