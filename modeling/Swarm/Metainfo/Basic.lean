/-
# The metainfo of a torrent

What a metainfo document says once it has been checked, and what follows from it: how long a
piece is, which hash its bytes must have, and which files it has bytes in.  Lengths are
counted in 64 bits and cut off at the largest count.
-/
import Swarm.Calendar
import Swarm.Digest.Sha1
import Swarm.Error
import Swarm.Metainfo.File

namespace Swarm

open Metainfo (File)

/-- A checked metainfo document. -/
structure Metainfo where
  /-- The URL of the tracker. -/
  announce : String
  /-- Tiers of further trackers. -/
  announceList : List (List String)
  infoHash : Digest
  /-- The name of the single file, or of the directory that holds all of them. -/
  name : String
  pieceLength : Count
  /-- The hash of each piece. -/
  pieces : List Digest
  files : List File
  totalLength : Count
  isMultiFile : Bool
  isPrivate : Bool
  comment : Option String
  createdBy : Option String
  creationDate : Option Int64
  encoding : Option String
  deriving DecidableEq

namespace Metainfo

/-! ## 1. Pieces -/

/-- How many pieces there are. -/
def pieceCount (m : Metainfo) : Nat := m.pieces.length

/-- How many pieces the content needs. -/
def neededPieces (m : Metainfo) : Count :=
  m.totalLength / m.pieceLength + if m.totalLength % m.pieceLength = 0 then 0 else 1

/-- The length of the last piece, 0 if there are none. -/
def lastPieceLength (m : Metainfo) : Count :=
  if m.pieces.isEmpty then 0
  else
    let before := Count.mulSat (UInt64.ofNat (m.pieceCount - 1)) m.pieceLength
    min (Count.subSat m.totalLength before) m.pieceLength

/-- Refuses an index that is none of a piece. -/
def checkPiece (m : Metainfo) (index : UInt32) : Except Error Unit :=
  if index.toNat < m.pieceCount then .ok ()
  else .error (.indexOutOfRange index.toNat m.pieceCount)

/-- The length of a piece. -/
def pieceSize (m : Metainfo) (index : UInt32) : Except Error Count := do
  m.checkPiece index
  return if index.toNat + 1 = m.pieceCount then m.lastPieceLength else m.pieceLength

/-- The hash that a piece must have. -/
def pieceHash (m : Metainfo) (index : UInt32) : Except Error Digest :=
  match m.pieces[index.toNat]? with
  | some hash => .ok hash
  | none => .error (.indexOutOfRange index.toNat m.pieceCount)

/-- Whether bytes have the hash of a piece. -/
def verifyPiece (m : Metainfo) (index : UInt32) (data : Bytes) : Except Error Bool := do
  let expected ← m.pieceHash index
  return Sha1.hash data = expected

/-- **The files that a piece has bytes in**, in their order. -/
def filesOfPiece (m : Metainfo) (index : UInt32) : Except Error (List File) := do
  let size ← m.pieceSize index
  let start := Count.mulSat index.toUInt64 m.pieceLength
  let stop := Count.addSat start size
  return m.files.filter fun f => f.overlaps start stop

/-! ## 2. How it is shown -/

/-- When the document was made, as text. -/
def creationTime? (m : Metainfo) : Option String := m.creationDate >>= Calendar.momentText?

/-- How a metainfo is shown. -/
def display (m : Metainfo) : String :=
  "TorrentMetadata \x7b announce: " ++ Text.quoted m.announce ++ ", info_hash: " ++
    m.infoHash.text ++ ", name: " ++ Text.quoted m.name ++ ", piece_length: " ++
    toString m.pieceLength.toNat ++ ", pieces: " ++ toString m.pieceCount ++ ", files: [" ++
    ", ".intercalate (m.files.map File.display) ++ "] \x7d"

end Metainfo
end Swarm
