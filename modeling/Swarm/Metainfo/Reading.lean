/-
# Reading a metainfo document

A document is checked field by field, and the first field that will not do decides the error:
the announce URL, the tiers of trackers, then in the `info` dictionary the name, the length
and the hashes of the pieces, the file or files, and the private flag.  Comment, creator, date
and encoding are taken as they are and never cause a failure; keys that are not known are only
noticed.

The info hash is taken either over the canonical writing of the `info` dictionary or over its
bytes as they stand in the document (`HashSource`).

Whether the announce URL is a URL is for a reader of URLs to say, with which the document is read.
-/
import Swarm.Bencode.Span
import Swarm.Metainfo.Basic
import Swarm.Net.Url
import Swarm.Notice

namespace Swarm.Metainfo

open Bencode

/-! ## 1. Paths -/

/-- A component that would not stay below the directory, or is none. -/
def isForbiddenComponent (component : String) : Bool :=
  component = "" || component = "." || component = ".." ||
    component.toList.any fun c => c = '/' || c = '\\' || c = '\x00'

/-- A component of a path. -/
def checkComponent (name component : String) : Except FieldError Unit :=
  if isForbiddenComponent component then
    .error (.invalid name (.notPathComponent component))
  else .ok ()

/-- A field that holds a component of a path. -/
def readComponent (name : String) (v : Value) : Except FieldError String := do
  let component ← Field.text name v
  checkComponent name component
  return component

/-- The path of its components. -/
def joinPath (components : List String) : String := "/".intercalate components

/-! ## 2. Files -/

/-- Length and path of one entry of the list of files. -/
def readFileEntry (index : Nat) (v : Value) : Except FieldError (Count × String) := do
  let name := "files[" ++ toString index ++ "]"
  let entry ← Field.dictionary name v
  let lengthName := name ++ ".length"
  let length ← Field.requiredAs entry "length" lengthName >>= Field.count lengthName
  let pathName := name ++ ".path"
  let components ← Field.requiredAs entry "path" pathName >>= Field.list pathName
  if components.isEmpty then .error (.invalid pathName .emptyPath)
  let path ← Field.each (fun _ => readComponent pathName) 0 components
  return (length, joinPath path)

/-- Lays out the files of a list one after another, from an index and an offset on.  An entry
is read before its length is added, so that of two faults the earlier one counts. -/
def readFilesFrom : Nat → Count → List Value → Except FieldError (List File × Count)
  | _, offset, [] => .ok ([], offset)
  | index, offset, v :: rest => do
    let (length, path) ← readFileEntry index v
    match Count.add? offset length with
    | none => .error (.invalid "files" .totalTooLarge)
    | some next =>
      let (files, total) ← readFilesFrom (index + 1) next rest
      return (⟨UInt64.ofNat index, length, offset, path⟩ :: files, total)

/-- The files of a torrent, their total length, and whether they come from a list. -/
def readFiles (name : String) (info : Dictionary Value) :
    Except FieldError (List File × Count × Bool) :=
  match Field.find? info "files" with
  | none => do
    let length ← Field.required info "length" >>= Field.count "length"
    return ([⟨0, length, 0, name⟩], length, false)
  | some v => do
    let entries ← Field.list "files" v
    let (files, total) ← readFilesFrom 0 0 entries
    return (files, total, true)

/-! ## 3. Trackers and pieces -/

/-- One tier of trackers. -/
def readTier (index : Nat) (v : Value) : Except FieldError (List String) := do
  let name := "announce-list[" ++ toString index ++ "]"
  let urls ← Field.list name v
  Field.each (fun _ => Field.text name) 0 urls

/-- The tiers of trackers, if there are any. -/
def readAnnounceList (root : Dictionary Value) : Except FieldError (List (List String)) :=
  match Field.find? root "announce-list" with
  | none => .ok []
  | some v => Field.list "announce-list" v >>= Field.each readTier 0

/-- The URL of the tracker. -/
def readAnnounce (readUrl : Net.UrlReader) (root : Dictionary Value) :
    Except FieldError String := do
  let announce ← Field.required root "announce" >>= Field.text "announce"
  match readUrl announce with
  | .ok _ => return announce
  | .error wording => .error (.invalid "announce" (.notUrl wording))

/-- The length of a piece, which must be positive. -/
def readPieceLength (info : Dictionary Value) : Except FieldError Count := do
  let n ← Field.required info "piece length" >>= Field.integer "piece length"
  if n.toInt ≤ 0 then .error (.invalid "piece length" (.notPositive n))
  return UInt64.ofNat n.toInt.toNat

/-- The hashes of the pieces: twenty bytes each, and no more of them than 32 bits can count. -/
def readPieces (info : Dictionary Value) : Except Error (List Digest) := do
  let blob ← (Field.required info "pieces" >>= Field.bytes "pieces").mapError .field
  if blob.length % 20 ≠ 0 then .error (.pieceBlobLength blob.length)
  if UInt32.size ≤ blob.length / 20 then .error (.field (.invalid "pieces" .tooManyPieces))
  match (Bytes.chunks 20 (blob.length / 20) blob).mapM Digest.ofBytes? with
  | some hashes => return hashes
  | none => .error (.pieceBlobLength blob.length)

/-! ## 4. The document -/

/-- The keys that are known, in the document and in its `info` dictionary alike. -/
def knownKeys : List Key :=
  ["announce", "announce-list", "comment", "created by", "creation date", "encoding", "info",
    "name", "piece length", "pieces", "length", "files", "private"].map Text.utf8

/-- A notice for each key that is not known. -/
def unknownKeys (d : Dictionary Value) : List Notice :=
  (d.keys.filter fun k => !knownKeys.contains k).map fun k =>
    ⟨.debug, "skipping unknown field " ++ Text.quoted (Text.lossyText k)⟩

/-- A notice if the content needs another number of pieces than there are. -/
def pieceMismatch (m : Metainfo) : List Notice :=
  if m.neededPieces.toNat = m.pieceCount then []
  else
    [⟨.warning, "torrent " ++ m.infoHash.text ++ " declares " ++ toString m.pieceCount ++
      " pieces but its content needs " ++ toString m.neededPieces.toNat⟩]

/-- A metainfo and what was noticed while it was read. -/
structure Document where
  metainfo : Metainfo
  notices : List Notice

/-- Reads a document whose `info` dictionary stands in `raw`, or is to be hashed in its
canonical writing. -/
def readDocument (readUrl : Net.UrlReader) (root : Value) (raw : Option Bytes) :
    Except Error Document := do
  let root ← (Field.dictionary "torrent" root).mapError .field
  let announce ← (readAnnounce readUrl root).mapError .field
  let announceList ← (readAnnounceList root).mapError .field
  let infoValue ← (Field.required root "info").mapError .field
  let info ← (Field.dictionary "info" infoValue).mapError .field
  let infoHash := Sha1.hash (raw.getD infoValue.encode)
  let name ← (Field.required info "name" >>= readComponent "name").mapError .field
  let pieceLength ← (readPieceLength info).mapError .field
  let pieces ← readPieces info
  let (files, totalLength, isMultiFile) ← (readFiles name info).mapError .field
  let privateFlag ← (Field.optional Field.integer info "private").mapError .field
  let metainfo : Metainfo :=
    { announce, announceList, infoHash, name, pieceLength, pieces, files, totalLength
      isMultiFile
      isPrivate := privateFlag = some 1
      comment := Field.looseText? root "comment"
      createdBy := Field.looseText? root "created by"
      creationDate := Field.find? root "creation date" >>= Value.integer?
      encoding := Field.looseText? root "encoding" }
  return ⟨metainfo, unknownKeys root ++ unknownKeys info ++ pieceMismatch metainfo⟩

/-- Which bytes the info hash is taken over. -/
inductive HashSource
  /-- The canonical writing of the `info` dictionary. -/
  | canonical
  /-- The bytes of the `info` dictionary as they stand in the document. -/
  | raw
  deriving DecidableEq, Repr

/-- Reads the bytes of a document, with what was noticed. -/
def documentOfBytes (readUrl : Net.UrlReader) (source : HashSource) (data : Bytes) :
    Except Error Document := do
  let root ← (decode data).mapError .decode
  match source with
  | .canonical => readDocument readUrl root none
  | .raw =>
    match ← valueSpan? data (Text.utf8 "info") with
    | some span => readDocument readUrl root (some (span.slice data))
    | none => .error (.field (.missing "info"))

/-- **Reads a document that has been decoded.** -/
def ofValue (readUrl : Net.UrlReader) (root : Value) : Except Error Metainfo :=
  (readDocument readUrl root none).map Document.metainfo

/-- **Reads the bytes of a document.** -/
def ofBytes (readUrl : Net.UrlReader) (source : HashSource) (data : Bytes) :
    Except Error Metainfo :=
  (documentOfBytes readUrl source data).map Document.metainfo

end Swarm.Metainfo
