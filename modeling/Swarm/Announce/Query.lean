/-
# What an announcement says

An announcement is a request for the announce URL of a tracker whose query tells who announces
which torrent, how far the download is, and what has happened.  The names of the query stand
in a fixed order, bytes that are not letters, digits or one of `-._~` are escaped, and the
whole is put behind whatever query the announce URL has already.
-/
import Swarm.Digest
import Swarm.Net.Url

namespace Swarm.Announce

/-! ## 1. Events -/

/-- What has happened since the last announcement. -/
inductive Event
  /-- Nothing in particular. -/
  | regular
  /-- The download has begun. -/
  | started
  /-- The download is complete. -/
  | completed
  /-- The client withdraws. -/
  | stopped
  deriving DecidableEq, Repr

namespace Event

/-- The word for an event in the query; nothing is said about none in particular. -/
def word? : Event → Option String
  | regular => none
  | started => some "started"
  | completed => some "completed"
  | stopped => some "stopped"

/-- How an event is shown. -/
def text (e : Event) : String := e.word?.getD "regular"

end Event

/-! ## 2. Announcements -/

/-- An announcement. -/
structure Query where
  infoHash : Digest
  peerId : PeerId
  /-- The port at which this client can be reached. -/
  port : UInt16
  uploaded : UInt64
  downloaded : UInt64
  /-- How many bytes are still missing. -/
  left : UInt64
  /-- Whether the compact peer list is asked for. -/
  compact : Bool
  /-- How many peers are asked for. -/
  numwant : Option UInt32
  /-- What the tracker wants to be told again. -/
  trackerId : Option String
  event : Event
  deriving DecidableEq

namespace Query

/-- Bytes that are escaped in a query: all but letters, digits and `-._~`. -/
def escaped : Net.Percent.EscapeSet := fun b =>
  !((48 ≤ b && b ≤ 57) || (65 ≤ b && b ≤ 90) || (97 ≤ b && b ≤ 122) ||
    b = 45 || b = 46 || b = 95 || b = 126)

/-- Names and values of the query, in their order, the values escaped. -/
def fields (q : Query) : List (String × String) :=
  [("info_hash", Net.Percent.escape escaped q.infoHash.bytes),
    ("peer_id", Net.Percent.escape escaped q.peerId.bytes),
    ("port", toString q.port.toNat),
    ("uploaded", toString q.uploaded.toNat),
    ("downloaded", toString q.downloaded.toNat),
    ("left", toString q.left.toNat),
    ("compact", if q.compact then "1" else "0")] ++
  (q.numwant.map fun n => ("numwant", toString n.toNat)).toList ++
  (q.trackerId.map fun t => ("trackerid", Net.Percent.escapeText escaped t)).toList ++
  (q.event.word?.map fun w => ("event", w)).toList

/-- The text of the query. -/
def text (q : Query) : String :=
  "&".intercalate (q.fields.map fun f => f.1 ++ "=" ++ f.2)

/-- The URL that is asked for: the announce URL with the query appended. -/
def url (q : Query) (announce : Net.Url) : Net.Url := announce.appendQuery q.text

end Query

/-! ## 3. Drafts -/

/-- An announcement of which not everything may be known yet. -/
structure Draft where
  infoHash : Option Digest := none
  peerId : Option PeerId := none
  port : Option UInt16 := none
  uploaded : Option UInt64 := none
  downloaded : Option UInt64 := none
  left : Option UInt64 := none
  compact : Option Bool := none
  numwant : Option UInt32 := none
  trackerId : Option String := none
  event : Option Event := none

/-- What every announcement must say. -/
inductive Required
  | infoHash
  | peerId
  | port
  | left
  deriving DecidableEq, Repr

/-- What is said when it is missing. -/
def Required.message : Required → String
  | infoHash => "info_hash must be initialized."
  | peerId => "peer_id must be initialized."
  | port => "port must be initialized."
  | left => "left must be initialized."

/-- The announcement of a draft.  Nothing has been transferred and the compact list is asked
for unless the draft says otherwise. -/
def Draft.complete (d : Draft) : Except Required Query :=
  match d.infoHash, d.peerId, d.port, d.left with
  | none, _, _, _ => .error .infoHash
  | _, none, _, _ => .error .peerId
  | _, _, none, _ => .error .port
  | _, _, _, none => .error .left
  | some infoHash, some peerId, some port, some left =>
    .ok
      { infoHash, peerId, port, left
        uploaded := d.uploaded.getD 0
        downloaded := d.downloaded.getD 0
        compact := d.compact.getD true
        numwant := d.numwant
        trackerId := d.trackerId
        event := d.event.getD .regular }

end Swarm.Announce
