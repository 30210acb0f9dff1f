/-
# The session with a tracker

What a client knows about one torrent and its tracker: what has been transferred, when to
announce again, how large the swarm is, and which peers have been heard of.  Everything that
changes a session is a function on it.

`Session.absorb` takes in what a tracker grants.  Known peers are kept in a dictionary by the
text of their address, so an address is listed once however often it is announced.
-/
import Swarm.Announce.Query
import Swarm.Announce.Reply
import Swarm.Announce.Settings
import Swarm.Count

namespace Swarm.Announce

open Bencode (Dictionary)

/-! ## 1. Known peers -/

/-- Peers by the text of their address. -/
abbrev PeerBook := Dictionary Peer

namespace PeerBook

/-- The key of an address. -/
def keyOf (address : Net.Address) : Bytes := Text.utf8 address.text

/-- Enters a peer; the policy decides about an address that is known. -/
def enter (policy : MergePolicy) (book : PeerBook) (p : Peer) : PeerBook :=
  let key := keyOf p.address
  match policy, book.get? key with
  | .keepExisting, some _ => book
  | _, _ => Dictionary.insert key p book

/-- Enters peers one after another. -/
def enterAll (policy : MergePolicy) (book : PeerBook) (peers : List Peer) : PeerBook :=
  peers.foldl (enter policy) book

end PeerBook

/-! ## 2. Sessions -/

/-- The session of one torrent with its tracker. -/
structure Session where
  infoHash : Digest
  peerId : PeerId
  uploaded : Count
  downloaded : Count
  /-- How many bytes are still missing. -/
  left : Count
  /-- The tracker knows that the download has begun, and not that it has stopped. -/
  started : Bool
  /-- The tracker knows that the download is complete. -/
  completed : Bool
  /-- How long to wait until the next announcement. -/
  interval : Duration
  /-- How long the tracker wants no further announcement. -/
  minInterval : Option Duration
  trackerId : Option String
  seeders : UInt64
  leechers : UInt64
  peers : PeerBook
  deriving DecidableEq

namespace Session

/-- The session before anything has happened. -/
def begin (infoHash : Digest) (peerId : PeerId) (left : Count) (interval : Duration) : Session :=
  { infoHash, peerId, left, interval
    uploaded := 0
    downloaded := 0
    started := false
    completed := false
    minInterval := none
    trackerId := none
    seeders := 0
    leechers := 0
    peers := .nil }

/-- Counts bytes that have been uploaded. -/
def recordUploaded (s : Session) (bytes : Count) : Session :=
  { s with uploaded := Count.addSat s.uploaded bytes }

/-- Counts bytes that have been downloaded; they are missing no longer. -/
def recordDownloaded (s : Session) (bytes : Count) : Session :=
  { s with
    downloaded := Count.addSat s.downloaded bytes
    left := Count.subSat s.left bytes }

/-- Says how many bytes are missing. -/
def setLeft (s : Session) (left : Count) : Session := { s with left }

/-- What an event, once the tracker knows of it, changes. -/
def note (s : Session) : Event → Session
  | .regular => s
  | .started => { s with started := true }
  | .stopped => { s with started := false }
  | .completed => { s with completed := true }

/-- **Takes in what the tracker grants** in answer to an announcement.  What the grant does not
mention stays as it is. -/
def absorb (policy : MergePolicy) (event : Event) (s : Session) (g : Grant) : Session :=
  note
    { s with
      interval := .ofSeconds g.interval
      minInterval := g.minInterval.map .ofSeconds <|> s.minInterval
      trackerId := g.trackerId <|> s.trackerId
      seeders := g.complete.getD s.seeders
      leechers := g.incomplete.getD s.leechers
      peers := PeerBook.enterAll policy s.peers g.peers }
    event

/-- The event of the next ordinary announcement. -/
def nextEvent (s : Session) : Event := if s.started then .regular else .started

/-- The announcement that the session makes. -/
def query (settings : Settings) (s : Session) (event : Event) : Query :=
  { infoHash := s.infoHash
    peerId := s.peerId
    port := settings.port
    uploaded := s.uploaded
    downloaded := s.downloaded
    left := s.left
    compact := settings.compact
    numwant := settings.numwant
    trackerId := s.trackerId
    event }

end Session
end Swarm.Announce
