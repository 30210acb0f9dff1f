/-
# What a tracker answers

A reply is a dictionary.  If it gives a reason for failure, nothing else in it counts;
otherwise it must tell how long to wait and list peers, and may tell more.
-/
import Swarm.Bencode.Decoding
import Swarm.Error

namespace Swarm.Announce

open Bencode

/-- What a tracker grants. -/
structure Grant where
  /-- Seconds to wait until the next announcement. -/
  interval : UInt64
  /-- Seconds within which no further announcement is welcome. -/
  minInterval : Option UInt64
  /-- To be said again in later announcements. -/
  trackerId : Option String
  /-- How many peers have everything. -/
  complete : Option UInt64
  /-- How many peers are still downloading. -/
  incomplete : Option UInt64
  warning : Option String
  peers : List Peer
  deriving DecidableEq

/-- The reply of a tracker. -/
inductive Reply
  | failure (reason : String)
  | success (grant : Grant)
  deriving DecidableEq

namespace Reply

/-- The reason for failure, if there is one and it is not empty. -/
def readFailure (d : Dictionary Value) : Except FieldError (Option String) :=
  match Field.find? d "failure reason" with
  | none => .ok none
  | some v => do
    let reason := Text.lossyText (← Field.bytes "failure reason" v)
    return if reason.isEmpty then none else some reason

/-- What a reply grants that gives no reason for failure. -/
def readGrant (d : Dictionary Value) : Except Error Grant := do
  let interval ← (Field.required d "interval" >>= Field.count "interval").mapError .field
  let peerList ← (Field.required d "peers").mapError .field
  let peers ← (Peer.readList peerList).mapError .peerList
  let minInterval ← (Field.optional Field.count d "min interval").mapError .field
  let trackerId ← (Field.optional Field.text d "tracker id").mapError .field
  let complete ← (Field.optional Field.count d "complete").mapError .field
  let incomplete ← (Field.optional Field.count d "incomplete").mapError .field
  let warning ← (Field.optional Field.text d "warning message").mapError .field
  return { interval, minInterval, trackerId, complete, incomplete, warning, peers }

/-- **Reads a reply that has been decoded.** -/
def ofValue (v : Value) : Except Error Reply := do
  let d ← (Field.dictionary "response" v).mapError .field
  match ← (readFailure d).mapError .field with
  | some reason => return failure reason
  | none => return success (← readGrant d)

/-- Reads the bytes of a reply. -/
def ofBytes (body : Bytes) : Except Error Reply := do
  let v ← (decode body).mapError .decode
  ofValue v

end Reply
end Swarm.Announce
