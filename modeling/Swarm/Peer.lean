/-
# Peers and the lists in which they are announced

A peer is an address and a port other than zero.  A tracker lists peers in one of two ways:
as one byte string of six bytes for each peer (the four of an IPv4 address and two of the
port, both most significant first), or as a list of dictionaries with an address text and a
port.  Either list is taken as a whole or refused as a whole.
-/
import Swarm.Bencode.Field
import Swarm.Net.Address

namespace Swarm

open Bencode

/-! ## 1. Peers -/

/-- Why an address and a number make no peer. -/
inductive PeerFault
  | portOutOfRange (port : Int64)
  deriving DecidableEq

/-- The wording of it. -/
def PeerFault.message : PeerFault → String
  | portOutOfRange port => "Invalid peer: port " ++ toString port.toInt ++ " out of range"

/-- A peer as a tracker reports it. -/
structure Peer where
  address : Net.Address
  port : UInt16
  port_ne_zero : port ≠ 0
  deriving DecidableEq

namespace Peer

/-- The peer at an address and a port, which must be a port number other than zero. -/
def new (address : Net.Address) (port : Int64) : Except PeerFault Peer :=
  if h : 0 < port.toInt ∧ port.toInt ≤ 65535 then
    .ok ⟨address, UInt16.ofNatLT port.toInt.toNat (by simp only [UInt16.size]; omega), by
      intro h0
      have := congrArg UInt16.toNat h0
      simp only [UInt16.toNat_ofNatLT, UInt16.toNat_zero] at this
      omega⟩
  else .error (.portOutOfRange port)

/-- The text of a peer: address and port. -/
def text (p : Peer) : String := p.address.textWithPort p.port

/-- How many bytes a peer takes in the compact list. -/
def recordLength : Nat := 6

/-- The peer of a record of the compact list. -/
def ofRecord (a b c d high low : UInt8) : Except PeerFault Peer :=
  new (.v4 ⟨a, b, c, d⟩) (Int64.ofNat (256 * high.toNat + low.toNat))

end Peer

/-! ## 2. Lists of peers -/

/-- Why a list of peers is refused. -/
inductive PeerListFault
  | wrongKind (got : Kind)
  | raggedRecords (length : Nat)
  | record (index : Nat) (fault : PeerFault)
  | field (error : FieldError)
  | entry (fault : PeerFault)
  deriving DecidableEq

/-- The wording of it. -/
def PeerListFault.message : PeerListFault → String
  | wrongKind got =>
    "Malformed peer list: expected list or byte string, got " ++ got.name
  | raggedRecords length =>
    "Malformed peer list: compact list of " ++ toString length ++ " bytes is not a multiple of 6"
  | record index fault =>
    "Malformed peer list: peers[" ++ toString index ++ "]: " ++ fault.message
  | field error => "Malformed peer list: " ++ error.message
  | entry fault => "Malformed peer list: " ++ fault.message

namespace Peer

/-- One record of the compact list. -/
def readRecord (index : Nat) (record : Bytes) : Except PeerListFault Peer :=
  match record with
  | [a, b, c, d, high, low] => (ofRecord a b c d high low).mapError (.record index)
  | other => .error (.raggedRecords other.length)

/-- The compact list. -/
def readCompact (s : Bytes) : Except PeerListFault (List Peer) :=
  if s.length % recordLength = 0 then
    Field.each readRecord 0 (Bytes.chunks recordLength (s.length / recordLength) s)
  else .error (.raggedRecords s.length)

/-- One dictionary of the list of dictionaries; keys other than these two are not looked at. -/
def readEntry (index : Nat) (v : Value) : Except PeerListFault Peer := do
  let name := "peers[" ++ toString index ++ "]"
  let d ← (Field.dictionary name v).mapError .field
  let addressName := name ++ ".ip"
  let addressText ← (Field.required d "ip" >>= Field.text addressName).mapError .field
  match Net.Address.read? addressText with
  | none => .error (.field (.invalid addressName .notAddress))
  | some address =>
    let port ← (Field.required d "port" >>= Field.integer (name ++ ".port")).mapError .field
    (new address port).mapError .entry

/-- **A list of peers** in either form. -/
def readList (v : Value) : Except PeerListFault (List Peer) :=
  match v with
  | .byteString s => readCompact s
  | .list items => Field.each readEntry 0 items
  | other => .error (.wrongKind other.kind)

end Peer
end Swarm
