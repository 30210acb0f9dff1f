/-
# What can go wrong

Everything that can fail fails with one of these causes.  `Error.message` gives the wording
that is shown, and `Error.isRetryable` says which causes lie with the tracker or the
connection to it, so that the same request may be tried again.
-/
import Swarm.Bencode.Fault
import Swarm.Digest
import Swarm.Peer

namespace Swarm

/-- A cause of failure. -/
inductive Error
  /-- Bytes that are no value of the notation. -/
  | decode (error : Bencode.DecodeError)
  /-- A document with a field that will not do. -/
  | field (error : FieldError)
  /-- Piece hashes that are not a whole number of hashes. -/
  | pieceBlobLength (length : Nat)
  /-- An answer of the tracker with a status other than 200. -/
  | httpStatus (status : Nat) (message : String)
  /-- A refusal by the tracker in its own words. -/
  | refused (reason : String)
  | peerList (fault : PeerListFault)
  | peer (fault : PeerFault)
  /-- A second announcement that the download is complete. -/
  | alreadyCompleted (infoHash : Digest)
  | indexOutOfRange (index bound : Nat)
  /-- No answer, or not all of it. -/
  | transport
  deriving DecidableEq

namespace Error

/-- The wording of a failure; for one of the connection it is left to the connection. -/
def message : Error → Option String
  | decode error => some error.message
  | field error => some error.message
  | pieceBlobLength length =>
    some ("Pieces blob of " ++ toString length ++ " bytes is not a multiple of 20")
  | httpStatus status message =>
    some ("Tracker answered with HTTP " ++ toString status ++ " (" ++ message ++ ")")
  | refused reason => some ("Tracker failure: " ++ reason)
  | peerList fault => some fault.message
  | peer fault => some fault.message
  | alreadyCompleted infoHash =>
    some ("Completed was already sent to the tracker for " ++ infoHash.text)
  | indexOutOfRange index bound =>
    some ("Piece index " ++ toString index ++ " out of range, only " ++ toString bound ++ " pieces")
  | transport => none

/-- Whether what failed may be tried again as it is. -/
def isRetryable : Error → Bool
  | httpStatus .. | refused _ | peerList _ | transport => true
  | _ => false

end Error
end Swarm
