/-
# Settings of a client

How a client announces itself, how long it waits for an answer, and what it does with a peer
that it knows already.
-/
import Swarm.Duration

namespace Swarm.Announce

/-- What becomes of a known address that is announced again. -/
inductive MergePolicy
  /-- It keeps the port it was first seen with. -/
  | keepExisting
  /-- It takes the port of the latest reply. -/
  | replace
  deriving DecidableEq, Repr

/-- The name of a policy. -/
def MergePolicy.name : MergePolicy → String
  | keepExisting => "KeepExisting"
  | replace => "Replace"

/-- The settings of a client. -/
structure Settings where
  /-- The port at which this client can be reached. -/
  port : UInt16 := 6881
  /-- How long to wait for a connection. -/
  connectTimeout : Duration := .ofMilliseconds 5000
  /-- How long to wait beyond that for the whole answer. -/
  readTimeout : Duration := .ofMilliseconds 5000
  /-- Whether the compact peer list is asked for. -/
  compact : Bool := true
  /-- How many peers are asked for; the tracker decides if nothing is said. -/
  numwant : Option UInt32 := none
  /-- How long to wait between announcements until a tracker says otherwise. -/
  defaultInterval : Duration := .ofSeconds 10
  mergePolicy : MergePolicy := .keepExisting
  deriving DecidableEq

/-- How long an announcement is waited for; nothing if no duration is that long. -/
def Settings.requestTimeout (s : Settings) : Option Duration :=
  s.connectTimeout.add? s.readTimeout

end Swarm.Announce
