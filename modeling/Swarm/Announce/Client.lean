/-
# The announcing client

A client announces one torrent to one tracker.  An announcement takes time, and other things
may happen to the client meanwhile, so it is made of four moments, each of which is one step
of the client:

1. `allow`: whether the event may be announced.  That the download is complete is announced
   once: not after an announcement of it went through, and not while one is under way;
2. `announcement`: the query is built from the session as it is at that moment;
3. `settle`: the answer of the tracker is taken in, or fails and changes nothing;
4. `release`: the announcement is no longer under way, however it ended.

Notices are returned with the results.
-/
import Swarm.Announce.Session
import Swarm.Metainfo.Basic
import Swarm.Net.Status
import Swarm.Notice
import Swarm.Text.Blank

namespace Swarm.Announce

/-! ## 1. Clients -/

/-- A client of one tracker. -/
structure Client where
  /-- The announce URL. -/
  url : Net.Url
  settings : Settings
  session : Session
  /-- An announcement that the download is complete is under way. -/
  completing : Bool

namespace Client

/-- A client for an announce URL, which must be one of HTTP. -/
def new (readUrl : Net.UrlReader) (announce : String) (infoHash : Digest) (peerId : PeerId)
    (left : Count) (settings : Settings) : Except Error Client :=
  match readUrl announce with
  | .error wording => .error (.field (.invalid "announce" (.notUrl wording)))
  | .ok url =>
    if url.scheme = "http" || url.scheme = "https" then
      .ok
        { url, settings
          session := Session.begin infoHash peerId left settings.defaultInterval
          completing := false }
    else .error (.field (.invalid "announce" (.unsupportedScheme url.scheme)))

/-- A client for a torrent of which everything is still missing. -/
def ofMetainfo (readUrl : Net.UrlReader) (m : Metainfo) (peerId : PeerId) (settings : Settings) :
    Except Error Client :=
  new readUrl m.announce m.infoHash peerId m.totalLength settings

/-- Changes the session. -/
def mapSession (c : Client) (change : Session → Session) : Client :=
  { c with session := change c.session }

/-! ## 2. The four moments of an announcement -/

/-- **May the event be announced?**  If it is that the download is complete, it is under way
from now on. -/
def allow (c : Client) (event : Event) : Except Error Client :=
  if event = .completed then
    if c.session.completed || c.completing then
      .error (.alreadyCompleted c.session.infoHash)
    else .ok { c with completing := true }
  else .ok c

/-- The query of an announcement. -/
def announcement (c : Client) (event : Event) : Query := c.session.query c.settings event

/-- The URL that an announcement asks for. -/
def requestUrl (c : Client) (event : Event) : Net.Url := (c.announcement event).url c.url

/-- The notice of an announcement. -/
def announcing (c : Client) (event : Event) : Notice :=
  ⟨.debug, "Announcing " ++ event.text ++ " to " ++ (c.requestUrl event).text⟩

/-- What becomes of a request. -/
inductive Exchange
  /-- No answer came. -/
  | lost
  /-- An answer came; its body may have broken off. -/
  | answered (status : Nat) (body : Option Bytes)

/-- The result of taking something in: the client afterwards, the notices, and the peers or
the failure. -/
structure Outcome where
  client : Client
  notices : List Notice
  result : Except Error (List Peer)

/-- What the tracker says is noticed under its URL. -/
def remark (c : Client) (level : Level) (words : String) : Notice :=
  ⟨level, "Tracker " ++ c.url.text ++ " " ++ words⟩

/-- What is noticed after a grant has been taken in. -/
def returned (c : Client) (peers : List Peer) : Notice :=
  c.remark .info ("returned " ++ toString peers.length ++ " peers for " ++
    c.session.infoHash.text ++ ", " ++ toString c.session.peers.size ++ " known, " ++
    toString c.session.seeders.toNat ++ " seeders, " ++
    toString c.session.leechers.toNat ++ " leechers")

/-- Takes in the bytes of a reply. -/
def takeIn (c : Client) (event : Event) (body : Bytes) : Outcome :=
  match Reply.ofBytes body with
  | .error e => ⟨c, [], .error e⟩
  | .ok (.failure reason) =>
    ⟨c, [c.remark .warning ("refused announce: " ++ reason)], .error (.refused reason)⟩
  | .ok (.success grant) =>
    let after := c.mapSession fun s => s.absorb c.settings.mergePolicy event grant
    let warnings := (grant.warning.map fun w => c.remark .warning ("warns: " ++ w)).toList
    ⟨after, warnings ++ [after.returned grant.peers], .ok grant.peers⟩

/-- What is told about an answer with a status other than 200. -/
def statusMessage (status : Nat) (body : Bytes) : String :=
  let words := Text.trimBlank (Text.lossyText body)
  match Net.statusReason? status with
  | some reason => if words.isEmpty then reason else reason ++ ": " ++ words
  | none => words

/-- **Takes in what became of a request.** -/
def settle (c : Client) (event : Event) : Exchange → Outcome
  | .lost => ⟨c, [], .error .transport⟩
  | .answered status body =>
    if status = 200 then
      match body with
      | some bytes => c.takeIn event bytes
      | none => ⟨c, [], .error .transport⟩
    else
      let message := statusMessage status (body.getD [])
      ⟨c, [c.remark .warning ("rejected announce: " ++ Net.statusText status ++ " " ++ message)],
        .error (.httpStatus status message)⟩

/-- The announcement is no longer under way. -/
def release (c : Client) (event : Event) : Client :=
  if event = .completed then { c with completing := false } else c

/-! ## 3. Whole announcements -/

/-- What is sent: the URL that is asked for and the notice of it. -/
structure Sent where
  url : Net.Url
  notice : Notice

/-- Begins an announcement: allows the event and builds the request. -/
def send (c : Client) (event : Event) : Except Error (Client × Sent) := do
  let allowed ← c.allow event
  return (allowed, ⟨allowed.requestUrl event, allowed.announcing event⟩)

/-- Ends an announcement: settles the exchange and releases the event. -/
def finish (c : Client) (event : Event) (exchange : Exchange) : Outcome :=
  let o := c.settle event exchange
  { o with client := o.client.release event }

/-- **An announcement during which other things happen to the client.**  An event that is not
allowed leaves no trace, and nothing happens meanwhile. -/
def announceWhile (c : Client) (event : Event) (meanwhile : Client → Client)
    (exchange : Exchange) : Outcome :=
  match c.send event with
  | .error e => ⟨c, [], .error e⟩
  | .ok (allowed, sent) =>
    let o := (meanwhile allowed).finish event exchange
    { o with notices := sent.notice :: o.notices }

/-- Takes in the bytes of a reply that came by another way. -/
def update (c : Client) (body : Bytes) : Outcome := c.takeIn .regular body

end Client
end Swarm.Announce
