/-
# What each moment of an announcement does to the client

The client has one mark, `completing`, and one flag, `session.completed`, and together they
decide whether the download may be announced as complete.  This module says once what every
moment of an announcement does:

* `allow_of_refuses`, `allow_of_not_refuses`: an event is refused and nothing changes, or it is
  allowed and the mark is set;
* `settle_of_grants`, `settle_of_not_grants`: an exchange grants something, which the session
  absorbs, or it fails and the client is what it was;
* `takeIn_of_success`, `takeIn_of_not_success`: the same of the bytes of a reply;
* `announceWhile_of_refuses`, `announceWhile_of_not_refuses`: the four moments together.

Proofs about overlapping announcements rest on these and open none of the definitions.
-/
import Swarm.Announce.Client

namespace Swarm.Announce

/-! ## 1. Sessions -/

namespace Session

/-- **Completion is never taken back**, and only its own announcement makes it known. -/
theorem completed_absorb (policy : MergePolicy) (event : Event) (s : Session) (g : Grant) :
    (s.absorb policy event g).completed = true ↔ s.completed = true ∨ event = .completed := by
  cases event <;> simp [absorb, note]

end Session

namespace Client

/-! ## 2. Allowing and releasing -/

/-- The client does not announce the event: it is that the download is complete, and that has
been announced or is being announced. -/
def Refuses (c : Client) (event : Event) : Prop :=
  event = .completed ∧ (c.session.completed = true ∨ c.completing = true)

/-- The client once an event is under way. -/
def mark (c : Client) (event : Event) : Client :=
  if event = .completed then { c with completing := true } else c

theorem allow_of_refuses {c : Client} {event : Event} (h : c.Refuses event) :
    c.allow event = .error (.alreadyCompleted c.session.infoHash) := by
  obtain ⟨rfl, h⟩ := h
  unfold allow
  rw [if_pos rfl, if_pos (by simpa using h)]

theorem allow_of_not_refuses {c : Client} {event : Event} (h : ¬ c.Refuses event) :
    c.allow event = .ok (c.mark event) := by
  unfold allow mark
  split
  · rename_i he
    rw [if_neg (fun hc => h ⟨he, by simpa using hc⟩)]
  · rfl

theorem mark_completed (c : Client) : c.mark .completed = { c with completing := true } := rfl

theorem mark_of_ne {event : Event} (c : Client) (h : event ≠ .completed) : c.mark event = c :=
  if_neg h

theorem release_completed (c : Client) :
    c.release .completed = { c with completing := false } := rfl

theorem release_of_ne {event : Event} (c : Client) (h : event ≠ .completed) :
    c.release event = c :=
  if_neg h

@[simp] theorem session_mark (c : Client) (event : Event) :
    (c.mark event).session = c.session := by
  unfold mark
  split <;> rfl

@[simp] theorem session_release (c : Client) (event : Event) :
    (c.release event).session = c.session := by
  unfold release
  split <;> rfl

/-- A new client has announced nothing. -/
theorem of_new {readUrl : Net.UrlReader} {announce : String} {infoHash : Digest} {peerId : PeerId}
    {left : Count} {settings : Settings} {c : Client}
    (h : new readUrl announce infoHash peerId left settings = .ok c) :
    c.session = Session.begin infoHash peerId left settings.defaultInterval ∧
      c.completing = false := by
  unfold new at h
  split at h
  · exact absurd h (by simp)
  · split at h
    · obtain rfl := Except.ok.inj h
      exact ⟨rfl, rfl⟩
    · exact absurd h (by simp)

/-! ## 3. Taking in -/

/-- **An exchange that grants something**: the answer came with status 200 and as a whole, and
its bytes read as a success. -/
def Exchange.Grants (exchange : Exchange) (grant : Grant) : Prop :=
  ∃ body, exchange = .answered 200 (some body) ∧ Reply.ofBytes body = .ok (.success grant)

/-- The client after a grant. -/
def gain (c : Client) (event : Event) (grant : Grant) : Client :=
  c.mapSession fun s => s.absorb c.settings.mergePolicy event grant

theorem takeIn_of_success (c : Client) (event : Event) {body : Bytes} {grant : Grant}
    (h : Reply.ofBytes body = .ok (.success grant)) :
    (c.takeIn event body).client = c.gain event grant ∧
      (c.takeIn event body).result = .ok grant.peers := by
  unfold takeIn
  rw [h]
  exact ⟨rfl, rfl⟩

theorem takeIn_of_not_success (c : Client) (event : Event) {body : Bytes}
    (h : ¬ ∃ grant, Reply.ofBytes body = .ok (.success grant)) :
    (c.takeIn event body).client = c ∧ ∃ e, (c.takeIn event body).result = .error e := by
  unfold takeIn
  split
  · rename_i e _
    exact ⟨rfl, e, rfl⟩
  · rename_i reason _
    exact ⟨rfl, .refused reason, rfl⟩
  · rename_i grant hg
    exact absurd ⟨grant, hg⟩ h

theorem settle_of_grants (c : Client) (event : Event) {exchange : Exchange} {grant : Grant}
    (h : exchange.Grants grant) :
    (c.settle event exchange).client = c.gain event grant ∧
      (c.settle event exchange).result = .ok grant.peers := by
  obtain ⟨body, rfl, hbody⟩ := h
  exact takeIn_of_success c event hbody

theorem settle_of_not_grants (c : Client) (event : Event) {exchange : Exchange}
    (h : ¬ ∃ grant, exchange.Grants grant) :
    (c.settle event exchange).client = c ∧ ∃ e, (c.settle event exchange).result = .error e := by
  unfold settle
  split
  · exact ⟨rfl, .transport, rfl⟩
  · split
    · rename_i status body hs
      subst hs
      cases body with
      | none => exact ⟨rfl, .transport, rfl⟩
      | some bytes =>
        refine takeIn_of_not_success c event ?_
        rintro ⟨grant, hg⟩
        exact h ⟨grant, bytes, rfl, hg⟩
    · exact ⟨rfl, _, rfl⟩

/-- Taking in neither sets nor clears the mark. -/
@[simp] theorem completing_gain (c : Client) (event : Event) (grant : Grant) :
    (c.gain event grant).completing = c.completing := rfl

theorem completed_gain (c : Client) (event : Event) (grant : Grant) :
    (c.gain event grant).session.completed = true ↔
      c.session.completed = true ∨ event = .completed :=
  Session.completed_absorb c.settings.mergePolicy event c.session grant

/-! ## 4. Whole announcements -/

/-- An event that is not allowed leaves no trace. -/
theorem announceWhile_of_refuses {c : Client} {event : Event} (meanwhile : Client → Client)
    (exchange : Exchange) (h : c.Refuses event) :
    c.announceWhile event meanwhile exchange =
      ⟨c, [], .error (.alreadyCompleted c.session.infoHash)⟩ := by
  unfold announceWhile send
  rw [allow_of_refuses h]
  rfl

/-- What happens meanwhile finds the mark set; the exchange is taken in, and the mark released,
after it. -/
theorem announceWhile_of_not_refuses {c : Client} {event : Event} (meanwhile : Client → Client)
    (exchange : Exchange) (h : ¬ c.Refuses event) :
    (c.announceWhile event meanwhile exchange).client =
        ((meanwhile (c.mark event)).settle event exchange).client.release event ∧
      (c.announceWhile event meanwhile exchange).result =
        ((meanwhile (c.mark event)).settle event exchange).result := by
  unfold announceWhile send
  rw [allow_of_not_refuses h]
  exact ⟨rfl, rfl⟩

end Client
end Swarm.Announce
