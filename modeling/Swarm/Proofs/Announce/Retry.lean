/-
# Which failed announcements say that they may be tried again

An announcement that fails leaves its client as it was (`announcement_all_or_nothing`), so it can
be tried again as it is.  `Error.isRetryable` says so of some failures only.  What became of the
request decides, and there are three cases (`Exchange.cases`):

* it **grants** something, and the announcement succeeds;
* it **fails for now** (`Exchange.FailsForNow`): no answer, a status other than 200, a reason for
  failure, or a list of peers that will not do.  Such a failure is said to be retryable.
* it is **unreadable** (`Exchange.Unreadable`): the bytes are no value, or no dictionary, or one of
  which another field will not do.  Such a failure is not said to be retryable, although the
  tracker may well answer otherwise the next time.

A list of peers is the one part of a reply whose faults are told from faults of a document, and so
the one that counts as the tracker's.
-/
import Swarm.Net.Url.Reading
import Swarm.Proofs.Announce.Client
import Swarm.Proofs.Announce.Reply

namespace Swarm.Announce

open Bencode
open Swarm.Field (find?)

/-! ## 1. Why a reply is refused -/

namespace Reply

/-- **The list of peers will not do**, and nothing that is read before it decides. -/
structure ListsBadly (d : Dictionary Value) : Prop where
  noReason : GivesNoReason d
  interval : ∃ n : Int64, find? d "interval" = some (.integer n) ∧ 0 ≤ n.toInt
  peers : ∃ v, find? d "peers" = some v ∧ ¬ Peer.IsPeerList v

theorem ofValue_of_listsBadly {d : Dictionary Value} (h : ListsBadly d) :
    ∃ fault, ofValue (.dictionary d) = .error (.peerList fault) := by
  obtain ⟨n, hn, hpositive⟩ := h.interval
  obtain ⟨c, hc⟩ := exists_isCount_iff.mpr ⟨n, rfl, hpositive⟩
  obtain ⟨v, hv, hbad⟩ := h.peers
  obtain ⟨fault, -, hfault, -⟩ := Peer.exists_fault_of_not_isPeerList hbad
  have hinterval := readInterval_eq_ok_iff.mpr ⟨_, hn, hc⟩
  refine ⟨fault, ?_⟩
  simp only [ofValue, Field.dictionary, Except.mapError, ok_bind,
    readFailure_eq_none_iff.mpr h.noReason, Peer.readGrant_of_peers hinterval hv hfault]
  rfl

/-- The failure is of a field, or of what is listed badly. -/
def FieldOrPeers (d : Dictionary Value) (e : Error) : Prop := (∃ x, e = .field x) ∨ ListsBadly d

theorem failsWith_field {α : Type} (d : Dictionary Value) (x : Except FieldError α) :
    FailsWith (FieldOrPeers d) (x.mapError .field) := by
  intro e he
  obtain ⟨e', -, rfl⟩ := mapError_eq_error_iff.mp he
  exact .inl ⟨e', rfl⟩

theorem failsWith_readGrant {d : Dictionary Value} (h : GivesNoReason d) :
    FailsWith (FieldOrPeers d) (readGrant d) := by
  have hfield {α : Type} (x : Except FieldError α) := failsWith_field d x
  refine .bind (hfield _) fun c hc => .bind (hfield _) fun v hv => .bind ?_ fun _ _ => ?_
  · intro e he
    obtain ⟨fault, hfault, -⟩ := mapError_eq_error_iff.mp he
    have hlist : ¬ Peer.IsPeerList v := by
      intro hlist
      obtain ⟨ps, hps⟩ := Peer.exists_readList_iff.mpr hlist
      rw [hps] at hfault
      exact absurd hfault nofun
    obtain ⟨w, hw, hcount⟩ := readInterval_eq_ok_iff.mp (mapError_eq_ok_iff.mp hc)
    obtain ⟨n, rfl, hn⟩ := exists_isCount_iff.mp ⟨c, hcount⟩
    exact .inr ⟨h, ⟨n, hw, hn⟩, v, Field.required_eq_ok_iff.mp (mapError_eq_ok_iff.mp hv), hlist⟩
  · exact .bind (hfield _) fun _ _ => .bind (hfield _) fun _ _ => .bind (hfield _) fun _ _ =>
      .bind (hfield _) fun _ _ => .bind (hfield _) fun _ _ => .pure _

/-- **A dictionary is refused for one of its fields, unless it is for its list of peers.** -/
theorem failsWith_ofValue (d : Dictionary Value) :
    FailsWith (FieldOrPeers d) (ofValue (.dictionary d)) := by
  refine .bind (failsWith_field d _) fun d' hd => .bind (failsWith_field d _) fun read hread => ?_
  obtain rfl := Value.dictionary.inj (Field.dictionary_eq_ok_iff.mp (mapError_eq_ok_iff.mp hd))
  cases read with
  | some reason => exact .pure _
  | none =>
    have hno := readFailure_eq_none_iff.mp (mapError_eq_ok_iff.mp hread)
    exact .bind (failsWith_readGrant hno) fun _ _ => .pure _

end Reply

/-! ## 2. What can become of a request -/

namespace Client

open Reply (GivesReason IsGrant ListsBadly)

/-- **It fails for now**: for want of an answer, by its status, by the reason that the tracker
gives, or by the peers that it lists. -/
inductive Exchange.FailsForNow : Exchange → Prop
  | lost : FailsForNow .lost
  | brokenOff : FailsForNow (.answered 200 none)
  | status {status : Nat} {body : Option Bytes} (h : status ≠ 200) :
      FailsForNow (.answered status body)
  | refusal {body : Bytes} {d : Dictionary Value} {reason : String}
      (hbody : decode body = .ok (.dictionary d)) (h : GivesReason d reason) :
      FailsForNow (.answered 200 (some body))
  | peers {body : Bytes} {d : Dictionary Value} (hbody : decode body = .ok (.dictionary d))
      (h : ListsBadly d) : FailsForNow (.answered 200 (some body))

/-- **It is unreadable**: the whole of an answer with status 200, whose bytes are no value, or no
dictionary, or one with a field other than the list of peers that will not do. -/
inductive Exchange.Unreadable : Exchange → Prop
  | bytes {body : Bytes} (h : ∀ v, decode body ≠ .ok v) : Unreadable (.answered 200 (some body))
  | kind {body : Bytes} {v : Value} (hbody : decode body = .ok v) (h : v.kind ≠ .dictionary) :
      Unreadable (.answered 200 (some body))
  | fields {body : Bytes} {d : Dictionary Value} (hbody : decode body = .ok (.dictionary d))
      (hreason : ∀ reason, ¬ GivesReason d reason) (hgrant : ¬ IsGrant d)
      (hpeers : ¬ ListsBadly d) : Unreadable (.answered 200 (some body))

theorem ofBytes_of_decode {body : Bytes} {v : Value} (h : decode body = .ok v) :
    Reply.ofBytes body = Reply.ofValue v := by
  rw [Reply.ofBytes, h]
  rfl

/-- **There is no other case.** -/
theorem Exchange.cases (exchange : Exchange) :
    (∃ grant, exchange.Grants grant) ∨ exchange.FailsForNow ∨ exchange.Unreadable := by
  match exchange with
  | .lost => exact .inr (.inl .lost)
  | .answered status body =>
    by_cases hstatus : status = 200
    swap
    · exact .inr (.inl (.status hstatus))
    subst hstatus
    cases body with
    | none => exact .inr (.inl .brokenOff)
    | some body =>
      match hbody : decode body with
      | .error e => exact .inr (.inr (.bytes fun v => by simp [hbody]))
      | .ok (.integer _) | .ok (.byteString _) | .ok (.list _) =>
        exact .inr (.inr (.kind hbody (by simp [Value.kind])))
      | .ok (.dictionary d) =>
        by_cases hreason : ∃ reason, GivesReason d reason
        · obtain ⟨reason, hreason⟩ := hreason
          exact .inr (.inl (.refusal hbody hreason))
        by_cases hgrant : IsGrant d
        · obtain ⟨g, hg⟩ := Reply.exists_grants_iff.mpr hgrant
          have hread : Reply.ofBytes body = .ok (.success g) := by
            rw [ofBytes_of_decode hbody]
            exact Reply.ofValue_eq_success_iff.mpr ⟨d, rfl, hg⟩
          exact .inl ⟨g, body, rfl, hread⟩
        by_cases hpeers : ListsBadly d
        · exact .inr (.inl (.peers hbody hpeers))
        · exact .inr (.inr (.fields hbody (not_exists.mp hreason) hgrant hpeers))

/-! ## 3. What its failure says -/

theorem settle_of_failsForNow (c : Client) (event : Event) {exchange : Exchange}
    (h : exchange.FailsForNow) :
    ∃ e, (c.settle event exchange).result = .error e ∧ e.isRetryable = true := by
  cases h with
  | lost => exact ⟨.transport, rfl, rfl⟩
  | brokenOff => exact ⟨.transport, rfl, rfl⟩
  | @status status body h =>
    refine ⟨.httpStatus status (statusMessage status (body.getD [])), ?_, rfl⟩
    simp only [settle, if_neg h]
  | @refusal body d reason hbody h =>
    refine ⟨.refused reason, ?_, rfl⟩
    rw [settle, if_pos rfl, takeIn, ofBytes_of_decode hbody,
      Reply.ofValue_eq_failure_iff.mpr ⟨_, rfl, h⟩]
  | peers hbody h =>
    obtain ⟨fault, hfault⟩ := Reply.ofValue_of_listsBadly h
    refine ⟨.peerList fault, ?_, rfl⟩
    rw [settle, if_pos rfl, takeIn, ofBytes_of_decode hbody, hfault]

/-- The failure is one of a document, and not of the tracker. -/
def OfDocument (e : Error) : Prop := (∃ x, e = .decode x) ∨ ∃ x, e = .field x

theorem OfDocument.not_isRetryable {e : Error} (h : OfDocument e) :
    e.isRetryable = false ∧ ∀ infoHash, e ≠ .alreadyCompleted infoHash := by
  rcases h with ⟨x, rfl⟩ | ⟨x, rfl⟩
  · exact ⟨rfl, fun _ => nofun⟩
  · exact ⟨rfl, fun _ => nofun⟩

theorem ofBytes_of_unreadable {body : Bytes}
    (h : Exchange.Unreadable (.answered 200 (some body))) :
    ∃ e, Reply.ofBytes body = .error e ∧ OfDocument e := by
  cases h with
  | bytes h =>
    cases hbody : decode body with
    | ok v => exact absurd hbody (h v)
    | error e =>
      refine ⟨.decode e, ?_, .inl ⟨e, rfl⟩⟩
      rw [Reply.ofBytes, hbody]
      rfl
  | @kind _ v hbody h =>
    have hread : ∃ x, Field.dictionary "response" v = .error x := by
      cases v with
      | dictionary d => exact absurd rfl h
      | integer _ | byteString _ | list _ => exact ⟨_, rfl⟩
    obtain ⟨x, hx⟩ := hread
    refine ⟨.field x, ?_, .inr ⟨x, rfl⟩⟩
    rw [ofBytes_of_decode hbody, Reply.ofValue, hx]
    rfl
  | @fields _ d hbody hreason hgrant hpeers =>
    rw [ofBytes_of_decode hbody]
    cases hread : Reply.ofValue (.dictionary d) with
    | error e =>
      rcases Reply.failsWith_ofValue d e hread with hfield | hlist
      · exact ⟨e, rfl, .inr hfield⟩
      · exact absurd hlist hpeers
    | ok reply =>
      cases reply with
      | failure reason =>
        obtain ⟨_, hd, h⟩ := Reply.ofValue_eq_failure_iff.mp hread
        obtain rfl := Value.dictionary.inj hd
        exact absurd h (hreason reason)
      | success g =>
        obtain ⟨_, hd, h⟩ := Reply.ofValue_eq_success_iff.mp hread
        obtain rfl := Value.dictionary.inj hd
        exact absurd (Reply.exists_grants_iff.mp ⟨g, h⟩) hgrant

theorem settle_of_unreadable (c : Client) (event : Event) {exchange : Exchange}
    (h : exchange.Unreadable) :
    ∃ e, (c.settle event exchange).result = .error e ∧ OfDocument e := by
  obtain ⟨body, rfl⟩ : ∃ body, exchange = .answered 200 (some body) := by
    cases h <;> exact ⟨_, rfl⟩
  obtain ⟨e, he, hdocument⟩ := ofBytes_of_unreadable h
  refine ⟨e, ?_, hdocument⟩
  rw [settle, if_pos rfl, takeIn, he]

theorem failsForNow_iff (c : Client) (event : Event) (exchange : Exchange) :
    exchange.FailsForNow ↔
      ∃ e, (c.settle event exchange).result = .error e ∧ e.isRetryable = true := by
  refine ⟨settle_of_failsForNow c event, ?_⟩
  rintro ⟨e, he, hretryable⟩
  rcases exchange.cases with ⟨grant, hgrant⟩ | h | h
  · rw [(settle_of_grants c event hgrant).2] at he
    exact absurd he nofun
  · exact h
  · obtain ⟨e', he', hdocument⟩ := settle_of_unreadable c event h
    obtain rfl := Except.error.inj (he.symm.trans he')
    exact absurd hretryable (by simp [hdocument.not_isRetryable.1])

theorem unreadable_iff (c : Client) (event : Event) (exchange : Exchange) :
    exchange.Unreadable ↔
      ∃ e, (c.settle event exchange).result = .error e ∧ e.isRetryable = false := by
  constructor
  · intro h
    obtain ⟨e, he, hdocument⟩ := settle_of_unreadable c event h
    exact ⟨e, he, hdocument.not_isRetryable.1⟩
  · rintro ⟨e, he, hnot⟩
    rcases exchange.cases with ⟨grant, hgrant⟩ | h | h
    · rw [(settle_of_grants c event hgrant).2] at he
      exact absurd he nofun
    · obtain ⟨e', he', hretryable⟩ := settle_of_failsForNow c event h
      obtain rfl := Except.error.inj (he.symm.trans he')
      exact absurd hretryable (by simp [hnot])
    · exact h

/-- What becomes of a request never says that the completion has been announced. -/
theorem settle_ne_alreadyCompleted (c : Client) (event : Event) (exchange : Exchange)
    (infoHash : Digest) :
    (c.settle event exchange).result ≠ .error (.alreadyCompleted infoHash) := by
  intro he
  have hunreadable := (unreadable_iff c event exchange).mpr ⟨_, he, rfl⟩
  obtain ⟨e', he', hdocument⟩ := settle_of_unreadable c event hunreadable
  exact hdocument.not_isRetryable.2 infoHash (Except.error.inj (he'.symm.trans he))

/-- **Which failures say that they may be tried again.**  An announcement fails with a failure that
says so exactly if it is allowed and its request fails for now.  It fails with one that does not
say so if the answer is unreadable, and otherwise only if it is refused because the completion has
been announced or is being announced. -/
theorem failure_isRetryable_iff (c : Client) (event : Event) (meanwhile : Client → Client)
    (exchange : Exchange) :
    let result := (c.announceWhile event meanwhile exchange).result
    ((∃ e, result = .error e ∧ e.isRetryable = true) ↔
        ¬ c.Refuses event ∧ exchange.FailsForNow) ∧
      ((∃ e, result = .error e ∧ e.isRetryable = false ∧
          ∀ infoHash, e ≠ .alreadyCompleted infoHash) ↔
        ¬ c.Refuses event ∧ exchange.Unreadable) ∧
      ((∃ infoHash, result = .error (.alreadyCompleted infoHash)) ↔ c.Refuses event) := by
  intro result
  by_cases hr : c.Refuses event
  · have hresult : result = .error (.alreadyCompleted c.session.infoHash) :=
      congrArg Outcome.result (announceWhile_of_refuses meanwhile exchange hr)
    simp [hresult, hr, Error.isRetryable]
  · have hresult : result = ((meanwhile (c.mark event)).settle event exchange).result :=
      (announceWhile_of_not_refuses meanwhile exchange hr).2
    rw [hresult, failsForNow_iff (meanwhile (c.mark event)) event exchange,
      unreadable_iff (meanwhile (c.mark event)) event exchange]
    have hnever := settle_ne_alreadyCompleted (meanwhile (c.mark event)) event exchange
    refine ⟨by simp [hr], ?_, iff_of_false (fun h => h.elim hnever) hr⟩
    constructor
    · rintro ⟨e, he, hnot, -⟩
      exact ⟨hr, e, he, hnot⟩
    · rintro ⟨-, e, he, hnot⟩
      exact ⟨e, he, hnot, fun infoHash heq => hnever infoHash (heq ▸ he)⟩

/-- An answer that is no value is not said to be worth another try, although the client is what it
was. -/
theorem failure_not_isRetryable :
    ∃ c : Client,
      Client.new Net.Url.readAscii "http://a/b" ⟨⟨List.replicate 20 1, rfl⟩⟩
        ⟨⟨List.replicate 20 2, rfl⟩⟩ 7 {} = .ok c ∧
      let outcome := c.announceWhile .started id (.answered 200 (some (Text.utf8 "garbage")))
      let e : Error := .decode (.malformed 0 (.unknownTag 0x67))
      outcome.result = .error e ∧ (∀ infoHash, e ≠ .alreadyCompleted infoHash) ∧
        e.isRetryable = false ∧ outcome.client = c := by
  refine ⟨_, rfl, ?_, fun _ => nofun, rfl, ?_⟩
  · rfl
  · rfl

end Client
end Swarm.Announce
