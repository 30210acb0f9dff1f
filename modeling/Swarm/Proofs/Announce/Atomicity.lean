/-
# Announcements are all or nothing

While a request is under way, other operations change the same client.  An announcement that
succeeds absorbs its grant into what they have made of it; one that fails, however it fails,
leaves exactly what they would have made of the client had there been no announcement.

The second part compares two runs.  While the completion is being announced the mark is set,
and the operations meet a client that differs from the undisturbed one in that mark alone:
`runAll_mark` is the simulation between the two.  All that the mark does to them is that their
own announcements of the completion are refused, so those are left out on the undisturbed side
(`withoutCompleted`).
-/
import Swarm.Proofs.Announce.Client

namespace Swarm.Announce

open Client (Exchange Outcome)

/-! ## 1. Operations -/

/-- Whatever may be done to a client while a request is under way; what announces something has
operations of its own under way. -/
inductive Operation
  | uploaded (bytes : Count)
  | downloaded (bytes : Count)
  | setLeft (bytes : Count)
  | update (body : Bytes)
  /-- The ordinary announcement, whose event the session decides. -/
  | announce (meanwhile : List Operation) (exchange : Exchange)
  | request (event : Event) (meanwhile : List Operation) (exchange : Exchange)

mutual

/-- The client after an operation. -/
def Operation.run : Operation → Client → Client
  | .uploaded bytes, c => c.mapSession (·.recordUploaded bytes)
  | .downloaded bytes, c => c.mapSession (·.recordDownloaded bytes)
  | .setLeft bytes, c => c.mapSession (·.setLeft bytes)
  | .update body, c => (c.update body).client
  | .announce meanwhile exchange, c =>
    (c.announceWhile c.session.nextEvent (fun d => runAll meanwhile d) exchange).client
  | .request event meanwhile exchange, c =>
    (c.announceWhile event (fun d => runAll meanwhile d) exchange).client

/-- The client after operations, one after another. -/
def runAll : List Operation → Client → Client
  | [], c => c
  | op :: ops, c => runAll ops (op.run c)

end

mutual

/-- An operation without announcements of the completion, also within others. -/
def Operation.withoutCompleted : Operation → List Operation
  | .uploaded bytes => [.uploaded bytes]
  | .downloaded bytes => [.downloaded bytes]
  | .setLeft bytes => [.setLeft bytes]
  | .update body => [.update body]
  | .announce meanwhile exchange => [.announce (withoutCompleted meanwhile) exchange]
  | .request event meanwhile exchange =>
    if event = .completed then [] else [.request event (withoutCompleted meanwhile) exchange]

/-- Operations without announcements of the completion. -/
def withoutCompleted : List Operation → List Operation
  | [] => []
  | op :: ops => op.withoutCompleted ++ withoutCompleted ops

end

theorem runAll_append (ops rest : List Operation) (c : Client) :
    runAll (ops ++ rest) c = runAll rest (runAll ops c) := by
  induction ops generalizing c with
  | nil => rfl
  | cons op ops ih => exact ih (op.run c)

/-! ## 2. Taking in does not look at the mark -/

namespace Client

theorem gain_mark (c : Client) (event : Event) (grant : Grant) :
    (c.mark .completed).gain event grant = (c.gain event grant).mark .completed := rfl

theorem refuses_mark (c : Client) : (c.mark .completed).Refuses .completed := ⟨rfl, .inr rfl⟩

theorem not_refuses_of_ne {event : Event} (c : Client) (h : event ≠ .completed) :
    ¬ c.Refuses event := fun hr => h hr.1

theorem settle_mark (c : Client) (event : Event) (exchange : Exchange) :
    ((c.mark .completed).settle event exchange).client =
      (c.settle event exchange).client.mark .completed := by
  by_cases h : ∃ grant, exchange.Grants grant
  · obtain ⟨grant, h⟩ := h
    rw [(settle_of_grants _ event h).1, (settle_of_grants _ event h).1, gain_mark]
  · rw [(settle_of_not_grants _ event h).1, (settle_of_not_grants _ event h).1]

theorem update_mark (c : Client) (body : Bytes) :
    ((c.mark .completed).update body).client = (c.update body).client.mark .completed := by
  by_cases h : ∃ grant, Reply.ofBytes body = .ok (.success grant)
  · obtain ⟨grant, h⟩ := h
    rw [update, update, (takeIn_of_success _ _ h).1, (takeIn_of_success _ _ h).1, gain_mark]
  · rw [update, update, (takeIn_of_not_success _ _ h).1, (takeIn_of_not_success _ _ h).1]

theorem completing_settle (c : Client) (event : Event) (exchange : Exchange) :
    (c.settle event exchange).client.completing = c.completing := by
  by_cases h : ∃ grant, exchange.Grants grant
  · obtain ⟨grant, h⟩ := h
    rw [(settle_of_grants c event h).1, completing_gain]
  · rw [(settle_of_not_grants c event h).1]

theorem completing_update (c : Client) (body : Bytes) :
    (c.update body).client.completing = c.completing := by
  by_cases h : ∃ grant, Reply.ofBytes body = .ok (.success grant)
  · obtain ⟨grant, h⟩ := h
    rw [update, (takeIn_of_success c _ h).1, completing_gain]
  · rw [update, (takeIn_of_not_success c _ h).1]

/-- An announcement of anything but the completion neither sets nor clears the mark. -/
theorem announceWhile_of_ne {event : Event} (c : Client) (meanwhile : Client → Client)
    (exchange : Exchange) (h : event ≠ .completed) :
    (c.announceWhile event meanwhile exchange).client =
      ((meanwhile c).settle event exchange).client := by
  rw [(announceWhile_of_not_refuses meanwhile exchange (not_refuses_of_ne c h)).1,
    mark_of_ne c h, release_of_ne _ h]

theorem nextEvent_ne_completed (s : Session) : s.nextEvent ≠ .completed := by
  unfold Session.nextEvent
  split <;> simp

end Client

/-! ## 3. The simulation -/

open Client

mutual

/-- **An operation does to the marked client what it does, its announcements of the completion
left out, to the unmarked one.** -/
theorem Operation.run_mark : ∀ (op : Operation) (c : Client),
    op.run (c.mark .completed) = (runAll op.withoutCompleted c).mark .completed
  | .uploaded _, _ => rfl
  | .downloaded _, _ => rfl
  | .setLeft _, _ => rfl
  | .update body, c => update_mark c body
  | .announce meanwhile exchange, c => by
    have hne := nextEvent_ne_completed c.session
    simp only [Operation.run, Operation.withoutCompleted, runAll, session_mark]
    rw [announceWhile_of_ne _ _ _ hne, announceWhile_of_ne _ _ _ hne, runAll_mark meanwhile c,
      settle_mark]
  | .request event meanwhile exchange, c => by
    simp only [Operation.run, Operation.withoutCompleted]
    split
    · rename_i he
      subst he
      rw [announceWhile_of_refuses _ _ (refuses_mark c)]
      rfl
    · rename_i hne
      simp only [runAll, Operation.run]
      rw [announceWhile_of_ne _ _ _ hne, announceWhile_of_ne _ _ _ hne, runAll_mark meanwhile c,
        settle_mark]

/-- The same of operations one after another. -/
theorem runAll_mark : ∀ (ops : List Operation) (c : Client),
    runAll ops (c.mark .completed) = (runAll (withoutCompleted ops) c).mark .completed
  | [], _ => rfl
  | op :: ops, c => by
    simp only [runAll, withoutCompleted]
    rw [op.run_mark c, runAll_mark ops, runAll_append]

end

mutual

theorem Operation.completing_run : ∀ (op : Operation) (c : Client),
    (runAll op.withoutCompleted c).completing = c.completing
  | .uploaded _, _ => rfl
  | .downloaded _, _ => rfl
  | .setLeft _, _ => rfl
  | .update body, c => completing_update c body
  | .announce meanwhile exchange, c => by
    have hne := nextEvent_ne_completed c.session
    simp only [Operation.run, Operation.withoutCompleted, runAll]
    rw [announceWhile_of_ne _ _ _ hne, completing_settle, completing_runAll meanwhile c]
  | .request event meanwhile exchange, c => by
    simp only [Operation.withoutCompleted]
    split
    · rfl
    · rename_i hne
      simp only [runAll, Operation.run]
      rw [announceWhile_of_ne _ _ _ hne, completing_settle, completing_runAll meanwhile c]

/-- Without announcements of the completion the mark stays as it is. -/
theorem completing_runAll : ∀ (ops : List Operation) (c : Client),
    (runAll (withoutCompleted ops) c).completing = c.completing
  | [], _ => rfl
  | op :: ops, c => by
    simp only [withoutCompleted]
    rw [runAll_append, completing_runAll ops, op.completing_run c]

end

/-! ## 4. All or nothing -/

instance (c : Client) (event : Event) : Decidable (c.Refuses event) :=
  inferInstanceAs (Decidable (_ ∧ _))

/-- **What the operations alone make of the client** that run while `event` is being announced.
None do if it is refused; and while the completion is being announced, announcing it again is
refused and does nothing. -/
def Client.alone (c : Client) (event : Event) (ops : List Operation) : Client :=
  if c.Refuses event then c
  else if event = .completed then runAll (withoutCompleted ops) c
  else runAll ops c

/-- **All or nothing.**  Something is taken in for an event: if it grants something, that is
absorbed into what the client was and the result is a success; otherwise the result is a
failure and the client is what it was. -/
structure AllOrNothing (before : Client) (event : Event) (grants : Grant → Prop) (o : Outcome) :
    Prop where
  ok_iff : (∃ peers, o.result = .ok peers) ↔ ∃ grant, grants grant
  all : ∀ grant, grants grant →
    o.result = .ok grant.peers ∧ o.client = before.gain event grant
  nothing : ∀ e, o.result = .error e → o.client = before

/-- What is enough: it either grants and gains, or does not and fails. -/
theorem AllOrNothing.of_cases {before : Client} {event : Event} {grants : Grant → Prop}
    {o : Outcome}
    (hall : ∀ grant, grants grant →
      o.client = before.gain event grant ∧ o.result = .ok grant.peers)
    (hnothing : (¬ ∃ grant, grants grant) → o.client = before ∧ ∃ e, o.result = .error e) :
    AllOrNothing before event grants o where
  ok_iff := by
    refine ⟨?_, ?_⟩
    · rintro ⟨peers, hok⟩
      by_cases h : ∃ grant, grants grant
      · exact h
      · obtain ⟨-, e, he⟩ := hnothing h
        rw [he] at hok
        exact absurd hok (by simp)
    · rintro ⟨grant, h⟩
      exact ⟨grant.peers, (hall grant h).2⟩
  all grant h := ⟨(hall grant h).2, (hall grant h).1⟩
  nothing e he := by
    by_cases h : ∃ grant, grants grant
    · obtain ⟨grant, h⟩ := h
      rw [(hall grant h).2] at he
      exact absurd he (by simp)
    · exact (hnothing h).1

theorem Client.release_mark {c : Client} (h : c.completing = false) :
    (c.mark .completed).release .completed = c := by
  rw [mark_completed, release_completed, ← h]

theorem Client.alone_of_refuses {c : Client} {event : Event} (ops : List Operation)
    (h : c.Refuses event) : c.alone event ops = c :=
  if_pos h

/-- An announcement that is allowed settles as if the operations alone had run before it. -/
theorem Client.client_announceWhile {c : Client} {event : Event} (ops : List Operation)
    (exchange : Exchange) (h : ¬ c.Refuses event) :
    (c.announceWhile event (runAll ops) exchange).client =
      ((c.alone event ops).settle event exchange).client := by
  unfold alone
  rw [if_neg h]
  split
  · rename_i he
    subst he
    have hclear : c.completing = false := by
      cases hm : c.completing with
      | false => rfl
      | true => exact absurd ⟨rfl, .inr hm⟩ h
    have hend : ((runAll (withoutCompleted ops) c).settle .completed exchange).client.completing =
        false := by
      rw [completing_settle, completing_runAll, hclear]
    rw [(announceWhile_of_not_refuses _ exchange h).1, runAll_mark, settle_mark,
      release_mark hend]
  · rename_i hne
    exact announceWhile_of_ne c _ exchange hne

/-- **An announcement is all or nothing**, whatever the client, the event, the exchange and the
operations that run while its request is under way: it succeeds, and absorbs its grant into
what those operations alone make of the client, if and only if it was not refused and the whole
of an answer with status 200 came that reads as a grant.  Otherwise it fails, and the client is
what those operations alone make of it.  A reply that came by another way is taken in
likewise. -/
theorem announcement_all_or_nothing (c : Client) (event : Event) (ops : List Operation)
    (exchange : Exchange) :
    AllOrNothing (c.alone event ops) event
        (fun grant => ¬ c.Refuses event ∧ exchange.Grants grant)
        (c.announceWhile event (runAll ops) exchange) ∧
      (c.Refuses event →
        (c.announceWhile event (runAll ops) exchange).result =
          .error (.alreadyCompleted c.session.infoHash)) ∧
      ∀ body, AllOrNothing c .regular (fun grant => Reply.ofBytes body = .ok (.success grant))
        (c.update body) := by
  refine ⟨.of_cases ?_ ?_, ?_, ?_⟩
  · rintro grant ⟨hr, hg⟩
    rw [client_announceWhile ops exchange hr, (announceWhile_of_not_refuses _ exchange hr).2]
    exact ⟨(settle_of_grants _ event hg).1, (settle_of_grants _ event hg).2⟩
  · intro hnone
    by_cases hr : c.Refuses event
    · rw [announceWhile_of_refuses _ exchange hr, alone_of_refuses ops hr]
      exact ⟨rfl, _, rfl⟩
    · have hlost : ¬ ∃ grant, exchange.Grants grant := by
        rintro ⟨grant, hg⟩
        exact hnone ⟨grant, hr, hg⟩
      rw [client_announceWhile ops exchange hr, (announceWhile_of_not_refuses _ exchange hr).2]
      exact ⟨(settle_of_not_grants _ event hlost).1, (settle_of_not_grants _ event hlost).2⟩
  · intro hr
    rw [announceWhile_of_refuses _ exchange hr]
  · intro body
    exact .of_cases (fun grant hg => takeIn_of_success c .regular hg)
      (fun hnone => takeIn_of_not_success c .regular hnone)

end Swarm.Announce
