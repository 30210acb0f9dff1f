/-
# Overlapping calls of one client

Any number of calls may be made of one client, and their moments fall in any order.
`Traffic.step` lets one moment happen: a call is made, its event is allowed or refused, its
request goes out, its exchange is taken in, it returns; or, outside the calls, a reply is taken
in that came by another way, or bytes are counted.  Each is one moment of `Client`, which is
why none can fall between the check of the flag and the setting of the mark.

Two ledgers that no moment reads, of the requests that went out and of the events that were
taken in, let what has happened be stated.

* `effect_of_step`: everything a moment can do, one case each;
* `run_preserves`: what every moment preserves, every run preserves;
* `completed_of_effect`: that the download is complete is not forgotten;
* `Over.of_effect`: a call that has returned sends nothing any more.
-/
import Swarm.Proofs.Announce.Client

namespace Swarm.Announce

/-! ## 1. Calls -/

/-- How far a call has come. -/
inductive Stage
  /-- It has not been made. -/
  | idle
  /-- It has been made; whether its event is allowed has not been asked. -/
  | called (event : Event)
  /-- Its event has been allowed. -/
  | allowed (event : Event)
  /-- Its request has gone out. -/
  | sent (event : Event)
  /-- What became of its request has been taken in. -/
  | settled (event : Event) (result : Except Error (List Peer))
  | returned (result : Except Error (List Peer))

namespace Stage

/-- The event whose announcement is under way. -/
def underWay : Stage → Option Event
  | allowed event | sent event | settled event _ => some event
  | idle | called _ | returned _ => none

/-- The event whose announcement may yet be taken in. -/
def pending : Stage → Option Event
  | allowed event | sent event => some event
  | idle | called _ | settled _ _ | returned _ => none

/-- No request can have gone out yet. -/
def early : Stage → Bool
  | idle | called _ => true
  | allowed _ | sent _ | settled _ _ | returned _ => false

end Stage

/-! ## 2. Traffic -/

/-- A client, its calls by their numbers, and the ledgers. -/
structure Traffic where
  client : Client
  stage : Nat → Stage
  /-- Which call asked for which URL. -/
  requests : List (Nat × Net.Url)
  /-- The events of the grants that the session has absorbed. -/
  applied : List Event

/-- What may happen next. -/
inductive Moment
  | call (i : Nat) (event : Event)
  /-- The call of an ordinary announcement, whose event the session decides. -/
  | announce (i : Nat)
  | allow (i : Nat)
  | send (i : Nat)
  | settle (i : Nat) (exchange : Client.Exchange)
  | leave (i : Nat)
  | update (body : Bytes)
  | uploaded (bytes : Count)
  | downloaded (bytes : Count)
  | setLeft (bytes : Count)

namespace Traffic

/-- Nothing has happened yet. -/
def start (c : Client) : Traffic := ⟨c, fun _ => .idle, [], []⟩

/-- One call has come to another stage. -/
def move (t : Traffic) (i : Nat) (s : Stage) : Traffic :=
  { t with stage := fun j => if j = i then s else t.stage j }

/-- Something has been taken in for an event. -/
def receive (t : Traffic) (event : Event) (o : Client.Outcome) : Traffic :=
  { t with
    client := o.client
    applied := match o.result with
      | .ok _ => t.applied ++ [event]
      | .error _ => t.applied }

/-- **Lets one moment happen**, if the call it belongs to has come that far. -/
def step (t : Traffic) : Moment → Option Traffic
  | .call i event =>
    match t.stage i with
    | .idle => some (t.move i (.called event))
    | _ => none
  | .announce i =>
    match t.stage i with
    | .idle => some (t.move i (.called t.client.session.nextEvent))
    | _ => none
  | .allow i =>
    match t.stage i with
    | .called event =>
      match t.client.allow event with
      | .error e => some (t.move i (.returned (.error e)))
      | .ok c => some { t.move i (.allowed event) with client := c }
    | _ => none
  | .send i =>
    match t.stage i with
    | .allowed event =>
      some
        { t.move i (.sent event) with
          requests := t.requests ++ [(i, t.client.requestUrl event)] }
    | _ => none
  | .settle i exchange =>
    match t.stage i with
    | .sent event =>
      let o := t.client.settle event exchange
      some ((t.move i (.settled event o.result)).receive event o)
    | _ => none
  | .leave i =>
    match t.stage i with
    | .settled event result =>
      some { t.move i (.returned result) with client := t.client.release event }
    | _ => none
  | .update body => some (t.receive .regular (t.client.update body))
  | .uploaded bytes =>
    some { t with client := t.client.mapSession (·.recordUploaded bytes) }
  | .downloaded bytes =>
    some { t with client := t.client.mapSession (·.recordDownloaded bytes) }
  | .setLeft bytes => some { t with client := t.client.mapSession (·.setLeft bytes) }

/-- Lets moments happen one after another. -/
def run (t : Traffic) : List Moment → Option Traffic
  | [] => some t
  | m :: ms => (t.step m).bind fun t' => t'.run ms

@[simp] theorem stage_move_self (t : Traffic) (i : Nat) (s : Stage) :
    (t.move i s).stage i = s :=
  if_pos rfl

theorem stage_move_of_ne (t : Traffic) {i j : Nat} (s : Stage) (h : j ≠ i) :
    (t.move i s).stage j = t.stage j :=
  if_neg h

/-! ## 3. What a moment can do -/

/-- **Everything a moment can do.**  A call may be made, refused, allowed, sent, granted, fail
or return; outside the calls a grant may be absorbed, or the counts of the session may change
and nothing else of importance. -/
inductive Effect (t : Traffic) : Traffic → Prop
  | called (i : Nat) (event : Event) (h : t.stage i = .idle) :
    Effect t (t.move i (.called event))
  | refused (i : Nat) (event : Event) (h : t.stage i = .called event)
    (hr : t.client.Refuses event) :
    Effect t (t.move i (.returned (.error (.alreadyCompleted t.client.session.infoHash))))
  | allowed (i : Nat) (event : Event) (h : t.stage i = .called event)
    (hr : ¬ t.client.Refuses event) :
    Effect t { t.move i (.allowed event) with client := t.client.mark event }
  | sent (i : Nat) (event : Event) (h : t.stage i = .allowed event) :
    Effect t
      { t.move i (.sent event) with
        requests := t.requests ++ [(i, t.client.requestUrl event)] }
  | granted (i : Nat) (event : Event) (grant : Grant) (h : t.stage i = .sent event) :
    Effect t
      { t.move i (.settled event (.ok grant.peers)) with
        client := t.client.gain event grant
        applied := t.applied ++ [event] }
  | failed (i : Nat) (event : Event) (e : Error) (h : t.stage i = .sent event) :
    Effect t (t.move i (.settled event (.error e)))
  | left (i : Nat) (event : Event) (result : Except Error (List Peer))
    (h : t.stage i = .settled event result) :
    Effect t { t.move i (.returned result) with client := t.client.release event }
  | updated (grant : Grant) :
    Effect t
      { t with
        client := t.client.gain .regular grant
        applied := t.applied ++ [.regular] }
  | counted (change : Session → Session) (h : ∀ s, (change s).completed = s.completed) :
    Effect t { t with client := t.client.mapSession change }

theorem receive_of_ok (t : Traffic) (event : Event) {o : Client.Outcome} {peers : List Peer}
    (h : o.result = .ok peers) :
    t.receive event o = { t with client := o.client, applied := t.applied ++ [event] } := by
  unfold receive
  rw [h]

theorem receive_of_error (t : Traffic) (event : Event) {o : Client.Outcome} {e : Error}
    (h : o.result = .error e) : t.receive event o = { t with client := o.client } := by
  unfold receive
  rw [h]

/-- **A moment does nothing but what `Effect` lists.** -/
theorem effect_of_step {t t' : Traffic} {m : Moment} (h : t.step m = some t') : Effect t t' := by
  cases m with
  | call i event =>
    simp only [step] at h
    split at h
    · rename_i hi
      obtain rfl := Option.some.inj h
      exact .called i event hi
    · exact absurd h (by simp)
  | announce i =>
    simp only [step] at h
    split at h
    · rename_i hi
      obtain rfl := Option.some.inj h
      exact .called i _ hi
    · exact absurd h (by simp)
  | allow i =>
    simp only [step] at h
    split at h
    · rename_i event hi
      by_cases hr : t.client.Refuses event
      · rw [Client.allow_of_refuses hr] at h
        obtain rfl := Option.some.inj h
        exact .refused i event hi hr
      · rw [Client.allow_of_not_refuses hr] at h
        obtain rfl := Option.some.inj h
        exact .allowed i event hi hr
    · exact absurd h (by simp)
  | send i =>
    simp only [step] at h
    split at h
    · rename_i event hi
      obtain rfl := Option.some.inj h
      exact .sent i event hi
    · exact absurd h (by simp)
  | settle i exchange =>
    simp only [step] at h
    split at h
    · rename_i event hi
      obtain rfl := Option.some.inj h
      by_cases hg : ∃ grant, exchange.Grants grant
      · obtain ⟨grant, hg⟩ := hg
        obtain ⟨hc, hr⟩ := Client.settle_of_grants t.client event hg
        rw [receive_of_ok _ _ hr, hc, hr]
        exact .granted i event grant hi
      · obtain ⟨hc, e, hr⟩ := Client.settle_of_not_grants t.client event hg
        rw [receive_of_error _ _ hr, hc, hr]
        exact .failed i event e hi
    · exact absurd h (by simp)
  | leave i =>
    simp only [step] at h
    split at h
    · rename_i event result hi
      obtain rfl := Option.some.inj h
      exact .left i event result hi
    · exact absurd h (by simp)
  | update body =>
    obtain rfl := Option.some.inj h
    by_cases hg : ∃ grant, Reply.ofBytes body = .ok (.success grant)
    · obtain ⟨grant, hg⟩ := hg
      obtain ⟨hc, hr⟩ := Client.takeIn_of_success t.client .regular hg
      rw [Client.update, receive_of_ok _ _ hr, hc]
      exact .updated grant
    · obtain ⟨hc, e, hr⟩ := Client.takeIn_of_not_success t.client .regular hg
      rw [Client.update, receive_of_error _ _ hr, hc]
      exact .counted id fun _ => rfl
  | uploaded bytes =>
    obtain rfl := Option.some.inj h
    exact .counted _ fun _ => rfl
  | downloaded bytes =>
    obtain rfl := Option.some.inj h
    exact .counted _ fun _ => rfl
  | setLeft bytes =>
    obtain rfl := Option.some.inj h
    exact .counted _ fun _ => rfl

/-! ## 4. Whole announcements

`Client.send` and `Client.finish` are the first and the last two moments of a call that nothing
comes between. -/

theorem run_pair {t t₁ t₂ : Traffic} {m₁ m₂ : Moment} (h₁ : t.step m₁ = some t₁)
    (h₂ : t₁.step m₂ = some t₂) : t.run [m₁, m₂] = some t₂ := by
  simp only [run, h₁, h₂, Option.bind_some]

theorem step_allow_of_refuses {t : Traffic} {i : Nat} {event : Event}
    (hi : t.stage i = .called event) (h : t.client.Refuses event) :
    t.step (.allow i) =
      some (t.move i (.returned (.error (.alreadyCompleted t.client.session.infoHash)))) := by
  simp only [step, hi, Client.allow_of_refuses h]

theorem step_allow_of_not_refuses {t : Traffic} {i : Nat} {event : Event}
    (hi : t.stage i = .called event) (h : ¬ t.client.Refuses event) :
    t.step (.allow i) =
      some { t.move i (.allowed event) with client := t.client.mark event } := by
  simp only [step, hi, Client.allow_of_not_refuses h]

theorem step_send {t : Traffic} {i : Nat} {event : Event} (hi : t.stage i = .allowed event) :
    t.step (.send i) =
      some
        { t.move i (.sent event) with
          requests := t.requests ++ [(i, t.client.requestUrl event)] } := by
  simp only [step, hi]

theorem step_settle {t : Traffic} {i : Nat} {event : Event} (exchange : Client.Exchange)
    (hi : t.stage i = .sent event) :
    t.step (.settle i exchange) =
      some
        ((t.move i (.settled event (t.client.settle event exchange).result)).receive event
          (t.client.settle event exchange)) := by
  simp only [step, hi]

theorem step_leave {t : Traffic} {i : Nat} {event : Event} {result : Except Error (List Peer)}
    (hi : t.stage i = .settled event result) :
    t.step (.leave i) =
      some { t.move i (.returned result) with client := t.client.release event } := by
  simp only [step, hi]

theorem run_of_send {t : Traffic} {i : Nat} {event : Event} {c : Client} {s : Client.Sent}
    (hi : t.stage i = .called event) (h : t.client.send event = .ok (c, s)) :
    ∃ t', t.run [.allow i, .send i] = some t' ∧ t'.client = c ∧ t'.stage i = .sent event ∧
      t'.requests = t.requests ++ [(i, s.url)] := by
  by_cases hr : t.client.Refuses event
  · rw [Client.send, Client.allow_of_refuses hr] at h
    exact absurd h (by simp [bind, Except.bind])
  · rw [Client.send, Client.allow_of_not_refuses hr] at h
    obtain ⟨rfl, rfl⟩ := Prod.mk.inj (Except.ok.inj h)
    have hallowed : stage { t.move i (.allowed event) with client := t.client.mark event } i =
        .allowed event := stage_move_self t i _
    have hrun := run_pair (step_allow_of_not_refuses hi hr) (step_send hallowed)
    exact ⟨_, hrun, rfl, stage_move_self _ i _, rfl⟩

theorem run_of_finish {t : Traffic} {i : Nat} {event : Event} (exchange : Client.Exchange)
    (hi : t.stage i = .sent event) :
    ∃ t', t.run [.settle i exchange, .leave i] = some t' ∧
      t'.client = (t.client.finish event exchange).client ∧
      t'.stage i = .returned (t.client.finish event exchange).result := by
  have hsettled := stage_move_self t i (.settled event (t.client.settle event exchange).result)
  have hrun := run_pair (step_settle exchange hi) (step_leave hsettled)
  exact ⟨_, hrun, rfl, stage_move_self _ i _⟩

/-! ## 5. Runs -/

/-- **What every moment preserves, every run preserves.** -/
theorem run_preserves {P : Traffic → Prop} (hP : ∀ {t t' : Traffic}, Effect t t' → P t → P t')
    {t t' : Traffic} {ms : List Moment} (h : t.run ms = some t') (ht : P t) : P t' := by
  induction ms generalizing t with
  | nil =>
    obtain rfl := Option.some.inj h
    exact ht
  | cons m ms ih =>
    unfold run at h
    obtain ⟨t₁, h₁, h₂⟩ := Option.bind_eq_some_iff.mp h
    exact ih h₂ (hP (effect_of_step h₁) ht)

/-- Call `i` has returned `result`, having sent at most what `asked` lists. -/
def Over (i : Nat) (result : Except Error (List Peer)) (asked : List (Nat × Net.Url))
    (t : Traffic) : Prop :=
  t.stage i = .returned result ∧ ∀ url, (i, url) ∈ t.requests → (i, url) ∈ asked

/-- A call that is at another stage is not moved by what moves this one. -/
theorem Over.move {i j : Nat} {result : Except Error (List Peer)}
    {asked : List (Nat × Net.Url)} {t : Traffic} {s : Stage} (h : Over i result asked t)
    (hj : t.stage j ≠ .returned result) : (t.move j s).stage i = .returned result := by
  have hne : i ≠ j := by
    rintro rfl
    exact hj h.1
  rw [stage_move_of_ne t s hne, h.1]

/-- **A call that has returned stays returned and sends nothing any more.** -/
theorem Over.of_effect {i : Nat} {result : Except Error (List Peer)}
    {asked : List (Nat × Net.Url)} {t t' : Traffic} (h : Effect t t') (ht : Over i result asked t) :
    Over i result asked t' := by
  cases h with
  | called j event hj => exact ⟨ht.move (by simp [hj]), ht.2⟩
  | refused j event hj hr => exact ⟨ht.move (by simp [hj]), ht.2⟩
  | allowed j event hj hr => exact ⟨ht.move (by simp [hj]), ht.2⟩
  | sent j event hj =>
    refine ⟨ht.move (by simp [hj]), fun url hurl => ?_⟩
    rcases List.mem_append.mp hurl with hurl | hurl
    · exact ht.2 url hurl
    · obtain ⟨rfl, -⟩ := Prod.mk.inj (List.mem_singleton.mp hurl)
      rw [ht.1] at hj
      exact absurd hj (by simp)
  | granted j event grant hj => exact ⟨ht.move (by simp [hj]), ht.2⟩
  | failed j event e hj => exact ⟨ht.move (by simp [hj]), ht.2⟩
  | left j event result' hj => exact ⟨ht.move (by simp [hj]), ht.2⟩
  | updated grant => exact ht
  | counted change hchange => exact ht

/-- The download is not known to be complete and then unknown to be. -/
theorem completed_of_effect {t t' : Traffic} (h : Effect t t')
    (ht : t.client.session.completed = true) : t'.client.session.completed = true := by
  cases h with
  | called i event hi => exact ht
  | refused i event hi hr => exact ht
  | allowed i event hi hr => exact (congrArg _ (Client.session_mark _ _)).trans ht
  | sent i event hi => exact ht
  | granted i event grant hi => exact (Client.completed_gain _ _ _).mpr (.inl ht)
  | failed i event e hi => exact ht
  | left i event result hi => exact (congrArg _ (Client.session_release _ _)).trans ht
  | updated grant => exact (Client.completed_gain _ _ _).mpr (.inl ht)
  | counted change hchange => exact (hchange _).trans ht

end Traffic
end Swarm.Announce
