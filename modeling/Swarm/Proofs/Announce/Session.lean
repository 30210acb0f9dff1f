/-
# What a session knows, and from where

The fields of a session are kept by different rules: some take the value of every grant, some
only what a grant mentions, and two follow the events of the announcements.  `Told` states each
field in terms of the history, that is of the grants that have been absorbed:

* `told_after`: whatever changes a session, its fields are what its history tells;
* `mem_fields_trackerId_iff`: a query names the id of the tracker if the session has one, and no
  other;
* `session_told_by_history`: so a client that has come of any run knows what the grants told it,
  in the order in which they were absorbed, and says so in its requests.
-/
import Swarm.Net.Url.Reading
import Swarm.Proofs.Announce.History

namespace Swarm.Announce

/-! ## 1. The latest of what is mentioned -/

/-- The latest value that is mentioned in a list. -/
def latest? {ρ α : Type} (mention : ρ → Option α) (history : List ρ) : Option α :=
  (history.filterMap mention).getLast?

theorem latest?_append_singleton {ρ α : Type} (mention : ρ → Option α) (history : List ρ) (r : ρ) :
    latest? mention (history ++ [r]) = (mention r).or (latest? mention history) := by
  unfold latest?
  rw [List.filterMap_append, List.getLast?_append]
  cases h : mention r <;> simp [h]

/-- An event with which a client joins the swarm or leaves it. -/
def Event.turn? : Event → Option Event
  | .started => some .started
  | .stopped => some .stopped
  | .regular | .completed => none

/-- **All that absorbing a grant changes**, for whatever event. -/
theorem Session.absorb_eq (policy : MergePolicy) (event : Event) (s : Session) (g : Grant) :
    s.absorb policy event g =
      { s with
        interval := .ofSeconds g.interval
        minInterval := (g.minInterval.map .ofSeconds).or s.minInterval
        trackerId := g.trackerId.or s.trackerId
        seeders := g.complete.getD s.seeders
        leechers := g.incomplete.getD s.leechers
        peers := PeerBook.enterAll policy s.peers g.peers
        started := (event.turn?.map fun e => decide (e = .started)).getD s.started
        completed := s.completed || decide (event = .completed) } := by
  cases event <;> simp [absorb, note, Event.turn?, Option.orElse_eq_or]

/-! ## 2. What the history tells -/

/-- **The session as its history tells it**, for a client with this hash and id, to which nothing
but its default interval is known at first. -/
structure Told (infoHash : Digest) (peerId : PeerId) (interval : Duration)
    (history : List (Event × Grant)) (s : Session) : Prop where
  infoHash : s.infoHash = infoHash
  peerId : s.peerId = peerId
  interval : s.interval = (history.getLast?.map fun r => .ofSeconds r.2.interval).getD interval
  minInterval : s.minInterval = (latest? (fun r => r.2.minInterval) history).map .ofSeconds
  trackerId : s.trackerId = latest? (fun r => r.2.trackerId) history
  seeders : s.seeders = (latest? (fun r => r.2.complete) history).getD 0
  leechers : s.leechers = (latest? (fun r => r.2.incomplete) history).getD 0
  started : s.started = true ↔ latest? (fun r => r.1.turn?) history = some .started
  completed : s.completed = true ↔ ∃ grant, (.completed, grant) ∈ history

theorem told_begin (infoHash : Digest) (peerId : PeerId) (left : Count) (interval : Duration) :
    Told infoHash peerId interval [] (Session.begin infoHash peerId left interval) := by
  constructor <;> simp [Session.begin, latest?]

section

variable {infoHash : Digest} {peerId : PeerId} {interval : Duration}
  {history : List (Event × Grant)} {s : Session}

/-- Counting is not told by anyone. -/
theorem Told.of_same (h : Told infoHash peerId interval history s) {uploaded downloaded left : Count} :
    Told infoHash peerId interval history { s with uploaded, downloaded, left } :=
  { h with }

/-- What is granted is told from then on. -/
theorem Told.absorb (h : Told infoHash peerId interval history s) (policy : MergePolicy)
    (event : Event) (grant : Grant) :
    Told infoHash peerId interval (history ++ [(event, grant)]) (s.absorb policy event grant) := by
  rw [Session.absorb_eq]
  constructor
  · exact h.infoHash
  · exact h.peerId
  · rw [List.getLast?_append]
    rfl
  · rw [latest?_append_singleton, Option.map_or, ← h.minInterval]
  · rw [latest?_append_singleton, ← h.trackerId]
  · rw [latest?_append_singleton, Option.getD_or, ← h.seeders]
  · rw [latest?_append_singleton, Option.getD_or, ← h.leechers]
  · rw [latest?_append_singleton]
    cases event with
    | regular => exact h.started
    | completed => exact h.started
    | started => simp [Event.turn?]
    | stopped => simp [Event.turn?]
  · rw [Bool.or_eq_true, h.completed, decide_eq_true_eq]
    constructor
    · rintro (⟨g, hg⟩ | rfl)
      · exact ⟨g, List.mem_append_left _ hg⟩
      · exact ⟨grant, List.mem_append_right _ List.mem_cons_self⟩
    · rintro ⟨g, hg⟩
      rcases List.mem_append.mp hg with hg | hg
      · exact .inl ⟨g, hg⟩
      · exact .inr (Prod.mk.inj (List.mem_singleton.mp hg)).1.symm

/-- **Whatever changes a session, its fields are what its history tells.** -/
theorem Told.change (h : Told infoHash peerId interval history s) {policy : MergePolicy}
    (change : Change) :
    Told infoHash peerId interval (history ++ change.grant?.toList) (change.apply policy s) := by
  rcases change.absorbs_or_counts with ⟨event, grant, rfl⟩ | ⟨hnone, hcounts⟩
  · exact h.absorb policy event grant
  · obtain ⟨uploaded, downloaded, left, hsame⟩ := hcounts policy s
    rw [hnone, hsame, Option.toList_none, List.append_nil]
    exact h.of_same

end

theorem told_after (infoHash : Digest) (peerId : PeerId) (left : Count) (interval : Duration)
    (policy : MergePolicy) (changes : List Change) :
    Told infoHash peerId interval (Change.grants changes)
      ((Session.begin infoHash peerId left interval).after policy changes) := by
  refine Session.after_preserves (P := fun past => Told infoHash peerId interval
    (Change.grants past)) ?_ (told_begin infoHash peerId left interval) changes
  intro past s change h
  rw [Change.grants_append_singleton]
  exact h.change change

/-! ## 3. What the requests say -/

/-- **A query names the id of the tracker** if it has one, and does not use that name
otherwise. -/
theorem mem_fields_trackerId_iff {q : Query} {value : String} :
    ("trackerid", value) ∈ q.fields ↔
      ∃ id, q.trackerId = some id ∧ Net.Percent.escapeText Query.escaped id = value := by
  simp [Query.fields]

theorem nextEvent_eq_started_iff {s : Session} : s.nextEvent = .started ↔ s.started = false := by
  unfold Session.nextEvent
  cases s.started <;> simp

namespace Traffic

/-- **What a session knows is what its history tells it.**  After any run of a new client every
field is told by the grants that have been absorbed, in the order in which they were, each with
the event of its announcement; a request that is built then names the id of the tracker that is
known, if there is one; and an ordinary announcement joins the swarm exactly if the session has
not been told that it has been joined. -/
theorem session_told_by_history {readUrl : Net.UrlReader} {announce : String} {infoHash : Digest}
    {peerId : PeerId} {left : Count} {settings : Settings} {c : Client} {past : List Moment}
    {t : Traffic} (hnew : Client.new readUrl announce infoHash peerId left settings = .ok c)
    (hpast : (start c).run past = some t) :
    Told infoHash peerId settings.defaultInterval ((start c).history past) t.client.session ∧
      (∀ event,
        (∀ value, ("trackerid", value) ∈ (t.client.announcement event).fields ↔
          ∃ id, latest? (fun r => r.2.trackerId) ((start c).history past) = some id ∧
            Net.Percent.escapeText Query.escaped id = value) ∧
        ∀ i, t.stage i = .allowed event → ∃ t', t.step (.send i) = some t' ∧
          t'.requests = t.requests ++ [(i, (t.client.announcement event).url t.client.url)]) ∧
      ∀ i, t.stage i = .idle → ∃ t' event, t.step (.announce i) = some t' ∧
        t'.stage i = .called event ∧ (event = .started ∨ event = .regular) ∧
        (event = .started ↔ t.client.session.started = false) := by
  have htold : Told infoHash peerId settings.defaultInterval ((start c).history past)
      t.client.session := by
    rw [session_of_run_new hnew hpast]
    exact told_after infoHash peerId left settings.defaultInterval settings.mergePolicy _
  refine ⟨htold, fun event => ⟨fun value => ?_, fun i hi => ?_⟩, fun i hi => ?_⟩
  · rw [mem_fields_trackerId_iff, ← htold.trackerId]
    rfl
  · exact ⟨_, step_send hi, rfl⟩
  · refine ⟨t.move i (.called t.client.session.nextEvent), t.client.session.nextEvent, ?_,
      stage_move_self t i _, ?_, nextEvent_eq_started_iff⟩
    · simp only [step, hi]
    · unfold Session.nextEvent
      split
      · exact .inr rfl
      · exact .inl rfl

/-- The tracker answers an announcement of leaving, and only then one of joining that was sent
earlier. -/
theorem session_told_by_history_overtaken :
    ∃ (c : Client) (past : List Moment) (t : Traffic),
      Client.new Net.Url.readAscii "http://a/b" ⟨⟨List.replicate 20 1, rfl⟩⟩
        ⟨⟨List.replicate 20 2, rfl⟩⟩ 7 {} = .ok c ∧
      past = [.announce 0, .allow 0, .send 0, .call 1 .stopped, .allow 1, .send 1,
        .settle 1 (.answered 200 (some (Text.utf8 "d8:intervali7e5:peers0:10:tracker id1:xe"))),
        .settle 0 (.answered 200 (some (Text.utf8 "d8:intervali9e5:peers0:e")))] ∧
      (start c).run past = some t ∧ t.client.session.started = true ∧
      t.client.session.interval = .ofSeconds 9 ∧ t.client.session.trackerId = some "x" := by
  obtain ⟨c, hnew⟩ : ∃ c, Client.new Net.Url.readAscii "http://a/b"
    ⟨⟨List.replicate 20 1, rfl⟩⟩ ⟨⟨List.replicate 20 2, rfl⟩⟩ 7 {} = .ok c := ⟨_, rfl⟩
  obtain ⟨past, hschedule⟩ : ∃ past : List Moment,
      past = [.announce 0, .allow 0, .send 0, .call 1 .stopped, .allow 1, .send 1,
        .settle 1 (.answered 200 (some (Text.utf8 "d8:intervali7e5:peers0:10:tracker id1:xe"))),
        .settle 0 (.answered 200 (some (Text.utf8 "d8:intervali9e5:peers0:e")))] := ⟨_, rfl⟩
  obtain ⟨t, hpast, hhistory⟩ : ∃ t, (start c).run past = some t ∧ (start c).history past =
      [(.stopped, ⟨7, none, some "x", none, none, none, []⟩),
        (.started, ⟨9, none, none, none, none, none, []⟩)] := by
    obtain ⟨hsession, hcompleting⟩ := Client.of_new hnew
    obtain ⟨url, settings, session, completing⟩ := c
    obtain rfl : session = _ := hsession
    obtain rfl : completing = false := hcompleting
    subst hschedule
    exact ⟨_, rfl, rfl⟩
  obtain ⟨htold, -⟩ := session_told_by_history hnew hpast
  rw [hhistory] at htold
  exact ⟨c, past, t, hnew, hschedule, hpast, htold.started.mpr rfl, htold.interval,
    htold.trackerId⟩

end Traffic

end Swarm.Announce
