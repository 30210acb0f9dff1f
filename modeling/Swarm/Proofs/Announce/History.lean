/-
# What has happened to a session

Calls overlap in any order (`Traffic`), but few of their moments touch the session: a grant is
absorbed, or something is counted.  `Traffic.changes` lists what does, in the order in which it
takes effect, so that a statement about any run becomes one about a list:

* `session_and_requests_of_step`: what one moment does to the session, and what it sends;
* `session_of_run`: the session after a run is what its changes, one after another, make of the
  session before it;
* `tracker_of_run`: the URL and the settings stay as they are;
* `request_of_run`: a request that has gone out was built from the session of one moment.

Calls that were refused and exchanges that failed are not in the list, which is how they leave
no trace.
-/
import Mathlib.Data.List.Induction
import Swarm.Proofs.Announce.Traffic

namespace Swarm.Announce

open Client (Exchange)

/-! ## 1. Grants -/

namespace Reply

/-- What the bytes of a reply grant, if they grant something. -/
def grant? (body : Bytes) : Option Grant :=
  match ofBytes body with
  | .ok (.success grant) => some grant
  | .ok (.failure _) | .error _ => none

theorem grant?_eq_some_iff {body : Bytes} {grant : Grant} :
    grant? body = some grant ↔ ofBytes body = .ok (.success grant) := by
  unfold grant?
  split
  · rename_i g hg
    simp [hg]
  · rename_i reason hreason
    simp [hreason]
  · rename_i e he
    simp [he]

end Reply

namespace Client

/-- What an exchange grants, if it grants something. -/
def Exchange.grant? : Exchange → Option Grant
  | .answered status (some body) => if status = 200 then Reply.grant? body else none
  | .answered _ none | .lost => none

theorem Exchange.grant?_eq_some_iff {exchange : Exchange} {grant : Grant} :
    exchange.grant? = some grant ↔ exchange.Grants grant := by
  unfold grant? Grants
  split
  · rename_i status body
    by_cases hs : status = 200
    · simp [hs, Reply.grant?_eq_some_iff]
    · simp [hs]
  · simp
  · simp

theorem settings_of_new {readUrl : Net.UrlReader} {announce : String} {infoHash : Digest}
    {peerId : PeerId} {left : Count} {settings : Settings} {c : Client}
    (h : new readUrl announce infoHash peerId left settings = .ok c) : c.settings = settings := by
  unfold new at h
  split at h
  · cases h
  · split at h
    · obtain rfl := Except.ok.inj h
      rfl
    · cases h

/-- The session after what became of a request: it absorbs what is granted. -/
theorem session_settle (c : Client) (event : Event) (exchange : Exchange) :
    (c.settle event exchange).client.session =
      (exchange.grant?.map (c.session.absorb c.settings.mergePolicy event)).getD c.session := by
  cases h : exchange.grant? with
  | some grant => rw [(settle_of_grants c event (Exchange.grant?_eq_some_iff.mp h)).1]; rfl
  | none =>
    have hnone : ¬ ∃ grant, exchange.Grants grant := by
      rintro ⟨grant, hg⟩
      rw [Exchange.grant?_eq_some_iff.mpr hg] at h
      cases h
    rw [(settle_of_not_grants c event hnone).1]
    rfl

theorem session_update (c : Client) (body : Bytes) :
    (c.update body).client.session =
      ((Reply.grant? body).map (c.session.absorb c.settings.mergePolicy .regular)).getD
        c.session := by
  cases h : Reply.grant? body with
  | some grant => rw [update, (takeIn_of_success c _ (Reply.grant?_eq_some_iff.mp h)).1]; rfl
  | none =>
    have hnone : ¬ ∃ grant, Reply.ofBytes body = .ok (.success grant) := by
      rintro ⟨grant, hg⟩
      rw [Reply.grant?_eq_some_iff.mpr hg] at h
      cases h
    rw [update, (takeIn_of_not_success c _ hnone).1]
    rfl

end Client

/-! ## 2. Changes of a session -/

/-- What changes a session. -/
inductive Change
  /-- It absorbs what was granted to the announcement of an event. -/
  | absorbed (event : Event) (grant : Grant)
  | uploaded (bytes : Count)
  | downloaded (bytes : Count)
  | setLeft (bytes : Count)

namespace Change

/-- The session after a change. -/
def apply (policy : MergePolicy) (s : Session) : Change → Session
  | absorbed event grant => s.absorb policy event grant
  | uploaded bytes => s.recordUploaded bytes
  | downloaded bytes => s.recordDownloaded bytes
  | setLeft bytes => s.setLeft bytes

/-- The grant, with the event of its announcement, if the change is that one was absorbed. -/
def grant? : Change → Option (Event × Grant)
  | absorbed event grant => some (event, grant)
  | uploaded _ | downloaded _ | setLeft _ => none

/-- **A change absorbs a grant or counts**, and counting touches nothing but the three counts. -/
theorem absorbs_or_counts (change : Change) :
    (∃ event grant, change = .absorbed event grant) ∨
      (change.grant? = none ∧ ∀ policy s, ∃ uploaded downloaded left,
        change.apply policy s = { s with uploaded, downloaded, left }) := by
  cases change with
  | absorbed event grant => exact .inl ⟨event, grant, rfl⟩
  | uploaded bytes => exact .inr ⟨rfl, fun _ s => ⟨_, s.downloaded, s.left, rfl⟩⟩
  | downloaded bytes => exact .inr ⟨rfl, fun _ s => ⟨s.uploaded, _, _, rfl⟩⟩
  | setLeft bytes => exact .inr ⟨rfl, fun _ s => ⟨s.uploaded, s.downloaded, _, rfl⟩⟩

/-- The grants that are absorbed among changes. -/
def grants (changes : List Change) : List (Event × Grant) := changes.filterMap grant?

theorem grants_append_singleton (past : List Change) (change : Change) :
    grants (past ++ [change]) = grants past ++ change.grant?.toList := by
  rw [grants, grants, List.filterMap_append]
  cases change <;> rfl

end Change

namespace Session

/-- The session after changes, one after another. -/
def after (policy : MergePolicy) (s : Session) (changes : List Change) : Session :=
  changes.foldl (Change.apply policy) s

theorem after_append (policy : MergePolicy) (s : Session) (front back : List Change) :
    s.after policy (front ++ back) = (s.after policy front).after policy back :=
  List.foldl_append

/-- **What every change keeps, any number of them keep**, where what is kept may speak of all the
changes so far. -/
theorem after_preserves {policy : MergePolicy} {P : List Change → Session → Prop}
    (hP : ∀ {past s} (change : Change), P past s → P (past ++ [change]) (change.apply policy s))
    {s : Session} (hs : P [] s) (changes : List Change) : P changes (s.after policy changes) := by
  induction changes using List.reverseRecOn with
  | nil => exact hs
  | append_singleton past change ih =>
    rw [after_append]
    exact hP change ih

end Session

/-! ## 3. The changes of a run -/

namespace Traffic

/-- What a moment changes in the session, if anything. -/
def change? (t : Traffic) : Moment → Option Change
  | .settle i exchange =>
    match t.stage i with
    | .sent event => exchange.grant?.map (.absorbed event)
    | _ => none
  | .update body => (Reply.grant? body).map (.absorbed .regular)
  | .uploaded bytes => some (.uploaded bytes)
  | .downloaded bytes => some (.downloaded bytes)
  | .setLeft bytes => some (.setLeft bytes)
  | .call _ _ | .announce _ | .allow _ | .send _ | .leave _ => none

/-- The changes of the session while moments happen one after another. -/
def changes (t : Traffic) : List Moment → List Change
  | [] => []
  | m :: ms =>
    (t.change? m).toList ++
      match t.step m with
      | some t' => t'.changes ms
      | none => []

/-- **The history of a session**: the grants that it absorbs, in this order, each with the event
of its announcement. -/
def history (t : Traffic) (ms : List Moment) : List (Event × Grant) :=
  Change.grants (t.changes ms)

/-- The request that goes out at a moment, if one does. -/
def request? (t : Traffic) : Moment → Option (Nat × Net.Url)
  | .send i =>
    match t.stage i with
    | .allowed event => some (i, t.client.requestUrl event)
    | _ => none
  | .call _ _ | .announce _ | .allow _ | .settle _ _ | .leave _ | .update _ | .uploaded _
    | .downloaded _ | .setLeft _ => none

/-- **What a moment does to the session and to the requests**: nothing but its change and its
request. -/
theorem session_and_requests_of_step {t t' : Traffic} {m : Moment} (h : t.step m = some t') :
    t'.client.session =
        t.client.session.after t.client.settings.mergePolicy (t.change? m).toList ∧
      t'.requests = t.requests ++ (t.request? m).toList := by
  have hnone := (List.append_nil t.requests).symm
  cases m with
  | call i event =>
    simp only [step] at h
    split at h
    · obtain rfl := Option.some.inj h
      exact ⟨rfl, hnone⟩
    · cases h
  | announce i =>
    simp only [step] at h
    split at h
    · obtain rfl := Option.some.inj h
      exact ⟨rfl, hnone⟩
    · cases h
  | allow i =>
    simp only [step] at h
    split at h
    · rename_i event hi
      by_cases hr : t.client.Refuses event
      · rw [Client.allow_of_refuses hr] at h
        obtain rfl := Option.some.inj h
        exact ⟨rfl, hnone⟩
      · rw [Client.allow_of_not_refuses hr] at h
        obtain rfl := Option.some.inj h
        exact ⟨Client.session_mark _ _, hnone⟩
    · cases h
  | send i =>
    simp only [step] at h
    split at h
    · rename_i event hi
      obtain rfl := Option.some.inj h
      refine ⟨rfl, ?_⟩
      rw [request?, hi]
      rfl
    · cases h
  | settle i exchange =>
    simp only [step] at h
    split at h
    · rename_i event hi
      obtain rfl := Option.some.inj h
      refine ⟨(t.client.session_settle event exchange).trans ?_, hnone⟩
      rw [change?, hi]
      cases exchange.grant? <;> rfl
    · cases h
  | leave i =>
    simp only [step] at h
    split at h
    · obtain rfl := Option.some.inj h
      exact ⟨Client.session_release _ _, hnone⟩
    · cases h
  | update body =>
    obtain rfl := Option.some.inj h
    refine ⟨(t.client.session_update body).trans ?_, hnone⟩
    rw [change?]
    cases Reply.grant? body <;> rfl
  | uploaded bytes =>
    obtain rfl := Option.some.inj h
    exact ⟨rfl, hnone⟩
  | downloaded bytes =>
    obtain rfl := Option.some.inj h
    exact ⟨rfl, hnone⟩
  | setLeft bytes =>
    obtain rfl := Option.some.inj h
    exact ⟨rfl, hnone⟩

theorem run_append (t : Traffic) (past future : List Moment) :
    t.run (past ++ future) = (t.run past).bind fun t' => t'.run future := by
  induction past generalizing t with
  | nil => rfl
  | cons m past ih =>
    rw [List.cons_append, run, run, Option.bind_assoc]
    exact congrArg _ (funext ih)

/-- The URL and the settings are as they were. -/
theorem tracker_of_effect {t t' : Traffic} (h : Effect t t') :
    t'.client.url = t.client.url ∧ t'.client.settings = t.client.settings := by
  cases h with
  | called i event hi => exact ⟨rfl, rfl⟩
  | refused i event hi hr => exact ⟨rfl, rfl⟩
  | allowed i event hi hr =>
    unfold Client.mark
    split <;> exact ⟨rfl, rfl⟩
  | sent i event hi => exact ⟨rfl, rfl⟩
  | granted i event grant hi => exact ⟨rfl, rfl⟩
  | failed i event e hi => exact ⟨rfl, rfl⟩
  | left i event result hi =>
    unfold Client.release
    split <;> exact ⟨rfl, rfl⟩
  | updated grant => exact ⟨rfl, rfl⟩
  | counted change hchange => exact ⟨rfl, rfl⟩

theorem tracker_of_run {t t' : Traffic} {ms : List Moment} (h : t.run ms = some t') :
    t'.client.url = t.client.url ∧ t'.client.settings = t.client.settings :=
  run_preserves (P := fun u => u.client.url = t.client.url ∧ u.client.settings = t.client.settings)
    (fun heffect hu => ⟨(tracker_of_effect heffect).1.trans hu.1,
      (tracker_of_effect heffect).2.trans hu.2⟩) h ⟨rfl, rfl⟩

/-- **The session after a run is what the changes of the run make of it.** -/
theorem session_of_run {t t' : Traffic} {ms : List Moment} (h : t.run ms = some t') :
    t'.client.session =
      t.client.session.after t.client.settings.mergePolicy (t.changes ms) := by
  induction ms generalizing t with
  | nil =>
    obtain rfl := Option.some.inj h
    rfl
  | cons m ms ih =>
    unfold run at h
    obtain ⟨t₁, h₁, h₂⟩ := Option.bind_eq_some_iff.mp h
    rw [changes, h₁, Session.after_append, ← (session_and_requests_of_step h₁).1, ih h₂,
      (tracker_of_effect (effect_of_step h₁)).2]

/-- The session of a new client after a run. -/
theorem session_of_run_new {readUrl : Net.UrlReader} {announce : String} {infoHash : Digest}
    {peerId : PeerId} {left : Count} {settings : Settings} {c : Client} {past : List Moment}
    {t : Traffic} (hnew : Client.new readUrl announce infoHash peerId left settings = .ok c)
    (hpast : (start c).run past = some t) :
    t.client.session =
      (Session.begin infoHash peerId left settings.defaultInterval).after settings.mergePolicy
        ((start c).changes past) := by
  have hsession : (start c).client.session = _ := (Client.of_new hnew).1
  have hsettings : (start c).client.settings = settings := Client.settings_of_new hnew
  rw [session_of_run hpast, hsession, hsettings]

/-! ## 4. Requests -/

/-- **A request goes out at its own moment**, and is built from the session as it is then. -/
theorem request?_eq_some_iff {t : Traffic} {m : Moment} {i : Nat} {url : Net.Url} :
    t.request? m = some (i, url) ↔
      ∃ event, m = .send i ∧ t.stage i = .allowed event ∧ t.client.requestUrl event = url := by
  constructor
  · intro h
    cases m with
    | send j =>
      simp only [request?] at h
      split at h
      · rename_i event hj
        obtain ⟨rfl, hurl⟩ := Prod.mk.inj (Option.some.inj h)
        exact ⟨event, rfl, hj, hurl⟩
      · cases h
    | call _ _ | announce _ | allow _ | settle _ _ | leave _ | update _ | uploaded _
      | downloaded _ | setLeft _ => cases h
  · rintro ⟨event, rfl, hi, rfl⟩
    simp only [request?, hi]

/-- **Every request was built at one moment of the run**, from the session of that moment. -/
theorem request_of_run {t t' : Traffic} {ms : List Moment} (h : t.run ms = some t') {i : Nat}
    {url : Net.Url} (hi : (i, url) ∈ t'.requests) :
    (i, url) ∈ t.requests ∨ ∃ past future t₁ event, ms = past ++ .send i :: future ∧
      t.run past = some t₁ ∧ t₁.stage i = .allowed event ∧ t₁.client.requestUrl event = url := by
  induction ms generalizing t with
  | nil =>
    obtain rfl := Option.some.inj h
    exact .inl hi
  | cons m ms ih =>
    unfold run at h
    obtain ⟨t₁, h₁, h₂⟩ := Option.bind_eq_some_iff.mp h
    rcases ih h₂ with hearlier | ⟨past, future, t₂, event, rfl, hpast, hstage, hurl⟩
    · rw [(session_and_requests_of_step h₁).2, List.mem_append, Option.mem_toList,
        request?_eq_some_iff] at hearlier
      rcases hearlier with hearlier | ⟨event, rfl, hstage, hurl⟩
      · exact .inl hearlier
      · exact .inr ⟨[], ms, t, event, rfl, rfl, hstage, hurl⟩
    · refine .inr ⟨m :: past, future, t₂, event, rfl, ?_, hstage, hurl⟩
      rw [run, h₁]
      exact hpast

end Traffic
end Swarm.Announce
