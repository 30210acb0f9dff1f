/-
# Completion is announced once

Calls of one client overlap in any order (`Traffic`), and yet one call at a time announces that
the download is complete, and one such announcement at most is ever absorbed
(`completion_announced_once`).

The invariant, `Orderly`, ties the two bits that `Client.allow` looks at to the calls: the mark
is set exactly while a call is announcing the completion, and the flag is set exactly once such
an announcement has been absorbed.  What joins them is `unsettled`: an announcement that may
still be absorbed finds the flag clear.
-/
import Swarm.Net.Url.Reading
import Swarm.Proofs.Announce.Traffic

namespace Swarm.Announce
namespace Traffic

/-! ## 1. The invariant -/

/-- Call `i` is announcing that the download is complete. -/
def Completing (t : Traffic) (i : Nat) : Prop := (t.stage i).underWay = some .completed

/-- Its announcement may still be absorbed. -/
def Unsettled (t : Traffic) (i : Nat) : Prop := (t.stage i).pending = some .completed

/-- **The invariant of the traffic.** -/
structure Orderly (t : Traffic) : Prop where
  /-- One call at a time announces the completion. -/
  alone : ∀ i j, t.Completing i → t.Completing j → i = j
  /-- The mark is set while one does. -/
  mark : t.client.completing = true ↔ ∃ i, t.Completing i
  /-- The flag counts the announcements of the completion that have been absorbed. -/
  flag : t.applied.count .completed = t.client.session.completed.toNat
  unsettled : ∀ i, t.Unsettled i → t.client.session.completed = false
  /-- Requests come from calls whose event has been allowed. -/
  asked : ∀ i url, (i, url) ∈ t.requests → (t.stage i).early = false

theorem Unsettled.completing {t : Traffic} {i : Nat} (h : t.Unsettled i) : t.Completing i := by
  unfold Unsettled at h
  unfold Completing
  cases hs : t.stage i <;> rw [hs] at h <;> simp_all [Stage.pending, Stage.underWay]

/-! ## 2. How moving a call changes who is completing -/

section Move

variable {t t' : Traffic} {i : Nat} {s : Stage}

theorem stage_eq_or (t : Traffic) (i j : Nat) (s : Stage) :
    (j = i ∧ (t.move i s).stage j = s) ∨ (j ≠ i ∧ (t.move i s).stage j = t.stage j) := by
  by_cases hj : j = i
  · exact .inl ⟨hj, by rw [hj, stage_move_self]⟩
  · exact .inr ⟨hj, stage_move_of_ne t s hj⟩

theorem completing_move (hs : s.underWay = some .completed ↔ t.Completing i) (j : Nat) :
    (t.move i s).Completing j ↔ t.Completing j := by
  unfold Completing
  rcases stage_eq_or t i j s with ⟨rfl, hj⟩ | ⟨-, hj⟩
  · rw [hj, hs, Completing]
  · rw [hj]

theorem unsettled_of_move (hs : s.pending = some .completed → t.Unsettled i) {j : Nat}
    (h : (t.move i s).Unsettled j) : t.Unsettled j := by
  unfold Unsettled at h
  rcases stage_eq_or t i j s with ⟨rfl, hj⟩ | ⟨-, hj⟩
  · rw [hj] at h
    exact hs h
  · rw [hj] at h
    exact h

theorem early_move (ht : t.Orderly) (hs : s.early = true → (t.stage i).early = true) {j : Nat}
    {url : Net.Url} (h : (j, url) ∈ t.requests) : ((t.move i s).stage j).early = false := by
  have hj := ht.asked j url h
  rcases stage_eq_or t i j s with ⟨rfl, he⟩ | ⟨-, he⟩
  · rw [he]
    cases hc : s.early with
    | false => rfl
    | true => exact absurd (hs hc) (by simp [hj])
  · rw [he]
    exact hj

/-- The invariant looks at nothing but the mark, the flag, the ledgers and which calls are
completing. -/
theorem Orderly.of_same (ht : t.Orderly)
    (hcompleting : ∀ j, t'.Completing j ↔ t.Completing j)
    (hunsettled : ∀ j, t'.Unsettled j → t.Unsettled j)
    (hmark : t'.client.completing = t.client.completing)
    (hflag : t'.client.session.completed = t.client.session.completed)
    (happlied : t'.applied.count .completed = t.applied.count .completed)
    (hasked : ∀ j url, (j, url) ∈ t'.requests → (t'.stage j).early = false) : t'.Orderly where
  alone i j hi hj := ht.alone i j ((hcompleting i).mp hi) ((hcompleting j).mp hj)
  mark := by
    rw [hmark, ht.mark]
    exact exists_congr fun j => (hcompleting j).symm
  flag := by rw [happlied, hflag, ht.flag]
  unsettled j hj := by rw [hflag]; exact ht.unsettled j (hunsettled j hj)
  asked := hasked

/-- Nor does it look at how far a call has come that is completing both before and after, or
neither. -/
theorem Orderly.of_move (ht : t.Orderly) (hstage : t'.stage = (t.move i s).stage)
    (hrequests : t'.requests = t.requests)
    (hcompleting : s.underWay = some .completed ↔ t.Completing i)
    (hunsettled : s.pending = some .completed → t.Unsettled i)
    (hearly : s.early = true → (t.stage i).early = true)
    (hmark : t'.client.completing = t.client.completing)
    (hflag : t'.client.session.completed = t.client.session.completed)
    (happlied : t'.applied.count .completed = t.applied.count .completed) : t'.Orderly := by
  refine ht.of_same ?_ ?_ hmark hflag happlied ?_
  · intro j
    rw [Completing, hstage]
    exact completing_move hcompleting j
  · intro j hj
    rw [Unsettled, hstage] at hj
    exact unsettled_of_move hunsettled hj
  · intro j url hj
    rw [hrequests] at hj
    rw [hstage]
    exact early_move ht hearly hj

end Move

/-! ## 3. Every moment keeps the invariant -/

theorem orderly_start {c : Client} (hcompleting : c.completing = false)
    (hcompleted : c.session.completed = false) : (start c).Orderly where
  alone i j hi _ := absurd hi (by simp [Completing, start, Stage.underWay])
  mark := by simp [Completing, start, Stage.underWay, hcompleting]
  flag := by simp [start, hcompleted]
  unsettled i _ := hcompleted
  asked i url h := absurd h (by simp [start])

/-- The one step that sets the mark finds it clear, so no other call is completing. -/
theorem orderly_of_allowed_completed {t : Traffic} (ht : t.Orderly) {i : Nat}
    (hr : ¬ t.client.Refuses .completed) :
    Orderly { t.move i (.allowed .completed) with client := t.client.mark .completed } := by
  have hclear : t.client.session.completed = false ∧ t.client.completing = false := by
    simpa [Client.Refuses] using hr
  have hnone : ∀ j, ¬ t.Completing j := by
    intro j hj
    have hset := ht.mark.mpr ⟨j, hj⟩
    rw [hclear.2] at hset
    exact absurd hset (by simp)
  have honly : ∀ j, (t.move i (.allowed .completed)).Completing j → j = i := by
    intro j hj
    rcases stage_eq_or t i j (.allowed .completed) with ⟨hji, -⟩ | ⟨-, he⟩
    · exact hji
    · unfold Completing at hj
      rw [he] at hj
      exact absurd hj (hnone j)
  exact
    { alone := fun j k hj hk => (honly j hj).trans (honly k hk).symm
      mark := by
        refine ⟨fun _ => ⟨i, ?_⟩, fun _ => rfl⟩
        simp [Completing, Stage.underWay]
      flag := ht.flag
      unsettled := fun _ _ => hclear.1
      asked := fun j url hj => early_move ht (by simp [Stage.early]) hj }

/-- The one step that sets the flag leaves no other call whose announcement might be absorbed. -/
theorem orderly_of_granted_completed {t : Traffic} (ht : t.Orderly) {i : Nat} (grant : Grant)
    (hi : t.stage i = .sent .completed) :
    Orderly
      { t.move i (.settled .completed (.ok grant.peers)) with
        client := t.client.gain .completed grant
        applied := t.applied ++ [.completed] } := by
  have hopen : t.Unsettled i := by simp [Unsettled, hi, Stage.pending]
  have hway : ∀ j, (t.move i (.settled .completed (.ok grant.peers))).Completing j ↔
      t.Completing j := by
    refine completing_move ?_
    simp [hopen.completing, Stage.underWay]
  have hset : (t.client.gain .completed grant).session.completed = true :=
    (Client.completed_gain _ _ _).mpr (.inr rfl)
  exact
    { alone := fun j k hj hk => ht.alone j k ((hway j).mp hj) ((hway k).mp hk)
      mark := by
        rw [Client.completing_gain, ht.mark]
        exact exists_congr fun j => (hway j).symm
      flag := by
        rw [List.count_append, ht.flag, ht.unsettled i hopen, hset]
        rfl
      unsettled := by
        intro j hj
        rcases stage_eq_or t i j (.settled .completed (.ok grant.peers)) with ⟨-, he⟩ | ⟨hne, he⟩
        · unfold Unsettled at hj
          rw [he] at hj
          exact absurd hj (by simp [Stage.pending])
        · unfold Unsettled at hj
          rw [he] at hj
          exact absurd (ht.alone j i (Unsettled.completing hj) hopen.completing) hne
      asked := fun j url hj => early_move ht (by simp [Stage.early]) hj }

/-- The one step that clears the mark is taken by the one call that is completing. -/
theorem orderly_of_left_completed {t : Traffic} (ht : t.Orderly) {i : Nat}
    {result : Except Error (List Peer)} (hi : t.stage i = .settled .completed result) :
    Orderly { t.move i (.returned result) with client := t.client.release .completed } := by
  have hmine : t.Completing i := by simp [Completing, hi, Stage.underWay]
  have hnone : ∀ j, ¬ (t.move i (.returned result)).Completing j := by
    intro j hj
    unfold Completing at hj
    rcases stage_eq_or t i j (.returned result) with ⟨-, he⟩ | ⟨hne, he⟩
    · rw [he] at hj
      exact absurd hj (by simp [Stage.underWay])
    · rw [he] at hj
      exact hne (ht.alone j i hj hmine)
  exact
    { alone := fun j _ hj _ => absurd hj (hnone j)
      mark := by
        refine ⟨fun h => absurd h (by simp [Client.release_completed]), ?_⟩
        rintro ⟨j, hj⟩
        exact absurd hj (hnone j)
      flag := by rw [Client.session_release]; exact ht.flag
      unsettled := fun j hj => absurd hj.completing (hnone j)
      asked := fun j url hj => early_move ht (by simp [Stage.early]) hj }

/-- A grant for another event leaves the flag and its ledger alone. -/
theorem completed_gain_of_ne {event : Event} (c : Client) (grant : Grant)
    (h : event ≠ .completed) :
    (c.gain event grant).session.completed = c.session.completed := by
  rw [Bool.eq_iff_iff, Client.completed_gain]
  exact ⟨fun hc => hc.resolve_right h, .inl⟩

theorem count_append_of_ne {event : Event} (events : List Event) (h : event ≠ .completed) :
    (events ++ [event]).count .completed = events.count .completed := by
  rw [List.count_append, List.count_singleton]
  simp [h]

/-- **Every moment keeps the invariant.**  Only three touch what it is about: an announcement
of the completion is allowed, is granted, or returns. -/
theorem orderly_of_effect {t t' : Traffic} (h : Effect t t') (ht : t.Orderly) : t'.Orderly := by
  cases h with
  | called i event hi =>
    refine ht.of_move rfl rfl ?_ ?_ ?_ rfl rfl rfl
    · simp [Completing, hi, Stage.underWay]
    · simp [Stage.pending]
    · simp [hi, Stage.early]
  | refused i event hi hr =>
    refine ht.of_move rfl rfl ?_ ?_ ?_ rfl rfl rfl
    · simp [Completing, hi, Stage.underWay]
    · simp [Stage.pending]
    · simp [Stage.early]
  | allowed i event hi hr =>
    by_cases he : event = .completed
    · subst he
      exact orderly_of_allowed_completed ht hr
    · rw [Client.mark_of_ne _ he]
      refine ht.of_move rfl rfl ?_ ?_ ?_ rfl rfl rfl
      · simp [Completing, hi, Stage.underWay, he]
      · simp [Stage.pending, he]
      · simp [Stage.early]
  | sent i event hi =>
    refine ht.of_same (completing_move ?_) (fun _ => unsettled_of_move ?_) rfl rfl rfl ?_
    · simp [Completing, hi, Stage.underWay]
    · simp [Unsettled, hi, Stage.pending]
    · -- the request that goes out now is the call's own
      intro j url hj
      rcases List.mem_append.mp hj with hj | hj
      · exact early_move ht (by simp [Stage.early]) hj
      · obtain ⟨rfl, -⟩ := Prod.mk.inj (List.mem_singleton.mp hj)
        show ((t.move j (.sent event)).stage j).early = false
        rw [stage_move_self]
        rfl
  | granted i event grant hi =>
    by_cases he : event = .completed
    · subst he
      exact orderly_of_granted_completed ht grant hi
    · refine ht.of_move rfl rfl ?_ ?_ ?_ rfl (completed_gain_of_ne _ _ he)
        (count_append_of_ne _ he)
      · simp [Completing, hi, Stage.underWay]
      · simp [Stage.pending]
      · simp [Stage.early]
  | failed i event e hi =>
    refine ht.of_move rfl rfl ?_ ?_ ?_ rfl rfl rfl
    · simp [Completing, hi, Stage.underWay]
    · simp [Stage.pending]
    · simp [Stage.early]
  | left i event result hi =>
    by_cases he : event = .completed
    · subst he
      exact orderly_of_left_completed ht hi
    · rw [Client.release_of_ne _ he]
      refine ht.of_move rfl rfl ?_ ?_ ?_ rfl rfl rfl
      · simp [Completing, hi, Stage.underWay, he]
      · simp [Stage.pending]
      · simp [Stage.early]
  | updated grant =>
    exact ht.of_same (fun _ => Iff.rfl) (fun _ hj => hj) rfl
      (completed_gain_of_ne _ _ (by simp)) (count_append_of_ne _ (by simp)) ht.asked
  | counted change hchange =>
    exact ht.of_same (fun _ => Iff.rfl) (fun _ hj => hj) rfl (hchange _) rfl ht.asked

/-- **The invariant holds of whatever comes of a new client.** -/
theorem orderly_of_run {readUrl : Net.UrlReader} {announce : String} {infoHash : Digest}
    {peerId : PeerId} {left : Count} {settings : Settings} {c : Client} {past : List Moment}
    {t : Traffic} (hnew : Client.new readUrl announce infoHash peerId left settings = .ok c)
    (hpast : (start c).run past = some t) : t.Orderly := by
  obtain ⟨hsession, hcompleting⟩ := Client.of_new hnew
  refine run_preserves orderly_of_effect hpast (orderly_start hcompleting ?_)
  rw [hsession]
  rfl

/-! ## 4. What the invariant gives -/

/-- The traffic once call `i` has been told that the completion has been announced. -/
def refuse (t : Traffic) (i : Nat) : Traffic :=
  t.move i (.returned (.error (.alreadyCompleted t.client.session.infoHash)))

/-- The traffic once call `i` has begun to announce the completion. -/
def accept (t : Traffic) (i : Nat) : Traffic :=
  { t.move i (.allowed .completed) with client := { t.client with completing := true } }

theorem Orderly.completed_iff {t : Traffic} (ht : t.Orderly) :
    t.client.session.completed = true ↔ .completed ∈ t.applied := by
  rw [← List.count_pos_iff, ht.flag]
  cases t.client.session.completed <;> simp

theorem Orderly.refuses_iff {t : Traffic} (ht : t.Orderly) :
    t.client.Refuses .completed ↔ (∃ j, t.Completing j) ∨ .completed ∈ t.applied := by
  rw [← ht.mark, ← ht.completed_iff, Client.Refuses, or_comm]
  simp

/-- A call that is refused has sent nothing, and never will. -/
theorem Orderly.run_refuse {t t' : Traffic} (ht : t.Orderly) {i : Nat}
    (hi : t.stage i = .called .completed) {future : List Moment}
    (hrun : (t.refuse i).run future = some t') :
    t'.stage i = .returned (.error (.alreadyCompleted t.client.session.infoHash)) ∧
      ∀ url, (i, url) ∉ t'.requests := by
  have hover : Over i (.error (.alreadyCompleted t.client.session.infoHash)) [] (t.refuse i) := by
    refine ⟨stage_move_self t i _, fun url hurl => ?_⟩
    have hearly := ht.asked i url hurl
    rw [hi] at hearly
    exact absurd hearly (by simp [Stage.early])
  obtain ⟨hstage, hnone⟩ := run_preserves Over.of_effect hrun hover
  exact ⟨hstage, fun url hurl => absurd (hnone url hurl) (by simp)⟩

/-- **Completion is announced at most once, however calls overlap.**  After any run of a new
client: one call at most is announcing the completion; at most one such announcement has been
absorbed; that the download is complete is never forgotten; a call that asks while another is
announcing it, or after it has been absorbed, is refused, changes nothing and never sends a
request; and while no call is announcing it the mark is clear, so that the next one is
admitted unless it has been absorbed. -/
theorem completion_announced_once {readUrl : Net.UrlReader} {announce : String}
    {infoHash : Digest} {peerId : PeerId} {left : Count} {settings : Settings} {c : Client}
    {past : List Moment} {t : Traffic}
    (hnew : Client.new readUrl announce infoHash peerId left settings = .ok c)
    (hpast : (start c).run past = some t) :
    (∀ i j, t.Completing i → t.Completing j → i = j) ∧
    t.applied.count .completed ≤ 1 ∧
    (∀ future t', t.run future = some t' →
      t.client.session.completed = true → t'.client.session.completed = true) ∧
    (∀ i, t.stage i = .called .completed →
      (∃ j, t.Completing j) ∨ .completed ∈ t.applied →
      t.step (.allow i) = some (t.refuse i) ∧
      ∀ future t', (t.refuse i).run future = some t' →
        t'.stage i = .returned (.error (.alreadyCompleted t.client.session.infoHash)) ∧
        ∀ url, (i, url) ∉ t'.requests) ∧
    ((∀ j, ¬ t.Completing j) →
      t.client.completing = false ∧
      (.completed ∉ t.applied → ∀ i, t.stage i = .called .completed →
        t.step (.allow i) = some (t.accept i))) := by
  have ht := orderly_of_run hnew hpast
  refine ⟨ht.alone, ?_, ?_, ?_, ?_⟩
  · rw [ht.flag]
    exact Bool.toNat_le _
  · intro future t' hrun hc
    exact run_preserves completed_of_effect hrun hc
  · intro i hi hbusy
    refine ⟨step_allow_of_refuses hi (ht.refuses_iff.mpr hbusy), ?_⟩
    intro future t' hrun
    exact ht.run_refuse hi hrun
  · intro hnone
    refine ⟨?_, ?_⟩
    · cases hm : t.client.completing with
      | false => rfl
      | true =>
        obtain ⟨j, hj⟩ := ht.mark.mp hm
        exact absurd hj (hnone j)
    · intro happlied i hi
      refine step_allow_of_not_refuses hi ?_
      rw [ht.refuses_iff]
      rintro (⟨j, hj⟩ | hc)
      · exact hnone j hj
      · exact happlied hc

/-- A first announcement of the completion is lost, a second one is under way, and a third is
refused. -/
theorem completion_announced_once_secondAttempt :
    ∃ (c : Client) (t : Traffic),
      Client.new Net.Url.readAscii "http://a/b" ⟨⟨List.replicate 20 1, rfl⟩⟩
        ⟨⟨List.replicate 20 2, rfl⟩⟩ 7 {} = .ok c ∧
      (start c).run [.call 0 .completed, .allow 0, .send 0, .settle 0 .lost, .leave 0,
        .call 1 .completed, .allow 1, .call 2 .completed] = some t ∧
      t.Completing 1 ∧ t.step (.allow 2) = some (t.refuse 2) := by
  obtain ⟨c, hnew⟩ : ∃ c, Client.new Net.Url.readAscii "http://a/b"
    ⟨⟨List.replicate 20 1, rfl⟩⟩ ⟨⟨List.replicate 20 2, rfl⟩⟩ 7 {} = .ok c := ⟨_, rfl⟩
  obtain ⟨t, hpast, hcalled, hone⟩ : ∃ t, (start c).run [.call 0 .completed, .allow 0, .send 0,
      .settle 0 .lost, .leave 0, .call 1 .completed, .allow 1, .call 2 .completed] = some t ∧
      t.stage 2 = .called .completed ∧ t.Completing 1 := by
    obtain ⟨hsession, hcompleting⟩ := Client.of_new hnew
    obtain ⟨url, settings, session, completing⟩ := c
    obtain rfl : session = _ := hsession
    obtain rfl : completing = false := hcompleting
    refine ⟨_, rfl, ?_, ?_⟩ <;> rfl
  obtain ⟨-, -, -, hrefused, -⟩ := completion_announced_once hnew hpast
  exact ⟨c, t, hnew, hpast, hone, (hrefused 2 hcalled (.inl ⟨1, hone⟩)).1⟩

end Traffic
end Swarm.Announce
