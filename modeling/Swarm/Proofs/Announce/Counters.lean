/-
# No count is lost

Bytes are counted while announcements are under way and replies come in.  What the counts of a
session are after a run is told by the moments that count, whatever falls between them:

* `Traffic.counted_of_step`: what one moment does to the counts; a reply does nothing to them;
* `Tally.of_run`: the totals are the sums of what has been counted, cut off at the largest count,
  and what is missing is what was missing last, less what has been downloaded since;
* `Tally.sameCounts`: the order of what is counted between two settings does not matter;
* `counts_of_history`: so it is with every new client, and every request says what the counts
  were at the moment at which it went out.
-/
import Mathlib.Algebra.BigOperators.Group.List.Basic
import Mathlib.Algebra.Ring.Nat
import Swarm.Net.Url.Reading
import Swarm.Proofs.Announce.History

namespace Swarm.Announce

/-! ## 1. What moments count -/

namespace Moment

def uploadedBytes : Moment → Nat
  | uploaded bytes => bytes.toNat
  | _ => 0

def downloadedBytes : Moment → Nat
  | downloaded bytes => bytes.toNat
  | _ => 0

/-- What is said to be missing, if the moment says it. -/
def setting? : Moment → Option Count
  | setLeft bytes => some bytes
  | _ => none

/-- Bytes are counted as uploaded or downloaded. -/
def records : Moment → Bool
  | uploaded _ | downloaded _ => true
  | _ => false

theorem uploadedBytes_of_not_records {m : Moment} (h : ¬ m.records) : m.uploadedBytes = 0 := by
  cases m <;> first | rfl | exact absurd rfl h

theorem downloadedBytes_of_not_records {m : Moment} (h : ¬ m.records) :
    m.downloadedBytes = 0 := by
  cases m <;> first | rfl | exact absurd rfl h

end Moment

/-- The sum of what moments count. -/
def total (count : Moment → Nat) (ms : List Moment) : Nat := (ms.map count).sum

theorem total_append (count : Moment → Nat) (front back : List Moment) :
    total count (front ++ back) = total count front + total count back := by
  rw [total, List.map_append, List.sum_append]
  rfl

theorem total_cons (count : Moment → Nat) (m : Moment) (ms : List Moment) :
    total count (m :: ms) = count m + total count ms :=
  List.sum_cons

theorem total_singleton (count : Moment → Nat) (m : Moment) : total count [m] = count m :=
  List.sum_singleton

/-- What is missing after moments, of which so much was missing before. -/
def missing (left : Nat) (ms : List Moment) : Nat :=
  ms.foldl (fun left m => (m.setting?.map UInt64.toNat).getD (left - m.downloadedBytes)) left

theorem missing_append_singleton (left : Nat) (ms : List Moment) (m : Moment) :
    missing left (ms ++ [m]) =
      (m.setting?.map UInt64.toNat).getD (missing left ms - m.downloadedBytes) :=
  List.foldl_concat ..

/-- **Until something else is said to be missing**, what is missing shrinks by what is
downloaded. -/
theorem missing_of_unset {left : Nat} {ms : List Moment} (h : ∀ m ∈ ms, m.setting? = none) :
    missing left ms = left - total Moment.downloadedBytes ms := by
  induction ms generalizing left with
  | nil => rfl
  | cons m ms ih =>
    obtain ⟨hm, hms⟩ := List.forall_mem_cons.mp h
    rw [total_cons, ← Nat.sub_sub, ← ih hms, missing, missing, List.foldl_cons, hm]
    rfl

/-- **Once something is said to be missing**, what happened before does not matter. -/
theorem missing_append_setLeft (left : Nat) (before : List Moment) (bytes : Count)
    (after : List Moment) :
    missing left (before ++ .setLeft bytes :: after) = missing bytes.toNat after := by
  rw [missing, List.foldl_append, List.foldl_cons]
  rfl

/-! ## 2. One moment -/

/-- The counts of two sessions are the same. -/
def Session.SameCounts (s s' : Session) : Prop :=
  s.uploaded = s'.uploaded ∧ s.downloaded = s'.downloaded ∧ s.left = s'.left

/-- **What a moment does to the counts.** -/
structure Counted (s : Session) (m : Moment) (s' : Session) : Prop where
  uploaded : s'.uploaded.toNat = min (s.uploaded.toNat + m.uploadedBytes) Count.largest
  downloaded : s'.downloaded.toNat = min (s.downloaded.toNat + m.downloadedBytes) Count.largest
  left : s'.left.toNat =
    (m.setting?.map UInt64.toNat).getD (s.left.toNat - m.downloadedBytes)

/-- A moment that counts nothing does nothing to them. -/
theorem Counted.of_same {s s' : Session} {m : Moment} (hrecords : m.records = false)
    (hsetting : m.setting? = none) (h : s'.SameCounts s) : Counted s m s' := by
  have hup := Count.toNat_le_largest s.uploaded
  have hdown := Count.toNat_le_largest s.downloaded
  have hrecords : ¬ m.records := by simp [hrecords]
  constructor
  · rw [h.1, Moment.uploadedBytes_of_not_records hrecords]
    omega
  · rw [h.2.1, Moment.downloadedBytes_of_not_records hrecords]
    omega
  · rw [h.2.2, Moment.downloadedBytes_of_not_records hrecords, hsetting]
    rfl

namespace Traffic

/-- To absorb a grant is to count nothing. -/
theorem sameCounts_of_step {t t' : Traffic} {m : Moment} (h : t.step m = some t')
    (hm : ∀ change ∈ t.change? m, ∃ event grant, change = .absorbed event grant) :
    t'.client.session.SameCounts t.client.session := by
  rw [(session_and_requests_of_step h).1]
  cases hchange : t.change? m with
  | none => exact ⟨rfl, rfl, rfl⟩
  | some change =>
    obtain ⟨event, grant, rfl⟩ := hm change hchange
    cases event <;> exact ⟨rfl, rfl, rfl⟩

/-- **Only counting does anything to the counts**: no call does, and no reply. -/
theorem counted_of_step {t t' : Traffic} {m : Moment} (h : t.step m = some t') :
    Counted t.client.session m t'.client.session := by
  have habsorbs : ∀ {event} {granted : Option Grant},
      ∀ change ∈ granted.map (Change.absorbed event), ∃ event grant,
        change = .absorbed event grant := by
    intro event granted change hchange
    obtain ⟨grant, -, rfl⟩ := Option.map_eq_some_iff.mp hchange
    exact ⟨event, grant, rfl⟩
  have hnothing : ∀ change ∈ (none : Option Change), ∃ event grant,
      change = .absorbed event grant := by
    intro change hchange
    exact absurd hchange (Option.not_mem_none change)
  cases m with
  | uploaded bytes =>
    obtain rfl := Option.some.inj h
    have hdown := Count.toNat_le_largest t.client.session.downloaded
    exact ⟨Count.toNat_addSat _ _, (Nat.min_eq_left hdown).symm, rfl⟩
  | downloaded bytes =>
    obtain rfl := Option.some.inj h
    have hup := Count.toNat_le_largest t.client.session.uploaded
    exact ⟨(Nat.min_eq_left hup).symm, Count.toNat_addSat _ _, Count.toNat_subSat _ _⟩
  | setLeft bytes =>
    obtain rfl := Option.some.inj h
    have hup := Count.toNat_le_largest t.client.session.uploaded
    have hdown := Count.toNat_le_largest t.client.session.downloaded
    exact ⟨(Nat.min_eq_left hup).symm, (Nat.min_eq_left hdown).symm, rfl⟩
  | update body => exact .of_same rfl rfl (sameCounts_of_step h habsorbs)
  | settle i exchange =>
    refine .of_same rfl rfl (sameCounts_of_step h ?_)
    rw [change?]
    split
    · exact habsorbs
    · exact hnothing
  | call i event => exact .of_same rfl rfl (sameCounts_of_step h hnothing)
  | announce i => exact .of_same rfl rfl (sameCounts_of_step h hnothing)
  | allow i => exact .of_same rfl rfl (sameCounts_of_step h hnothing)
  | send i => exact .of_same rfl rfl (sameCounts_of_step h hnothing)
  | leave i => exact .of_same rfl rfl (sameCounts_of_step h hnothing)

end Traffic

/-! ## 3. Any number of moments -/

/-- **The counts of a session as the moments so far tell them**, where so much was missing at
first. -/
structure Tally (left : Count) (past : List Moment) (s : Session) : Prop where
  uploaded : s.uploaded.toNat = min (total Moment.uploadedBytes past) Count.largest
  downloaded : s.downloaded.toNat = min (total Moment.downloadedBytes past) Count.largest
  left : s.left.toNat = missing left.toNat past

theorem tally_begin (infoHash : Digest) (peerId : PeerId) (left : Count) (interval : Duration) :
    Tally left [] (Session.begin infoHash peerId left interval) :=
  ⟨rfl, rfl, rfl⟩

/-- Cutting off before and after is cutting off once. -/
theorem Tally.counted {left : Count} {past : List Moment} {s s' : Session} {m : Moment}
    (h : Tally left past s) (hm : Counted s m s') : Tally left (past ++ [m]) s' := by
  constructor
  · rw [hm.uploaded, h.uploaded, total_append, total_singleton]
    omega
  · rw [hm.downloaded, h.downloaded, total_append, total_singleton]
    omega
  · rw [hm.left, h.left, missing_append_singleton]

/-- **The counts after a run are told by its moments.** -/
theorem Tally.of_run {left : Count} {t t' : Traffic} {past ms : List Moment}
    (h : Tally left past t.client.session) (hrun : t.run ms = some t') :
    Tally left (past ++ ms) t'.client.session := by
  induction ms generalizing t past with
  | nil =>
    obtain rfl := Option.some.inj hrun
    rw [List.append_nil]
    exact h
  | cons m ms ih =>
    unfold Traffic.run at hrun
    obtain ⟨t₁, h₁, h₂⟩ := Option.bind_eq_some_iff.mp hrun
    have hrest := ih (h.counted (Traffic.counted_of_step h₁)) h₂
    rw [List.append_assoc] at hrest
    exact hrest

/-! ## 4. The order of what is counted -/

/-- Nothing is said to be missing in either list, and the same is recorded in them, in whatever
order. -/
structure SameRecords (ms ms' : List Moment) : Prop where
  unset : ∀ m ∈ ms, m.setting? = none
  unset' : ∀ m ∈ ms', m.setting? = none
  records : (ms.filter Moment.records).Perm (ms'.filter Moment.records)

/-- **The same is recorded between two settings**, and the settings are the same.  What else
happens, calls and replies, is left open. -/
inductive Reordered : List Moment → List Moment → Prop
  | last {ms ms' : List Moment} (h : SameRecords ms ms') : Reordered ms ms'
  | setLeft (bytes : Count) {ms ms' rest rest' : List Moment} (h : SameRecords ms ms')
    (hrest : Reordered rest rest') :
    Reordered (ms ++ .setLeft bytes :: rest) (ms' ++ .setLeft bytes :: rest')

/-- What is not recorded adds nothing to a total. -/
theorem total_filter_records {count : Moment → Nat} (hcount : ∀ m, ¬ m.records → count m = 0)
    (ms : List Moment) : total count (ms.filter Moment.records) = total count ms := by
  induction ms with
  | nil => rfl
  | cons m ms ih =>
    by_cases hm : m.records
    · rw [List.filter_cons_of_pos hm, total_cons, total_cons, ih]
    · rw [List.filter_cons_of_neg hm, total_cons, hcount m hm, Nat.zero_add, ih]

theorem SameRecords.total_eq {count : Moment → Nat} (hcount : ∀ m, ¬ m.records → count m = 0)
    {ms ms' : List Moment} (h : SameRecords ms ms') : total count ms = total count ms' := by
  rw [← total_filter_records hcount ms, ← total_filter_records hcount ms']
  exact (h.records.map count).sum_nat

theorem Reordered.total_eq {count : Moment → Nat} (hcount : ∀ m, ¬ m.records → count m = 0)
    {ms ms' : List Moment} (h : Reordered ms ms') : total count ms = total count ms' := by
  induction h with
  | last h => exact h.total_eq hcount
  | setLeft bytes h hrest ih =>
    rw [total_append, total_append, h.total_eq hcount, total_cons, total_cons, ih]

theorem Reordered.missing_eq {left : Nat} {ms ms' : List Moment} (h : Reordered ms ms') :
    missing left ms = missing left ms' := by
  induction h generalizing left with
  | last h =>
    rw [missing_of_unset h.unset, missing_of_unset h.unset',
      h.total_eq fun m => Moment.downloadedBytes_of_not_records]
  | setLeft bytes h hrest ih => rw [missing_append_setLeft, missing_append_setLeft, ih]

/-- **The order does not matter.** -/
theorem Tally.sameCounts {left : Count} {ms ms' : List Moment} {s s' : Session}
    (h : Tally left ms s) (h' : Tally left ms' s') (horder : Reordered ms ms') :
    s.SameCounts s' := by
  refine ⟨UInt64.toNat_inj.mp ?_, UInt64.toNat_inj.mp ?_, UInt64.toNat_inj.mp ?_⟩
  · rw [h.uploaded, h'.uploaded, horder.total_eq fun m => Moment.uploadedBytes_of_not_records]
  · rw [h.downloaded, h'.downloaded, horder.total_eq fun m => Moment.downloadedBytes_of_not_records]
  · rw [h.left, h'.left, horder.missing_eq]

/-! ## 5. What the requests say -/

/-- A query says each count once. -/
theorem Query.counts_of_fields (q : Query) :
    q.fields.filter (fun f => f.1 ∈ ["uploaded", "downloaded", "left"]) =
      [("uploaded", toString q.uploaded.toNat), ("downloaded", toString q.downloaded.toNat),
        ("left", toString q.left.toNat)] := by
  unfold fields
  cases q.numwant <;> cases q.trackerId <;> cases q.event.word? <;> simp

namespace Traffic

/-- **No count is lost.**  After any run of a new client, with calls under way and replies coming
in at any time,

* the totals are the sums of what has been recorded, cut off at the largest count;
* what is missing is what was missing at first, or what was last said to be, less what has been
  recorded as downloaded since;
* another run with the same records between the same settings, in another order and with other
  replies, comes to the same counts;
* a request that has gone out says what the counts were when it did. -/
theorem counts_of_history {readUrl : Net.UrlReader} {announce : String} {infoHash : Digest}
    {peerId : PeerId} {left : Count} {settings : Settings} {c : Client} {ms : List Moment}
    {t : Traffic} (hnew : Client.new readUrl announce infoHash peerId left settings = .ok c)
    (hrun : (start c).run ms = some t) :
    t.client.session.uploaded.toNat = min (2 ^ 64 - 1) (total Moment.uploadedBytes ms) ∧
    t.client.session.downloaded.toNat = min (2 ^ 64 - 1) (total Moment.downloadedBytes ms) ∧
    ((∀ m ∈ ms, m.setting? = none) →
      t.client.session.left.toNat = left.toNat - total Moment.downloadedBytes ms) ∧
    (∀ before bytes after, ms = before ++ .setLeft bytes :: after →
      (∀ m ∈ after, m.setting? = none) →
      t.client.session.left.toNat = bytes.toNat - total Moment.downloadedBytes after) ∧
    (∀ ms' t', (start c).run ms' = some t' → Reordered ms ms' →
      t.client.session.SameCounts t'.client.session) ∧
    ∀ i url, (i, url) ∈ t.requests → ∃ past future t₁ event,
      ms = past ++ .send i :: future ∧ (start c).run past = some t₁ ∧
      Tally left past t₁.client.session ∧
      url = (t₁.client.announcement event).url t.client.url ∧
      (t₁.client.announcement event).fields.filter
          (fun f => f.1 ∈ ["uploaded", "downloaded", "left"]) =
        [("uploaded", toString t₁.client.session.uploaded.toNat),
          ("downloaded", toString t₁.client.session.downloaded.toNat),
          ("left", toString t₁.client.session.left.toNat)] := by
  have htally : ∀ {moments u}, (start c).run moments = some u →
      Tally left moments u.client.session := by
    intro moments u h
    have hbegin := tally_begin infoHash peerId left settings.defaultInterval
    rw [← (Client.of_new hnew).1] at hbegin
    exact Tally.of_run hbegin h
  have h := htally hrun
  refine ⟨?uploaded, ?downloaded, ?unset, ?set, ?order, ?requests⟩
  case uploaded => rw [h.uploaded, Nat.min_comm]; rfl
  case downloaded => rw [h.downloaded, Nat.min_comm]; rfl
  case unset => exact fun hunset => by rw [h.left, missing_of_unset hunset]
  case set =>
    rintro before bytes after rfl hunset
    rw [h.left, missing_append_setLeft, missing_of_unset hunset]
  case order => exact fun ms' t' hrun' horder => h.sameCounts (htally hrun') horder
  case requests =>
    intro i url hi
    rcases request_of_run hrun hi with hi | ⟨past, future, t₁, event, hms, hpast, -, hurl⟩
    · exact absurd hi List.not_mem_nil
    · refine ⟨past, future, t₁, event, hms, hpast, htally hpast, ?_, Query.counts_of_fields _⟩
      rw [(tracker_of_run hrun).1, ← (tracker_of_run hpast).1]
      exact hurl.symm

/-- Uploads beyond the largest count, a reply between two downloads, and a request in the midst
of it. -/
theorem counts_of_history_interleaved :
    ∃ (c : Client) (ms : List Moment) (t : Traffic),
      Client.new Net.Url.readAscii "http://a/b" ⟨⟨List.replicate 20 1, rfl⟩⟩
        ⟨⟨List.replicate 20 2, rfl⟩⟩ 7 {} = .ok c ∧
      ms = [.call 0 .stopped, .uploaded 18446744073709551615, .allow 0, .downloaded 9, .setLeft 10,
        .send 0, .downloaded 2, .settle 0 (.answered 200 (some (Text.utf8 "de"))), .uploaded 5,
        .update (Text.utf8 "d8:intervali7e5:peers0:e"), .downloaded 3] ∧
      (start c).run ms = some t ∧ t.client.session.uploaded.toNat = 2 ^ 64 - 1 ∧
      t.client.session.downloaded.toNat = 14 ∧ t.client.session.left.toNat = 5 := by
  obtain ⟨c, hnew⟩ : ∃ c, Client.new Net.Url.readAscii "http://a/b"
    ⟨⟨List.replicate 20 1, rfl⟩⟩ ⟨⟨List.replicate 20 2, rfl⟩⟩ 7 {} = .ok c := ⟨_, rfl⟩
  obtain ⟨ms, hschedule⟩ : ∃ ms : List Moment,
      ms = [.call 0 .stopped, .uploaded 18446744073709551615, .allow 0, .downloaded 9, .setLeft 10,
        .send 0, .downloaded 2, .settle 0 (.answered 200 (some (Text.utf8 "de"))), .uploaded 5,
        .update (Text.utf8 "d8:intervali7e5:peers0:e"), .downloaded 3] := ⟨_, rfl⟩
  obtain ⟨t, hrun⟩ : ∃ t, (start c).run ms = some t := by
    subst hschedule
    exact ⟨_, rfl⟩
  obtain ⟨hup, hdown, -, hset, -⟩ := counts_of_history hnew hrun
  refine ⟨c, ms, t, hnew, hschedule, hrun, ?_, ?_, ?_⟩
  · rw [hup, hschedule]
    decide
  · rw [hdown, hschedule]
    decide
  · rw [hset [.call 0 .stopped, .uploaded 18446744073709551615, .allow 0, .downloaded 9] 10 _
      hschedule (by decide)]
    decide

end Traffic
end Swarm.Announce
