/-
# An announcement at the end of a URL

What an announcement says is put behind the query that the announce URL has already, so it is to be
found at the end of what is asked of the server, whatever stands in front of it.  `announced` looks
for it there: behind the last `?`, from the last parameter on whose name is that of the first one of
every announcement.

* `announced_requestedText`: it is found there, behind any query;
* `url_appends`: so everything that was said is read back from the URL that is asked for, of which
  nothing but the query has changed.
-/
import Mathlib.Data.List.DropRight
import Swarm.Proofs.Announce.Query
import Swarm.Proofs.Net.Url

namespace Swarm.Announce

open Net (Url)

/-! ## 1. Reading from the end -/

section FromLast

variable {α : Type} {p : α → Bool}

/-- What stands from the last occurrence on; nothing if there is none. -/
def fromLast (p : α → Bool) : List α → List α
  | [] => []
  | x :: xs =>
    match fromLast p xs with
    | [] => if p x then x :: xs else []
    | y :: ys => y :: ys

theorem fromLast_eq_nil {l : List α} (h : ∀ x ∈ l, p x = false) : fromLast p l = [] := by
  induction l with
  | nil => rfl
  | cons x xs ih =>
    obtain ⟨hx, hxs⟩ := List.forall_mem_cons.mp h
    rw [fromLast, ih hxs, hx, if_neg (by decide)]

/-- **Nothing in front of the last occurrence matters.** -/
theorem fromLast_append_cons (l : List α) {x : α} {xs : List α} (hx : p x = true)
    (h : ∀ y ∈ xs, p y = false) : fromLast p (l ++ x :: xs) = x :: xs := by
  induction l with
  | nil => rw [List.nil_append, fromLast, fromLast_eq_nil h, if_pos hx]
  | cons z zs ih => rw [List.cons_append, fromLast, ih]

theorem rtakeWhile_append (l : List α) {m : List α} (h : ∀ x ∈ m, p x = true) :
    (l ++ m).rtakeWhile p = l.rtakeWhile p ++ m := by
  have hm : ∀ x ∈ m.reverse, p x = true := fun x hx => h x (List.mem_reverse.mp hx)
  rw [List.rtakeWhile, List.rtakeWhile, List.reverse_append, List.takeWhile_append_of_pos hm,
    List.reverse_append, List.reverse_reverse]

end FromLast

/-- **The announcement at the end of a text**: of the parameters behind the last `?`, those from the
last one on that an announcement begins with. -/
def announced (text : String) : List (String × Bytes) :=
  fromLast (·.1 = "info_hash")
    (parameters (String.ofList (text.toList.rtakeWhile (· ≠ '?'))))

theorem parameters_append (front back : List Char) :
    parameters (String.ofList (front ++ '&' :: back)) =
      parameters (String.ofList front) ++ parameters (String.ofList back) := by
  simp only [parameters, String.toList_ofList, List.splitOn_append_cons_self, List.map_append]

namespace Query

/-! ## 2. What stands in front of an announcement -/

/-- An announcement begins with the torrent, and nothing that follows has that name. -/
theorem said_eq_cons (q : Query) :
    ∃ rest, q.said = ("info_hash", q.infoHash.bytes) :: rest ∧ ∀ f ∈ rest, f.1 ≠ "info_hash" := by
  have hnodup := q.nodup_names
  rw [← map_fst_said] at hnodup
  refine ⟨_, rfl, fun f hf hname => (List.nodup_cons.mp hnodup).1 ?_⟩
  exact List.mem_map.mpr ⟨f, hf, hname⟩

theorem fromLast_append_said (before : List (String × Bytes)) (q : Query) :
    fromLast (·.1 = "info_hash") (before ++ q.said) = q.said := by
  obtain ⟨rest, hsaid, hrest⟩ := q.said_eq_cons
  rw [hsaid]
  exact fromLast_append_cons before (decide_eq_true rfl) fun f hf => decide_eq_false (hrest f hf)

/-- **No announcement holds anything that would have to be escaped in a query.** -/
theorem plain_text (q : Query) (special : Bool) :
    Net.Percent.Plain (Net.Percent.inQuery special) q.text := by
  intro c hc
  have hchar := q.isQueryChar_text c hc
  have hmarks : Net.Percent.Plain (Net.Percent.inQuery special) "-._~%&=" := by
    cases special <;> decide
  have hclass : c.isAlphanum = true ∨ c ∈ "-._~%&=".toList := by
    simpa [isQueryChar, isPlain, or_assoc] using hchar
  rcases hclass with halphanum | hmark
  · exact ⟨Text.lt_of_isAlphanum halphanum, (Net.settling_inQuery special).alphanum c halphanum⟩
  · exact hmarks c hmark

theorem question_notMem_text (q : Query) : ∀ c ∈ q.text.toList, decide (c ≠ '?') = true := by
  intro c hc
  refine decide_eq_true ?_
  rintro rfl
  exact absurd (q.isQueryChar_text _ hc) (by decide)

/-! ## 3. The whole URL -/

theorem url_eq {u : Url} (hu : u.HasPlainQuery) (q : Query) :
    q.url u = { u with query := some (u.queryLead ++ q.text) } :=
  Url.appendQuery_eq hu (q.plain_text _)

theorem toList_requestedText {u : Url} (hu : u.HasPlainQuery) (q : Query) :
    (q.url u).requestedText.toList =
      (u.textBeforeQuery.toList ++ '?' :: u.queryLead.toList) ++ q.text.toList := by
  rw [url_eq hu]
  simp [Url.requestedText, Url.textBeforeQuery, Url.marked]

/-- **The announcement is found** behind the query that the announce URL has. -/
theorem announced_requestedText {u : Url} (hu : u.HasPlainQuery) (q : Query) :
    announced (q.url u).requestedText = q.said := by
  have hread : parameters (String.ofList q.text.toList) = q.said := by
    rw [String.ofList_toList, parameters_text]
  rw [announced, toList_requestedText hu, rtakeWhile_append _ q.question_notMem_text]
  -- A query of the announce URL may have a `?` of its own, so what is read in front is not known.
  rcases u.queryLead_eq with hlead | ⟨old, hlead⟩
  · rw [hlead, String.toList_empty, List.rtakeWhile_concat_neg _ _ _ (by decide), List.nil_append,
      hread]
    exact fromLast_append_said [] q
  · have hamp : ∀ c ∈ ['&'], decide (c ≠ '?') = true := by simp
    rw [hlead, String.toList_append, ← List.cons_append, ← List.append_assoc,
      show "&".toList = ['&'] from rfl, rtakeWhile_append _ hamp, List.append_assoc,
      List.singleton_append, parameters_append, hread]
    exact fromLast_append_said _ q

/-- **Nothing but the query of a URL changes** when an announcement is put behind it, and all that
the announcement says is read back from its end.  A query that the announce URL has, escaped as it
was when the URL was read, is kept letter by letter; so is the announcement, whatever the peer, the
torrent and the id of the tracker are.  Hence different announcements never ask for the same, not
even through different announce URLs. -/
theorem url_appends {u : Url} (hu : u.HasPlainQuery) (q : Query) :
    (∀ old, u.query = some old → old ≠ "" →
        q.url u = { u with query := some (old ++ "&" ++ q.text) }) ∧
      (u.query = none ∨ u.query = some "" → q.url u = { u with query := some q.text }) ∧
      announced (q.url u).requestedText = q.said ∧
      ∀ (u' : Url) (r : Query), u'.HasPlainQuery →
        (r.url u').requestedText = (q.url u).requestedText → r = q := by
  refine ⟨fun old hold hne => ?_, fun hempty => ?_, announced_requestedText hu q,
    fun u' r hu' heq => ?_⟩
  · rw [url_eq hu, Url.queryLead, hold]
    simp [hne]
  · rw [url_eq hu, Url.queryLead]
    rcases hempty with hempty | hempty <;> simp [hempty]
  · have hsaid := congrArg announced heq
    rw [announced_requestedText hu, announced_requestedText hu'] at hsaid
    exact said_injective hsaid

/-- A query with escapes, an apostrophe and the name of a torrent in it stays as it is, and an id of
the tracker that is made of marks adds no parameter. -/
theorem url_appends_misleading :
    ∃ (u v : Url) (q : Query),
      Url.readAscii "HTTP://me@Host:80/a?info_hash=%41?'é&#top" = .ok u ∧
      Url.readAscii "udp://host" = .ok v ∧ u.HasPlainQuery ∧ v.HasPlainQuery ∧
      q.trackerId = some "&port=0" ∧
      q.url u = { u with query := some ("info_hash=%41?%27%C3%A9&" ++ "&" ++ q.text) } ∧
      q.url v = { v with query := some q.text } ∧
      announced (q.url u).requestedText = q.said ∧
      ({ q with trackerId := none }.url v).requestedText ≠ (q.url u).requestedText := by
  obtain ⟨u, hu, hquery⟩ : ∃ u, Url.readAscii "HTTP://me@Host:80/a?info_hash=%41?'é&#top" = .ok u ∧
      u.query = some "info_hash=%41?%27%C3%A9&" := ⟨_, rfl, by decide +kernel⟩
  obtain ⟨v, hv, hnone⟩ : ∃ v, Url.readAscii "udp://host" = .ok v ∧ v.query = none := ⟨_, rfl, rfl⟩
  obtain ⟨q, hid⟩ : ∃ q : Query, q.trackerId = some "&port=0" :=
    ⟨⟨⟨⟨List.replicate 20 1, rfl⟩⟩, ⟨⟨List.replicate 20 2, rfl⟩⟩, 6881, 0, 0, 7, true, none,
      some "&port=0", .started⟩, rfl⟩
  have hplain := Url.hasPlainQuery_of_reader hu
  have hplain' := Url.hasPlainQuery_of_reader hv
  obtain ⟨hold, -, hread, hapart⟩ := url_appends hplain q
  obtain ⟨-, hfirst, -⟩ := url_appends hplain' q
  refine ⟨u, v, q, hu, hv, hplain, hplain', hid, hold _ hquery (by decide), hfirst (.inl hnone),
    hread, fun heq => ?_⟩
  have hsame := congrArg Query.trackerId (hapart v _ hplain' heq)
  rw [hid] at hsame
  exact absurd hsame nofun

end Query
end Swarm.Announce
