/-
# Every address is entered once

A session enters the peers of every grant under the texts of their addresses.  Texts tell
addresses apart, so what the book holds can be said of the addresses:

* `get?_enter`: entering a peer changes nothing but the entry of its address, and that only if
  the policy wants it;
* `BookOf.enterAll`: after any peers have been entered there is one entry for each of their
  addresses, and it is the first sighting of the address or the last one, as the policy has it;
* `peers_of_history`: so it is with a client after any run, where the sightings are those of its
  whole history.
-/
import Mathlib.Data.List.Dedup
import Mathlib.Data.List.Nodup
import Mathlib.Data.List.Perm.Basic
import Swarm.Net.Url.Reading
import Swarm.Proofs.Announce.History
import Swarm.Proofs.Net.Address
import Swarm.Proofs.Peer

namespace Swarm.Announce

open Bencode (Dictionary Entries Key)
open Net (Address)

/-! ## 1. Entering a peer -/

namespace PeerBook

/-- Entries are told apart as their addresses are. -/
theorem keyOf_inj {a b : Address} : keyOf a = keyOf b ↔ a = b :=
  ⟨fun h => Address.text_injective (Text.utf8_injective h), congrArg keyOf⟩

/-- Whether a known address is entered again is up to the policy. -/
theorem enter_eq (policy : MergePolicy) (book : PeerBook) (p : Peer) :
    enter policy book p =
      if policy = .replace ∨ book.get? (keyOf p.address) = none then
        Dictionary.insert (keyOf p.address) p book
      else book := by
  cases policy with
  | keepExisting => cases h : book.get? (keyOf p.address) <;> simp [enter, h]
  | replace => simp [enter]

/-- **Only the entry of the address changes**, and a policy that keeps what exists changes it only
if there was none. -/
theorem get?_enter (policy : MergePolicy) (book : PeerBook) (p : Peer) (k : Key) :
    (enter policy book p).get? k =
      if k = keyOf p.address ∧ (policy = .replace ∨ book.get? k = none) then some p
      else book.get? k := by
  rw [enter_eq]
  by_cases h : policy = .replace ∨ book.get? (keyOf p.address) = none
  · rw [if_pos h, Dictionary.get?_insert]
    by_cases hk : k = keyOf p.address
    · subst hk
      rw [if_pos rfl, if_pos ⟨rfl, h⟩]
    · rw [if_neg hk, if_neg fun hboth => hk hboth.1]
  · rw [if_neg h, if_neg]
    rintro ⟨rfl, hopen⟩
    exact h hopen

theorem isSome_get?_enter {policy : MergePolicy} {book : PeerBook} {p : Peer} {k : Key}
    (h : (book.get? k).isSome) : ((enter policy book p).get? k).isSome := by
  rw [get?_enter]
  split
  · rfl
  · exact h

/-- No entry is taken out. -/
theorem isSome_get?_enterAll {policy : MergePolicy} {k : Key} : ∀ {book : PeerBook}
    (seen : List Peer), (book.get? k).isSome → ((enterAll policy book seen).get? k).isSome
  | _, [], h => h
  | _, _ :: seen, h => isSome_get?_enterAll seen (isSome_get?_enter h)

/-! ## 2. Sightings -/

/-- The sighting of an address that counts: the first one or the last one. -/
def sighting? (policy : MergePolicy) (seen : List Peer) (a : Address) : Option Peer :=
  let sightings := seen.filter fun p => p.address = a
  match policy with
  | .keepExisting => sightings.head?
  | .replace => sightings.getLast?

/-- A further sighting counts for its own address, and for a policy that keeps what exists only
if it is the first. -/
theorem sighting?_append_singleton (policy : MergePolicy) (seen : List Peer) (p : Peer)
    (a : Address) :
    sighting? policy (seen ++ [p]) a =
      if a = p.address ∧ (policy = .replace ∨ sighting? policy seen a = none) then some p
      else sighting? policy seen a := by
  by_cases ha : a = p.address
  · subst ha
    cases policy with
    | replace => simp [sighting?, List.filter_append]
    | keepExisting =>
      cases h : (seen.filter fun q => q.address = p.address).head? <;>
        simp [sighting?, List.filter_append, List.head?_append, h]
  · have hne : p.address ≠ a := fun h => ha h.symm
    rw [if_neg fun h => ha h.1]
    simp [sighting?, List.filter_append, hne]

theorem mem_of_sighting? {policy : MergePolicy} {seen : List Peer} {a : Address} {p : Peer}
    (h : sighting? policy seen a = some p) : p ∈ seen ∧ p.address = a := by
  have hmem : p ∈ seen.filter fun q => q.address = a := by
    cases policy with
    | keepExisting => exact List.mem_of_head? h
    | replace => exact List.mem_of_getLast? h
  simpa using List.mem_filter.mp hmem

theorem isSome_sighting?_iff {policy : MergePolicy} {seen : List Peer} {a : Address} :
    (sighting? policy seen a).isSome ↔ a ∈ seen.map Peer.address := by
  have hne : (sighting? policy seen a).isSome ↔ seen.filter (fun p => p.address = a) ≠ [] := by
    cases policy with
    | keepExisting => exact List.isSome_head?
    | replace => exact List.getLast?_isSome
  rw [hne, ne_eq, List.filter_eq_nil_iff]
  simp

/-! ## 3. The book of the sightings -/

/-- **The book of what has been seen.** -/
structure BookOf (policy : MergePolicy) (seen : List Peer) (book : PeerBook) : Prop where
  /-- The entry of an address is the sighting that counts. -/
  sighting : ∀ a, book.get? (keyOf a) = sighting? policy seen a
  /-- Entries stand under the texts of their addresses. -/
  key : ∀ k p, book.get? k = some p → k = Text.utf8 p.address.text

theorem bookOf_nil (policy : MergePolicy) : BookOf policy [] .nil where
  sighting a := by cases policy <;> rfl
  key k p h := absurd h nofun

theorem BookOf.enter {policy : MergePolicy} {seen : List Peer} {book : PeerBook}
    (h : BookOf policy seen book) (p : Peer) :
    BookOf policy (seen ++ [p]) (enter policy book p) where
  sighting a := by
    simp only [get?_enter, sighting?_append_singleton, h.sighting, keyOf_inj]
  key k q hq := by
    rw [get?_enter] at hq
    split at hq
    · rename_i hk
      obtain rfl := Option.some.inj hq
      exact hk.1
    · exact h.key k q hq

theorem BookOf.enterAll {policy : MergePolicy} {seen : List Peer} {book : PeerBook}
    (h : BookOf policy seen book) (peers : List Peer) :
    BookOf policy (seen ++ peers) (enterAll policy book peers) := by
  induction peers generalizing seen book with
  | nil =>
    rw [List.append_nil]
    exact h
  | cons p peers ih =>
    have hrest := ih (h.enter p)
    rw [List.append_assoc] at hrest
    exact hrest

/-- What is listed is what is found. -/
theorem mem_values_iff_exists {book : PeerBook} {p : Peer} :
    p ∈ book.values ↔ ∃ k, book.get? k = some p := by
  simp only [Entries.values, List.mem_map, Entries.get?_eq_some_iff, Prod.exists,
    exists_eq_right]

section

variable {policy : MergePolicy} {seen : List Peer} {book : PeerBook}

/-- What is listed is what is found under the text of its address. -/
theorem BookOf.mem_values_iff (h : BookOf policy seen book) {p : Peer} :
    p ∈ book.values ↔ sighting? policy seen p.address = some p := by
  rw [mem_values_iff_exists, ← h.sighting]
  constructor
  · rintro ⟨k, hp⟩
    rw [← hp, h.key k p hp]
    rfl
  · intro hp
    exact ⟨_, hp⟩

/-- Two entries differ as their addresses do. -/
theorem BookOf.key_eq_iff (h : BookOf policy seen book) {k k' : Key} {p p' : Peer}
    (hp : book.get? k = some p) (hp' : book.get? k' = some p') :
    k = k' ↔ p.address = p'.address := by
  rw [h.key k p hp, h.key k' p' hp']
  exact keyOf_inj

/-- **One entry for each address that has been seen**, and no other. -/
theorem BookOf.addresses_perm (h : BookOf policy seen book) :
    (book.values.map Peer.address).Perm (seen.map Peer.address).dedup := by
  have hkeys : book.keys = (book.values.map Peer.address).map keyOf := by
    rw [Entries.keys, Entries.values, List.map_map, List.map_map]
    refine List.map_congr_left fun e he => ?_
    exact h.key e.1 e.2 ((Entries.get?_eq_some_iff book).mpr he)
  have hnodup : (book.values.map Peer.address).Nodup := by
    refine List.Nodup.of_map keyOf ?_
    rw [← hkeys]
    refine (Entries.keys_pairwise book).imp ?_
    intro k j hlt heq
    exact Key.lt_irrefl j (heq ▸ hlt)
  rw [List.perm_ext_iff_of_nodup hnodup (List.nodup_dedup _)]
  intro a
  have hseen : a ∈ (seen.map Peer.address).dedup ↔ ∃ p, sighting? policy seen a = some p := by
    rw [List.mem_dedup, ← @isSome_sighting?_iff policy, Option.isSome_iff_exists]
  rw [hseen, List.mem_map]
  constructor
  · rintro ⟨p, hp, rfl⟩
    exact ⟨p, h.mem_values_iff.mp hp⟩
  · rintro ⟨p, hp⟩
    obtain ⟨-, rfl⟩ := mem_of_sighting? hp
    exact ⟨p, h.mem_values_iff.mpr hp, rfl⟩

theorem BookOf.values_nodup (h : BookOf policy seen book) : book.values.Nodup :=
  List.Nodup.of_map Peer.address (h.addresses_perm.nodup_iff.mpr (List.nodup_dedup _))

end

end PeerBook

/-! ## 4. The peers of a session -/

/-- The peers of grants, in their order. -/
def peersOf (history : List (Event × Grant)) : List Peer := history.flatMap fun r => r.2.peers

namespace Session

theorem peers_absorb (policy : MergePolicy) (event : Event) (s : Session) (g : Grant) :
    (s.absorb policy event g).peers = PeerBook.enterAll policy s.peers g.peers := by
  cases event <;> rfl

/-- **The book of a session is that of the peers it has been granted.** -/
theorem bookOf_after (infoHash : Digest) (peerId : PeerId) (left : Count) (interval : Duration)
    (policy : MergePolicy) (changes : List Change) :
    PeerBook.BookOf policy (peersOf (Change.grants changes))
      ((Session.begin infoHash peerId left interval).after policy changes).peers := by
  have hbegin : PeerBook.BookOf policy (peersOf (Change.grants []))
      (Session.begin infoHash peerId left interval).peers := PeerBook.bookOf_nil policy
  refine after_preserves (P := fun past s => PeerBook.BookOf policy (peersOf (Change.grants past))
    s.peers) ?_ hbegin changes
  intro past s change h
  rw [Change.grants_append_singleton, peersOf, List.flatMap_append, ← peersOf, ← peersOf]
  rcases change.absorbs_or_counts with ⟨event, grant, rfl⟩ | ⟨hnone, hcounts⟩
  · have hpeers : peersOf (Change.grant? (.absorbed event grant)).toList = grant.peers :=
      List.append_nil _
    rw [Change.apply, peers_absorb, hpeers]
    exact h.enterAll grant.peers
  · obtain ⟨uploaded, downloaded, left, hsame⟩ := hcounts policy s
    have hpeers : peersOf (none : Option (Event × Grant)).toList = [] := rfl
    rw [hnone, hsame, hpeers, List.append_nil]
    exact h

theorem isSome_get?_after {policy : MergePolicy} {s : Session} {k : Key} (changes : List Change)
    (h : (s.peers.get? k).isSome) : ((s.after policy changes).peers.get? k).isSome := by
  refine after_preserves (P := fun _ s => (s.peers.get? k).isSome) ?_ h changes
  intro past s change h
  rcases change.absorbs_or_counts with ⟨event, grant, rfl⟩ | ⟨-, hcounts⟩
  · rw [Change.apply, peers_absorb]
    exact PeerBook.isSome_get?_enterAll _ h
  · obtain ⟨uploaded, downloaded, left, hsame⟩ := hcounts policy s
    rw [hsame]
    exact h

end Session

namespace Traffic

/-- **A client lists the sighting that counts of each address, and nothing else.**  After any run
of a new client let the peers be taken, in their order, of all grants that have been absorbed.
Then

* under the text of an address stands its first sighting, or its last one, as the policy has it;
* there is one entry for each address among the peers: entries stand under the texts of their
  addresses, and two of them differ as their addresses do;
* the list of the known peers has each of them once;
* whatever happens next, no address is forgotten. -/
theorem peers_of_history {readUrl : Net.UrlReader} {announce : String} {infoHash : Digest}
    {peerId : PeerId} {left : Count} {settings : Settings} {c : Client} {past : List Moment}
    {t : Traffic} (hnew : Client.new readUrl announce infoHash peerId left settings = .ok c)
    (hpast : (start c).run past = some t) :
    (∀ a : Address, t.client.session.peers.get? (Text.utf8 a.text) =
      PeerBook.sighting? settings.mergePolicy (peersOf ((start c).history past)) a) ∧
    (∀ k p, t.client.session.peers.get? k = some p →
      k = Text.utf8 p.address.text ∧ 1 ≤ p.port.toNat ∧ p.port.toNat ≤ 65535) ∧
    (∀ k p k' p', t.client.session.peers.get? k = some p →
      t.client.session.peers.get? k' = some p' → (k = k' ↔ p.address = p'.address)) ∧
    (t.client.session.peers.values.map Peer.address).Perm
      ((peersOf ((start c).history past)).map Peer.address).dedup ∧
    (t.client.session.peers.values.Nodup ∧ ∀ p, p ∈ t.client.session.peers.values ↔
      ∃ k, t.client.session.peers.get? k = some p) ∧
    ∀ future t', t.run future = some t' → ∀ k p, t.client.session.peers.get? k = some p →
      ∃ p', t'.client.session.peers.get? k = some p' ∧ p'.address = p.address := by
  have hbook : ∀ {moments u}, (start c).run moments = some u →
      PeerBook.BookOf settings.mergePolicy (peersOf ((start c).history moments))
        u.client.session.peers := by
    intro moments u hrun
    rw [session_of_run_new hnew hrun]
    exact Session.bookOf_after infoHash peerId left settings.defaultInterval _ _
  have h := hbook hpast
  refine ⟨h.sighting, fun k p hp => ⟨h.key k p hp, p.port_bounds⟩,
    fun k p k' p' hp hp' => h.key_eq_iff hp hp', h.addresses_perm,
    ⟨h.values_nodup, fun p => PeerBook.mem_values_iff_exists⟩, ?_⟩
  intro future t' hfuture k p hp
  have hsome : (t'.client.session.peers.get? k).isSome := by
    rw [session_of_run hfuture]
    exact Session.isSome_get?_after _ (by rw [hp]; rfl)
  obtain ⟨p', hp'⟩ := Option.isSome_iff_exists.mp hsome
  have hrun : (start c).run (past ++ future) = some t' := by
    rw [run_append, hpast]
    exact hfuture
  -- the key that is kept is the text of the one address and of the other
  have hkeys : PeerBook.keyOf p'.address = PeerBook.keyOf p.address :=
    ((hbook hrun).key k p' hp').symm.trans (h.key k p hp)
  exact ⟨p', hp', PeerBook.keyOf_inj.mp hkeys⟩

/-- Three spellings of two addresses, and one of them again with another port: the first
sightings stay. -/
theorem peers_of_history_spellings :
    ∃ (c : Client) (listed compact : Bytes) (t : Traffic) (a b : Address) (p q : Peer),
      Client.new Net.Url.readAscii "http://a/b" ⟨⟨List.replicate 20 1, rfl⟩⟩
        ⟨⟨List.replicate 20 2, rfl⟩⟩ 7 {} = .ok c ∧
      listed = Text.utf8 ("d8:intervali7e5:peersl" ++ "d2:ip7:1.2.3.44:porti1ee" ++
        "d2:ip14:::ffff:1.2.3.44:porti2ee" ++ "d2:ip22:0:0:0:0:0:FFFF:102:3044:porti3eeee") ∧
      compact = Text.utf8 "d8:intervali7e5:peers6:" ++ [1, 2, 3, 4, 0, 9] ++ Text.utf8 "e" ∧
      (start c).run [.update listed, .update compact] = some t ∧
      Address.read? "1.2.3.4" = some a ∧ Address.read? "::ffff:1.2.3.4" = some b ∧
      t.client.session.peers.get? (Text.utf8 a.text) = some p ∧ p.port = 1 ∧
      t.client.session.peers.get? (Text.utf8 b.text) = some q ∧ q.port = 2 := by
  obtain ⟨c, hnew⟩ : ∃ c, Client.new Net.Url.readAscii "http://a/b"
    ⟨⟨List.replicate 20 1, rfl⟩⟩ ⟨⟨List.replicate 20 2, rfl⟩⟩ 7 {} = .ok c := ⟨_, rfl⟩
  obtain ⟨listed, hlisted⟩ : ∃ listed : Bytes, listed =
      Text.utf8 ("d8:intervali7e5:peersl" ++ "d2:ip7:1.2.3.44:porti1ee" ++
        "d2:ip14:::ffff:1.2.3.44:porti2ee" ++ "d2:ip22:0:0:0:0:0:FFFF:102:3044:porti3eeee") :=
    ⟨_, rfl⟩
  obtain ⟨compact, hcompact⟩ : ∃ compact : Bytes, compact =
      Text.utf8 "d8:intervali7e5:peers6:" ++ [1, 2, 3, 4, 0, 9] ++ Text.utf8 "e" := ⟨_, rfl⟩
  obtain ⟨mapped, hmapped⟩ : ∃ mapped : Net.Ipv6, mapped =
      ⟨#v[0, 0, 0, 0, 0, 0xffff, 0x102, 0x304]⟩ := ⟨_, rfl⟩
  have hgrant : Reply.grant? listed = some ⟨7, none, none, none, none, none,
      [⟨.v4 ⟨1, 2, 3, 4⟩, 1, by decide⟩, ⟨.v6 mapped, 2, by decide⟩,
        ⟨.v6 mapped, 3, by decide⟩]⟩ := by
    subst hlisted hmapped
    decide +kernel
  have hgrant' : Reply.grant? compact = some ⟨7, none, none, none, none, none,
      [⟨.v4 ⟨1, 2, 3, 4⟩, 9, by decide⟩]⟩ := by
    subst hcompact
    decide +kernel
  obtain ⟨t, hpast⟩ : ∃ t, (start c).run [.update listed, .update compact] = some t := ⟨_, rfl⟩
  have hhistory : peersOf ((start c).history [.update listed, .update compact]) =
      [⟨.v4 ⟨1, 2, 3, 4⟩, 1, by decide⟩, ⟨.v6 mapped, 2, by decide⟩,
        ⟨.v6 mapped, 3, by decide⟩, ⟨.v4 ⟨1, 2, 3, 4⟩, 9, by decide⟩] := by
    simp only [history, changes, change?, hgrant, hgrant', step]
    rfl
  obtain ⟨hsighting, -⟩ := peers_of_history hnew hpast
  rw [hhistory] at hsighting
  refine ⟨c, listed, compact, t, .v4 ⟨1, 2, 3, 4⟩, .v6 mapped, ⟨.v4 ⟨1, 2, 3, 4⟩, 1, by decide⟩,
    ⟨.v6 mapped, 2, by decide⟩, hnew, hlisted, hcompact, hpast, rfl, ?_, hsighting _, rfl, ?_, rfl⟩
  · subst hmapped
    rfl
  · rw [hsighting]
    subst hmapped
    rfl

end Traffic
end Swarm.Announce
