/-
# Both forms of a peer list say the same

A tracker lists peers as records of six bytes or as dictionaries.  `record?` writes a peer as a
record and `IsEntry` says which values are its dictionaries; a list in either form is read exactly
if each of its parts is of some peer, and then gives these peers in their order:

* `readCompact_eq_ok_iff`: the peers of a byte string are those whose records it is;
* `readEntries_eq_ok_iff`: the peers of a list are those whose entries it holds;
* `exists_readCompact_iff`, `exists_isEntry_iff`: so it is known which parts are of a peer, and one
  that is not is enough for the whole list to be refused.
-/
import Swarm.Announce.Reply
import Swarm.Proofs.Bencode.Field
import Swarm.Proofs.Net.Address

namespace Swarm.Peer

open Bencode
open Swarm.Field (find?)
open List (Forall₂)

/-! ## 1. Parts and wholes -/

/-- Every part is of something if the whole is. -/
theorem exists_forall₂_iff {α β : Type} {R : α → β → Prop} {xs : List α} :
    (∃ ys, Forall₂ R xs ys) ↔ ∀ x ∈ xs, ∃ y, R x y := by
  induction xs with
  | nil => exact ⟨fun _ => nofun, fun _ => ⟨[], .nil⟩⟩
  | cons x xs ih =>
    rw [List.forall_mem_cons, ← ih]
    constructor
    · rintro ⟨_, hall⟩
      cases hall with
      | cons hx hxs => exact ⟨⟨_, hx⟩, _, hxs⟩
    · rintro ⟨⟨y, hx⟩, ys, hxs⟩
      exact ⟨y :: ys, .cons hx hxs⟩

/-! ## 2. Ports -/

/-- A port is never zero. -/
theorem port_bounds (p : Peer) : 1 ≤ p.port.toNat ∧ p.port.toNat ≤ 65535 := by
  have hne : p.port.toNat ≠ 0 := fun h0 => p.port_ne_zero (UInt16.toNat_inj.mp h0)
  have hlt : p.port.toNat < 65536 := p.port.toNat_lt
  omega

/-- **An address and a number make the peer at that address and port.** -/
theorem new_eq_ok_iff {address : Net.Address} {port : Int64} {p : Peer} :
    new address port = .ok p ↔ p.address = address ∧ port.toInt = p.port.toNat := by
  have hbounds := p.port_bounds
  unfold new
  split
  · rename_i h
    obtain ⟨address', port', hne⟩ := p
    rw [Except.ok.injEq, Peer.mk.injEq, ← UInt16.toNat_inj, UInt16.toNat_ofNatLT]
    constructor
    · rintro ⟨rfl, hport⟩
      exact ⟨rfl, by dsimp only; omega⟩
    · rintro ⟨rfl, hport⟩
      exact ⟨rfl, by dsimp only at hport; omega⟩
  · rename_i h
    refine ⟨nofun, ?_⟩
    rintro ⟨-, hport⟩
    omega

theorem exists_new_iff {address : Net.Address} {port : Int64} :
    (∃ p, new address port = .ok p) ↔ 1 ≤ port.toInt ∧ port.toInt ≤ 65535 := by
  unfold new
  split
  · rename_i h
    exact ⟨fun _ => ⟨by omega, h.2⟩, fun _ => ⟨_, rfl⟩⟩
  · rename_i h
    refine ⟨fun ⟨p, hp⟩ => absurd hp nofun, fun hbounds => ?_⟩
    exact absurd ⟨by omega, hbounds.2⟩ h

/-! ## 3. Records -/

/-- **The record of a peer** in the compact list: the four bytes of its address and the two of its
port, each most significant first.  There is none for an IPv6 address. -/
def record? (p : Peer) : Option Bytes :=
  match p.address with
  | .v4 x => some [x.a, x.b, x.c, x.d, UInt8.ofNat (p.port.toNat / 256),
      UInt8.ofNat (p.port.toNat % 256)]
  | .v6 _ => none

/-- **The compact list of peers**: their records, one after another. -/
def compact? : List Peer → Option Bytes
  | [] => some []
  | p :: ps => do return (← record? p) ++ (← compact? ps)

/-- A record is six bytes. -/
theorem exists_bytes_of_record {p : Peer} {record : Bytes} (h : record? p = some record) :
    ∃ a b c d high low, record = [a, b, c, d, high, low] := by
  unfold record? at h
  split at h
  · exact ⟨_, _, _, _, _, _, (Option.some.inj h).symm⟩
  · exact absurd h nofun

/-- The number of two bytes is the port of which they are the bytes. -/
theorem port_of_bytes_iff {high low : UInt8} {port : UInt16} :
    256 * high.toNat + low.toNat = port.toNat ↔
      high = UInt8.ofNat (port.toNat / 256) ∧ low = UInt8.ofNat (port.toNat % 256) := by
  have hport : port.toNat < 65536 := port.toNat_lt
  have hhigh : high.toNat < 256 := high.toNat_lt
  have hlow : low.toNat < 256 := low.toNat_lt
  rw [← UInt8.toNat_inj, ← UInt8.toNat_inj (b := UInt8.ofNat (port.toNat % 256)),
    UInt8.toNat_ofNat', UInt8.toNat_ofNat']
  omega

/-- The number of two bytes is not wrapped. -/
theorem toInt_of_bytes (high low : UInt8) :
    (Int64.ofNat (256 * high.toNat + low.toNat)).toInt
      = ((256 * high.toNat + low.toNat : Nat) : Int) := by
  have hhigh : high.toNat < 256 := high.toNat_lt
  have hlow : low.toNat < 256 := low.toNat_lt
  exact Int64.toInt_ofNat_of_lt (by omega)

theorem ofRecord_eq_ok_iff {a b c d high low : UInt8} {p : Peer} :
    ofRecord a b c d high low = .ok p ↔ record? p = some [a, b, c, d, high, low] := by
  rw [ofRecord, new_eq_ok_iff, toInt_of_bytes, Int.natCast_inj, port_of_bytes_iff, record?]
  split
  · rename_i x hx
    rw [hx, Net.Address.v4.injEq, Net.Ipv4.mk.injEq]
    simp only [Option.some.injEq, List.cons.injEq, and_true, and_assoc, eq_comm]
  · rename_i x hx
    rw [hx]
    exact ⟨fun h => absurd h.1 nofun, nofun⟩

/-- A record is read as the peer whose record it is, wherever it stands. -/
theorem readRecord_eq_ok_iff (index : Nat) (record : Bytes) (p : Peer) :
    readRecord index record = .ok p ↔ record? p = some record := by
  unfold readRecord
  split
  · rw [mapError_eq_ok_iff, ofRecord_eq_ok_iff]
  · rename_i hragged
    refine ⟨nofun, fun h => ?_⟩
    obtain ⟨a, b, c, d, high, low, rfl⟩ := exists_bytes_of_record h
    exact absurd rfl (hragged a b c d high low)

theorem compact?_eq_some_iff {ps : List Peer} : ∀ {s : Bytes},
    compact? ps = some s ↔
      ∃ records, Forall₂ (fun r p => record? p = some r) records ps ∧ records.flatten = s := by
  induction ps with
  | nil =>
    intro s
    simp only [compact?, Option.some.injEq, List.forall₂_nil_right_iff, exists_eq_left,
      List.flatten_nil]
  | cons p ps ih =>
    intro s
    simp only [compact?, Option.bind_eq_bind, Option.bind_eq_some_iff, Option.pure_def,
      Option.some.injEq, ih]
    constructor
    · rintro ⟨r, hr, _, ⟨records, hrecords, rfl⟩, rfl⟩
      exact ⟨r :: records, .cons hr hrecords, List.flatten_cons⟩
    · rintro ⟨_, hall, rfl⟩
      cases hall with
      | cons hr hrecords => exact ⟨_, hr, _, ⟨_, hrecords, rfl⟩, List.flatten_cons.symm⟩

/-- Records that were put together are cut apart again. -/
theorem chunks_of_records {records : List Bytes} {ps : List Peer}
    (h : Forall₂ (fun r p => record? p = some r) records ps) :
    records.flatten.length = 6 * records.length ∧
      Bytes.chunks 6 records.length records.flatten = records := by
  have hsize : ∀ r ∈ records, r.length = 6 := by
    intro r hr
    obtain ⟨p, hp⟩ := exists_forall₂_iff.mp ⟨ps, h⟩ r hr
    obtain ⟨a, b, c, d, high, low, rfl⟩ := exists_bytes_of_record hp
    rfl
  refine ⟨?_, Bytes.chunks_flatten 6 records hsize⟩
  rw [List.length_flatten, List.map_congr_left hsize, List.map_const', List.sum_replicate_nat,
    Nat.mul_comm]

/-- **The peers of a byte string are those whose records it is.** -/
theorem readCompact_eq_ok_iff {s : Bytes} {ps : List Peer} :
    readCompact s = .ok ps ↔ compact? ps = some s := by
  rw [compact?_eq_some_iff, readCompact, recordLength]
  constructor
  · intro h
    split at h
    · rename_i hwhole
      refine ⟨_, (Field.each_eq_ok_iff readRecord_eq_ok_iff).mp h, ?_⟩
      exact Bytes.flatten_chunks 6 _ s (by omega)
    · exact absurd h nofun
  · rintro ⟨records, hrecords, rfl⟩
    obtain ⟨hlength, hchunks⟩ := chunks_of_records hrecords
    have hcount : records.flatten.length / 6 = records.length := by omega
    rw [if_pos (by omega), hcount, hchunks]
    exact (Field.each_eq_ok_iff readRecord_eq_ok_iff).mpr hrecords

/-- The peers that have records. -/
theorem isSome_compact?_iff {ps : List Peer} :
    (compact? ps).isSome = true ↔ ∀ p ∈ ps, ∃ x, p.address = .v4 x := by
  induction ps with
  | nil => exact ⟨fun _ => nofun, fun _ => rfl⟩
  | cons p ps ih =>
    rw [List.forall_mem_cons, ← ih, compact?, record?]
    split
    · rename_i x hx
      cases compact? ps <;> simp [hx]
    · rename_i x hx
      simp [hx]

/-- Six bytes are a record unless the port in them is zero. -/
theorem exists_record_iff {a b c d high low : UInt8} :
    (∃ p, record? p = some [a, b, c, d, high, low]) ↔ high ≠ 0 ∨ low ≠ 0 := by
  have hhigh : high.toNat < 256 := high.toNat_lt
  have hlow : low.toNat < 256 := low.toNat_lt
  simp only [← ofRecord_eq_ok_iff, ofRecord, exists_new_iff, toInt_of_bytes, ne_eq,
    ← UInt8.toNat_inj, UInt8.toNat_zero]
  omega

/-- The bytes of the port in one of the records of a byte string. -/
theorem exists_record_at_iff {s : Bytes} {i : Nat} (h : 6 * i + 6 ≤ s.length) :
    (∃ p, record? p = some ((s.drop (i * 6)).take 6)) ↔
      s.getD (6 * i + 4) 0 ≠ 0 ∨ s.getD (6 * i + 5) 0 ≠ 0 := by
  have hget : ∀ j < 6, s.getD (6 * i + j) 0 = ((s.drop (i * 6)).take 6).getD j 0 := by
    intro j hj
    rw [List.getD_eq_getElem?_getD, List.getD_eq_getElem?_getD, List.getElem?_take_of_lt hj,
      List.getElem?_drop, Nat.mul_comm]
  have hlength : ((s.drop (i * 6)).take 6).length = 6 := by
    rw [List.length_take, List.length_drop]
    omega
  rw [hget 4 (by decide), hget 5 (by decide)]
  match (s.drop (i * 6)).take 6, hlength with
  | [_, _, _, _, _, _], _ => exact exists_record_iff

/-- **The byte strings that are lists of peers**: whole records, none of which has the port zero. -/
theorem exists_readCompact_iff {s : Bytes} : (∃ ps, readCompact s = .ok ps) ↔
    6 ∣ s.length ∧ ∀ i, 6 * i < s.length → s.getD (6 * i + 4) 0 ≠ 0 ∨ s.getD (6 * i + 5) 0 ≠ 0 := by
  rw [readCompact, recordLength]
  split
  · rename_i hwhole
    have hplace : ∀ i, i < s.length / 6 ↔ 6 * i < s.length := by omega
    simp only [Field.each_eq_ok_iff readRecord_eq_ok_iff, exists_forall₂_iff,
      List.mem_iff_getElem?, Bytes.getElem?_chunks, Option.ite_none_right_eq_some,
      Option.some.injEq, hplace]
    constructor
    · intro hall
      refine ⟨Nat.dvd_of_mod_eq_zero hwhole, fun i hi => ?_⟩
      exact (exists_record_at_iff (by omega)).mp (hall _ ⟨i, hi, rfl⟩)
    · rintro ⟨-, hall⟩ _ ⟨i, hi, rfl⟩
      exact (exists_record_at_iff (by omega)).mpr (hall i hi)
  · rename_i hragged
    refine ⟨fun ⟨ps, hps⟩ => absurd hps nofun, fun hwhole => ?_⟩
    exact absurd (Nat.mod_eq_zero_of_dvd hwhole.1) hragged

/-! ## 4. Entries -/

/-- **The value is a dictionary of the peer**: it has a text that is read as the address, and the
number of the port.  Its other fields do not matter. -/
def IsEntry (v : Value) (p : Peer) : Prop :=
  ∃ d, v = .dictionary d ∧
    (∃ t, find? d "ip" = some (.text t) ∧ Net.Address.read? t = some p.address) ∧
    ∃ port : Int64, find? d "port" = some (.integer port) ∧ port.toInt = p.port.toNat

/-- An entry is read as the peer whose entry it is, wherever it stands. -/
theorem readEntry_eq_ok_iff (index : Nat) (v : Value) (p : Peer) :
    readEntry index v = .ok p ↔ IsEntry v p := by
  simp only [readEntry, bind_eq_ok_iff, mapError_eq_ok_iff, Field.dictionary_eq_ok_iff,
    Field.required_eq_ok_iff, Field.text_eq_ok_iff]
  constructor
  · rintro ⟨d, rfl, t, ⟨_, hip, rfl⟩, h⟩
    split at h
    · exact absurd h nofun
    · rename_i address hread
      simp only [bind_eq_ok_iff, mapError_eq_ok_iff, Field.required_eq_ok_iff,
        Field.integer_eq_ok_iff, new_eq_ok_iff] at h
      obtain ⟨port, ⟨_, hport, rfl⟩, rfl, hvalue⟩ := h
      exact ⟨d, rfl, ⟨t, hip, hread⟩, port, hport, hvalue⟩
  · rintro ⟨d, rfl, ⟨t, hip, hread⟩, port, hport, hvalue⟩
    refine ⟨d, rfl, t, ⟨_, hip, rfl⟩, ?_⟩
    simp only [hread, bind_eq_ok_iff, mapError_eq_ok_iff, Field.required_eq_ok_iff,
      Field.integer_eq_ok_iff, new_eq_ok_iff]
    exact ⟨port, ⟨_, hport, rfl⟩, trivial, hvalue⟩

/-- **The peers of a list are those whose entries it holds.** -/
theorem readEntries_eq_ok_iff {items : List Value} {ps : List Peer} :
    readList (.list items) = .ok ps ↔ Forall₂ IsEntry items ps :=
  Field.each_eq_ok_iff readEntry_eq_ok_iff

/-- A dictionary with the text of the address is an entry. -/
theorem isEntry_of_text {d : Dictionary Value} {p : Peer}
    (hip : find? d "ip" = some (.text p.address.text))
    (hport : find? d "port" = some (.integer (Int64.ofNat p.port.toNat))) :
    IsEntry (.dictionary d) p := by
  have hbounds := p.port_bounds
  exact ⟨d, rfl, ⟨_, hip, p.address.read?_text⟩, _, hport, Int64.toInt_ofNat_of_lt (by omega)⟩

/-- **The values that are entries.** -/
theorem exists_isEntry_iff {v : Value} : (∃ p, IsEntry v p) ↔
    ∃ d t address port, v = .dictionary d ∧ find? d "ip" = some (.text t) ∧
      Net.Address.read? t = some address ∧ find? d "port" = some (.integer port) ∧
      1 ≤ port.toInt ∧ port.toInt ≤ 65535 := by
  constructor
  · rintro ⟨p, d, rfl, ⟨t, hip, hread⟩, port, hport, hvalue⟩
    have hbounds := p.port_bounds
    exact ⟨d, t, p.address, port, rfl, hip, hread, hport, by omega, by omega⟩
  · rintro ⟨d, t, address, port, rfl, hip, hread, hport, hbounds⟩
    obtain ⟨p, hp⟩ : ∃ p, new address port = .ok p := exists_new_iff.mpr hbounds
    obtain ⟨rfl, hvalue⟩ := new_eq_ok_iff.mp hp
    exact ⟨p, d, rfl, ⟨t, hip, hread⟩, port, hport, hvalue⟩

/-! ## 5. Lists -/

/-- **The value is a list of peers**: a byte string of whole records, none of which has the port
zero, or a list of entries, each of them with the text of an address and the number of a port. -/
inductive IsPeerList : Value → Prop
  | compact {s : Bytes} (whole : 6 ∣ s.length)
      (ports : ∀ i, 6 * i < s.length → s.getD (6 * i + 4) 0 ≠ 0 ∨ s.getD (6 * i + 5) 0 ≠ 0) :
      IsPeerList (.byteString s)
  | entries {items : List Value}
      (each : ∀ item ∈ items, ∃ d t address port, item = .dictionary d ∧
        find? d "ip" = some (.text t) ∧ Net.Address.read? t = some address ∧
        find? d "port" = some (.integer port) ∧ 1 ≤ port.toInt ∧ port.toInt ≤ 65535) :
      IsPeerList (.list items)

/-- **The lists of peers are read, and nothing else is.** -/
theorem exists_readList_iff {v : Value} : (∃ ps, readList v = .ok ps) ↔ IsPeerList v := by
  cases v with
  | byteString s =>
    rw [readList, exists_readCompact_iff]
    exact ⟨fun h => .compact h.1 h.2, fun h => by cases h with | compact hw hp => exact ⟨hw, hp⟩⟩
  | list items =>
    simp only [readEntries_eq_ok_iff, exists_forall₂_iff, exists_isEntry_iff]
    exact ⟨.entries, fun h => by cases h with | entries each => exact each⟩
  | integer n => exact ⟨fun ⟨_, h⟩ => absurd h nofun, nofun⟩
  | dictionary d => exact ⟨fun ⟨_, h⟩ => absurd h nofun, nofun⟩

/-- A text that goes on begins as it did. -/
theorem exists_append {start text : String} (h : ∃ rest, text = start ++ rest) (more : String) :
    ∃ rest, text ++ more = start ++ rest := by
  obtain ⟨rest, rfl⟩ := h
  exact ⟨rest ++ more, String.append_assoc⟩

/-- Every refusal says that it is of a list of peers, and why. -/
theorem exists_message (fault : PeerListFault) :
    ∃ reason, fault.message = "Malformed peer list: " ++ reason := by
  cases fault with
  | wrongKind got => exact exists_append ⟨"expected list or byte string, got ", by decide +kernel⟩ _
  | raggedRecords length =>
    exact exists_append (exists_append ⟨"compact list of ", by decide +kernel⟩ _) _
  | record index fault =>
    exact exists_append (exists_append (exists_append ⟨"peers[", by decide +kernel⟩ _) _) _
  | field error => exact ⟨error.message, rfl⟩
  | entry fault => exact ⟨fault.message, rfl⟩

/-- A reply whose list of peers is refused is refused for it. -/
theorem readGrant_of_peers {d : Dictionary Value} {interval : UInt64} {v : Value}
    {fault : PeerListFault}
    (hinterval : (Field.required d "interval" >>= Field.count "interval") = .ok interval)
    (hpeers : find? d "peers" = some v) (hread : readList v = .error fault) :
    Announce.Reply.readGrant d = .error (.peerList fault) := by
  have hfound : Field.required d "peers" = .ok v := Field.required_eq_ok_iff.mpr hpeers
  rw [Announce.Reply.readGrant, hinterval, hfound]
  simp only [Except.mapError, bind, Except.bind, hread]

/-- **A value that is no list of peers is refused as such, whatever is wrong with it.** -/
theorem exists_fault_of_not_isPeerList {v : Value} (h : ¬ IsPeerList v) :
    ∃ fault reason, readList v = .error fault ∧
      (Error.peerList fault).message = some ("Malformed peer list: " ++ reason) := by
  match hread : readList v with
  | .ok ps => exact absurd (exists_readList_iff.mp ⟨ps, hread⟩) h
  | .error fault =>
    obtain ⟨reason, hreason⟩ := exists_message fault
    exact ⟨fault, reason, rfl, congrArg some hreason⟩

/-- **Both forms of a peer list are read as the same peers, and as a whole or not at all.**  IPv4
peers are read from their records and any peers from dictionaries with the texts of their addresses,
in their order; a byte string is read as no other peers than those whose records it is and a list as
no others than those whose entries it holds, and what is no list of peers is refused as one, also by
a reply in which it stands. -/
theorem readList_forms_agree :
    (∀ ps : List Peer, (compact? ps).isSome = true ↔ ∀ p ∈ ps, ∃ x, p.address = .v4 x) ∧
    (∀ ps s, readList (.byteString s) = .ok ps ↔ compact? ps = some s) ∧
    (∀ ps items, readList (.list items) = .ok ps ↔ Forall₂ IsEntry items ps) ∧
    (∀ (ps : List Peer) (ds : List (Dictionary Value)),
      Forall₂ (fun d p => find? d "ip" = some (.text p.address.text) ∧
        find? d "port" = some (.integer (Int64.ofNat p.port.toNat))) ds ps →
      readList (.list (ds.map .dictionary)) = .ok ps) ∧
    (∀ v, (∃ ps, readList v = .ok ps) ↔ IsPeerList v) ∧
    (∀ v, ¬ IsPeerList v → ∃ fault reason, readList v = .error fault ∧
      (Error.peerList fault).message = some ("Malformed peer list: " ++ reason) ∧
      ∀ d interval, (Field.required d "interval" >>= Field.count "interval") = .ok interval →
        find? d "peers" = some v → Announce.Reply.readGrant d = .error (.peerList fault)) := by
  refine ⟨fun ps => isSome_compact?_iff, fun ps s => readCompact_eq_ok_iff,
    fun ps items => readEntries_eq_ok_iff, fun ps ds h => ?_, fun v => exists_readList_iff,
    fun v h => ?_⟩
  · rw [readEntries_eq_ok_iff, List.forall₂_map_left_iff]
    exact h.imp fun d p hentry => isEntry_of_text hentry.1 hentry.2
  · obtain ⟨fault, reason, hread, hmessage⟩ := exists_fault_of_not_isPeerList h
    exact ⟨fault, reason, hread, hmessage, fun d interval hinterval hpeers =>
      readGrant_of_peers hinterval hpeers hread⟩

/-- Two peers in both forms; what else an entry says of a peer does not matter. -/
theorem readList_forms_agree_pair :
    let ps : List Peer := [⟨.v4 ⟨10, 0, 0, 1⟩, 6881, by decide⟩, ⟨.v4 ⟨10, 0, 0, 2⟩, 80, by decide⟩]
    let entry (ip : String) (port : Int64) : Dictionary Value :=
      .insert (Text.utf8 "peer id") (.list []) (.insert (Text.utf8 "port") (.integer port)
        (.insert (Text.utf8 "ip") (.text ip) .nil))
    readList (.byteString [10, 0, 0, 1, 26, 225, 10, 0, 0, 2, 0, 80]) = .ok ps ∧
      readList (.list ([entry "10.0.0.1" 6881, entry "10.0.0.2" 80].map .dictionary)) = .ok ps := by
  intro ps entry
  refine ⟨(readList_forms_agree.2.1 ps _).mpr (by decide), ?_⟩
  refine readList_forms_agree.2.2.2.1 ps _ (.cons ⟨?_, ?_⟩ (.cons ⟨?_, ?_⟩ .nil))
  all_goals decide +kernel

/-- One bad record is enough. -/
example : readList (.byteString [10, 0, 0, 1, 26, 225, 10, 0, 0, 2, 0, 0])
    = .error (.record 1 (.portOutOfRange 0)) := by decide

end Swarm.Peer
