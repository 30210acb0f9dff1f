/-
# Which replies are failures and which are successes

A reply is read key by key and in an order, but what it is does not depend on an order.  Three
predicates on its dictionary say what it is, and none of them mentions how it is read:

* `GivesReason`: there is a reason for failure, and nothing else counts (`ofValue_eq_failure_iff`).
* `IsGrant`: there is none, and each of the other keys is as it must be.  What is granted is then
  what the fields hold (`Grants`, `ofValue_eq_success_iff`).
* Everything else is an error, and so is a reply that is no dictionary (`ofValue_classifies`).

A reason is shown as text even if its bytes are not text; it is empty only if there are no bytes
(`lossyText_eq_empty_iff`).
-/
import Swarm.Proofs.Peer

namespace Swarm.Announce.Reply

open Bencode
open Swarm.Field (find? AgreeOn)

/-! ## 1. Reasons -/

/-- A character that has been begun leaves something behind: itself, or what stands for it. -/
theorem lossyFrom_some_ne_nil : ∀ (s : Bytes) (begun : Text.Begun),
    Text.lossyFrom (some begun) s ≠ []
  | [], _ => List.cons_ne_nil _ _
  | b :: rest, begun => by
    rw [Text.lossyFrom, Text.lossyStep]
    split
    · split
      · exact List.cons_ne_nil _ _
      · exact lossyFrom_some_ne_nil rest _
    · exact List.cons_ne_nil _ _

theorem lossyText_eq_empty_iff {s : Bytes} : Text.lossyText s = "" ↔ s = [] := by
  rw [Text.lossyText, String.ofList_eq_empty_iff]
  cases s with
  | nil => exact iff_of_true rfl rfl
  | cons b rest =>
    refine iff_of_false ?_ (List.cons_ne_nil b rest)
    rw [Text.lossyFrom, Text.lossyStep, Text.start]
    split
    · exact List.cons_ne_nil _ _
    · exact List.cons_ne_nil _ _
    · exact lossyFrom_some_ne_nil rest _

/-- **There is a reason for failure**: a byte string that is not empty, here as it is shown. -/
def GivesReason (d : Dictionary Value) (reason : String) : Prop :=
  ∃ s, find? d "failure reason" = some (.byteString s) ∧ s ≠ [] ∧ Text.lossyText s = reason

/-- There is no reason for failure, or an empty one. -/
def GivesNoReason (d : Dictionary Value) : Prop :=
  ∀ v, find? d "failure reason" = some v → v = .byteString []

theorem readFailure_eq_some_iff {d : Dictionary Value} {reason : String} :
    readFailure d = .ok (some reason) ↔ GivesReason d reason := by
  unfold readFailure GivesReason
  cases find? d "failure reason" with
  | none => simp
  | some v =>
    simp only [bind_eq_ok_iff, pure_eq_ok_iff, Field.bytes_eq_ok_iff, Option.some.injEq,
      Option.ite_none_left_eq_some, String.isEmpty_iff, lossyText_eq_empty_iff, ne_eq]

theorem readFailure_eq_none_iff {d : Dictionary Value} :
    readFailure d = .ok none ↔ GivesNoReason d := by
  unfold readFailure GivesNoReason
  cases find? d "failure reason" with
  | none => simp
  | some v =>
    simp only [bind_eq_ok_iff, pure_eq_ok_iff, Field.bytes_eq_ok_iff, Option.some.injEq,
      ite_eq_left_iff, String.isEmpty_iff, lossyText_eq_empty_iff, reduceCtorEq, imp_false,
      not_not, exists_eq_right, forall_eq']

/-! ## 2. Grants -/

/-- The value is a number that is this count. -/
def IsCount (v : Value) (c : UInt64) : Prop := ∃ n : Int64, v = .integer n ∧ n.toInt = c.toNat

/-- The value is a byte string that is this text. -/
def IsText (v : Value) (t : String) : Prop := v = .text t

/-- **The dictionary grants this**: it gives no reason for failure, and each field of the grant is
what one of its keys holds.  What may be missing is missing in both. -/
structure Grants (d : Dictionary Value) (g : Grant) : Prop where
  noReason : GivesNoReason d
  interval : ∃ v, find? d "interval" = some v ∧ IsCount v g.interval
  peers : ∃ v, find? d "peers" = some v ∧ Peer.readList v = .ok g.peers
  minInterval : Option.Rel IsCount (find? d "min interval") g.minInterval
  trackerId : Option.Rel IsText (find? d "tracker id") g.trackerId
  complete : Option.Rel IsCount (find? d "complete") g.complete
  incomplete : Option.Rel IsCount (find? d "incomplete") g.incomplete
  warning : Option.Rel IsText (find? d "warning message") g.warning

/-- **Something is granted**: no reason for failure, an interval, a list of peers, and nothing else
of these keys that is not as it must be. -/
structure IsGrant (d : Dictionary Value) : Prop where
  noReason : GivesNoReason d
  interval : ∃ n : Int64, find? d "interval" = some (.integer n) ∧ 0 ≤ n.toInt
  peers : ∃ v, find? d "peers" = some v ∧ Peer.IsPeerList v
  counts : ∀ key ∈ ["min interval", "complete", "incomplete"], ∀ v, find? d key = some v →
    ∃ n : Int64, v = .integer n ∧ 0 ≤ n.toInt
  texts : ∀ key ∈ ["tracker id", "warning message"], ∀ v, find? d key = some v →
    ∃ t, v = .text t

theorem exists_isCount_iff {v : Value} :
    (∃ c, IsCount v c) ↔ ∃ n : Int64, v = .integer n ∧ 0 ≤ n.toInt := by
  constructor
  · rintro ⟨c, n, rfl, hn⟩
    exact ⟨n, rfl, by omega⟩
  · rintro ⟨n, rfl, hn⟩
    have hle := n.toInt_le
    have hmax := Int64.toInt_maxValue
    refine ⟨UInt64.ofNat n.toInt.toNat, n, rfl, ?_⟩
    rw [UInt64.toNat_ofNat']
    omega

/-- What may be missing can be read if it is right wherever it is there. -/
theorem exists_rel_iff {α β : Type} {R : α → β → Prop} {field : Option α} :
    (∃ o, Option.Rel R field o) ↔ ∀ x, field = some x → ∃ y, R x y := by
  cases field with
  | none => exact ⟨fun _ _ h => absurd h nofun, fun _ => ⟨none, .none⟩⟩
  | some x =>
    constructor
    · rintro ⟨_, h⟩ x' hx
      obtain rfl := Option.some.inj hx
      cases h with
      | some hxy => exact ⟨_, hxy⟩
    · intro h
      obtain ⟨y, hxy⟩ := h x rfl
      exact ⟨some y, .some hxy⟩

theorem optional_eq_ok_iff_rel {α : Type} {read : String → Value → Except FieldError α}
    {R : Value → α → Prop} (h : ∀ name v a, read name v = .ok a ↔ R v a) {d : Dictionary Value}
    {key : String} {o : Option α} :
    Field.optional read d key = .ok o ↔ Option.Rel R (find? d key) o := by
  rw [Field.optional_eq_ok_iff]
  constructor
  · rintro (⟨hnone, rfl⟩ | ⟨v, a, hv, ha, rfl⟩)
    · rw [hnone]
      exact .none
    · rw [hv]
      exact .some ((h key v a).mp ha)
  · cases hfield : find? d key with
    | none =>
      intro hrel
      cases hrel
      exact .inl ⟨rfl, rfl⟩
    | some v =>
      intro hrel
      cases hrel with
      | some hva => exact .inr ⟨v, _, rfl, (h key v _).mpr hva, rfl⟩

theorem readInterval_eq_ok_iff {d : Dictionary Value} {c : UInt64} :
    (Field.required d "interval" >>= Field.count "interval") = .ok c ↔
      ∃ v, find? d "interval" = some v ∧ IsCount v c := by
  simp only [bind_eq_ok_iff, Field.required_eq_ok_iff, Field.count_eq_ok_iff, IsCount]

/-- **What is read of a dictionary without a reason for failure is what it grants.** -/
theorem readGrant_eq_ok_iff {d : Dictionary Value} {g : Grant} (h : GivesNoReason d) :
    readGrant d = .ok g ↔ Grants d g := by
  have hcount : ∀ name v c, Field.count name v = .ok c ↔ IsCount v c := fun _ _ _ =>
    Field.count_eq_ok_iff
  have htext : ∀ name v t, Field.text name v = .ok t ↔ IsText v t := fun _ _ _ =>
    Field.text_eq_ok_iff
  simp only [readGrant, bind_eq_ok_iff, pure_eq_ok_iff, mapError_eq_ok_iff, hcount,
    Field.required_eq_ok_iff, optional_eq_ok_iff_rel hcount, optional_eq_ok_iff_rel htext]
  constructor
  · rintro ⟨_, hinterval, v, hv, _, hpeers, _, hmin, _, hid, _, hcomplete, _, hincomplete, _,
      hwarning, rfl⟩
    exact ⟨h, hinterval, ⟨v, hv, hpeers⟩, hmin, hid, hcomplete, hincomplete, hwarning⟩
  · intro hg
    obtain ⟨v, hv, hpeers⟩ := hg.peers
    exact ⟨_, hg.interval, v, hv, _, hpeers, _, hg.minInterval, _, hg.trackerId, _, hg.complete,
      _, hg.incomplete, _, hg.warning, rfl⟩

/-- **Something is granted exactly if the keys are as they must be.** -/
theorem exists_grants_iff {d : Dictionary Value} : (∃ g, Grants d g) ↔ IsGrant d := by
  have hcounts : ∀ key, (∃ o, Option.Rel IsCount (find? d key) o) ↔
      ∀ v, find? d key = some v → ∃ n : Int64, v = .integer n ∧ 0 ≤ n.toInt := by
    intro key
    simp only [exists_rel_iff, exists_isCount_iff]
  have htexts : ∀ key, (∃ o, Option.Rel IsText (find? d key) o) ↔
      ∀ v, find? d key = some v → ∃ t, v = .text t := fun key => exists_rel_iff
  constructor
  · rintro ⟨g, hg⟩
    obtain ⟨_, hinterval, hcount⟩ := hg.interval
    obtain ⟨n, rfl, hn⟩ := exists_isCount_iff.mp ⟨_, hcount⟩
    obtain ⟨v, hv, hpeers⟩ := hg.peers
    have hlist := Peer.exists_readList_iff.mp ⟨_, hpeers⟩
    refine ⟨hg.noReason, ⟨n, hinterval, hn⟩, ⟨v, hv, hlist⟩, ?_, ?_⟩
    · simp only [List.forall_mem_cons]
      exact ⟨(hcounts _).mp ⟨_, hg.minInterval⟩, (hcounts _).mp ⟨_, hg.complete⟩,
        (hcounts _).mp ⟨_, hg.incomplete⟩, nofun⟩
    · simp only [List.forall_mem_cons]
      exact ⟨(htexts _).mp ⟨_, hg.trackerId⟩, (htexts _).mp ⟨_, hg.warning⟩, nofun⟩
  · intro h
    obtain ⟨n, hinterval, hn⟩ := h.interval
    obtain ⟨interval, hcount⟩ := exists_isCount_iff.mpr ⟨n, rfl, hn⟩
    obtain ⟨v, hv, hlist⟩ := h.peers
    obtain ⟨peers, hpeers⟩ := Peer.exists_readList_iff.mpr hlist
    obtain ⟨minInterval, hmin⟩ := (hcounts "min interval").mpr (h.counts _ (by simp))
    obtain ⟨complete, hcomplete⟩ := (hcounts "complete").mpr (h.counts _ (by simp))
    obtain ⟨incomplete, hincomplete⟩ := (hcounts "incomplete").mpr (h.counts _ (by simp))
    obtain ⟨trackerId, hid⟩ := (htexts "tracker id").mpr (h.texts _ (by simp))
    obtain ⟨warning, hwarning⟩ := (htexts "warning message").mpr (h.texts _ (by simp))
    exact ⟨⟨interval, minInterval, trackerId, complete, incomplete, warning, peers⟩, h.noReason,
      ⟨_, hinterval, hcount⟩, ⟨v, hv, hpeers⟩, hmin, hid, hcomplete, hincomplete, hwarning⟩

/-! ## 3. Replies -/

theorem ofValue_eq_failure_iff {v : Value} {reason : String} :
    ofValue v = .ok (.failure reason) ↔ ∃ d, v = .dictionary d ∧ GivesReason d reason := by
  simp only [ofValue, bind_eq_ok_iff, mapError_eq_ok_iff, Field.dictionary_eq_ok_iff]
  constructor
  · rintro ⟨d, rfl, read, hread, h⟩
    refine ⟨d, rfl, ?_⟩
    cases read with
    | none =>
      obtain ⟨g, -, hg⟩ := bind_eq_ok_iff.mp h
      exact absurd (pure_eq_ok_iff.mp hg) nofun
    | some r =>
      obtain rfl := Reply.failure.inj (pure_eq_ok_iff.mp h)
      exact readFailure_eq_some_iff.mp hread
  · rintro ⟨d, rfl, h⟩
    exact ⟨d, rfl, some reason, readFailure_eq_some_iff.mpr h, rfl⟩

theorem ofValue_eq_success_iff {v : Value} {g : Grant} :
    ofValue v = .ok (.success g) ↔ ∃ d, v = .dictionary d ∧ Grants d g := by
  simp only [ofValue, bind_eq_ok_iff, mapError_eq_ok_iff, Field.dictionary_eq_ok_iff]
  constructor
  · rintro ⟨d, rfl, read, hread, h⟩
    refine ⟨d, rfl, ?_⟩
    cases read with
    | none =>
      have hno := readFailure_eq_none_iff.mp hread
      obtain ⟨g', hg', hg⟩ := bind_eq_ok_iff.mp h
      obtain rfl := Reply.success.inj (pure_eq_ok_iff.mp hg)
      exact (readGrant_eq_ok_iff hno).mp hg'
    | some r => exact absurd (pure_eq_ok_iff.mp h) nofun
  · rintro ⟨d, rfl, h⟩
    refine ⟨d, rfl, none, readFailure_eq_none_iff.mpr h.noReason, ?_⟩
    simp only [(readGrant_eq_ok_iff h.noReason).mpr h]
    rfl

/-- The keys that are read. -/
def keys : List String :=
  ["failure reason", "interval", "peers", "min interval", "tracker id", "complete", "incomplete",
    "warning message"]

/-- **Nothing else in a reply is looked at.** -/
theorem ofValue_congr {d d' : Dictionary Value} (h : AgreeOn keys d d') :
    ofValue (.dictionary d) = ofValue (.dictionary d') := by
  have hreason : readFailure d = readFailure d' := by
    rw [readFailure, h "failure reason" (by simp [keys]), readFailure]
  have hgrant : readGrant d = readGrant d' := by
    rw [readGrant, Field.required_congr (h "interval" (by simp [keys])),
      Field.required_congr (h "peers" (by simp [keys])),
      Field.optional_congr (h "min interval" (by simp [keys])),
      Field.optional_congr (h "tracker id" (by simp [keys])),
      Field.optional_congr (h "complete" (by simp [keys])),
      Field.optional_congr (h "incomplete" (by simp [keys])),
      Field.optional_congr (h "warning message" (by simp [keys])), readGrant]
  simp only [ofValue, Field.dictionary, Except.mapError, ok_bind, hreason, hgrant]

/-- **What a reply is.**  It is a failure if its dictionary gives a reason, whatever else is in it;
it is a success if it gives none and everything else is as it must be, and grants what its fields
hold; anything else is an error.  Replies that agree on the keys that are read are the same. -/
theorem ofValue_classifies :
    (∀ v reason, ofValue v = .ok (.failure reason) ↔
      ∃ d, v = .dictionary d ∧ GivesReason d reason) ∧
    (∀ v g, ofValue v = .ok (.success g) ↔ ∃ d, v = .dictionary d ∧ Grants d g) ∧
    (∀ d, (∃ g, Grants d g) ↔ IsGrant d) ∧
    (∀ v, (∃ e, ofValue v = .error e) ↔
      ¬ ∃ d, v = .dictionary d ∧ ((∃ reason, GivesReason d reason) ∨ IsGrant d)) ∧
    ∀ d d', AgreeOn keys d d' → ofValue (.dictionary d) = ofValue (.dictionary d') := by
  refine ⟨fun _ _ => ofValue_eq_failure_iff, fun _ _ => ofValue_eq_success_iff,
    fun _ => exists_grants_iff, fun v => ?_, fun _ _ h => ofValue_congr h⟩
  constructor
  · rintro ⟨e, he⟩ ⟨d, rfl, ⟨reason, hreason⟩ | hgrant⟩
    · rw [ofValue_eq_failure_iff.mpr ⟨d, rfl, hreason⟩] at he
      exact absurd he nofun
    · obtain ⟨g, hg⟩ := exists_grants_iff.mpr hgrant
      rw [ofValue_eq_success_iff.mpr ⟨d, rfl, hg⟩] at he
      exact absurd he nofun
  · intro hneither
    match hread : ofValue v with
    | .error e => exact ⟨e, rfl⟩
    | .ok (.failure reason) =>
      obtain ⟨d, hd, hreason⟩ := ofValue_eq_failure_iff.mp hread
      exact absurd ⟨d, hd, .inl ⟨reason, hreason⟩⟩ hneither
    | .ok (.success g) =>
      obtain ⟨d, hd, hg⟩ := ofValue_eq_success_iff.mp hread
      exact absurd ⟨d, hd, .inr (exists_grants_iff.mp ⟨g, hg⟩)⟩ hneither

/-- A reason counts although its bytes are no text, the interval beside it is negative, and a key
stands there that is not read. -/
theorem ofValue_classifies_brokenReason :
    let d : Dictionary Value := .insert (Text.utf8 "interval") (.integer (-1))
      (.insert (Text.utf8 "failure reason") (.byteString [0x6E, 0xFF]) .nil)
    let d' := Dictionary.insert (Text.utf8 "external ip") (.list []) d
    AgreeOn keys d d' ∧ ofValue (.dictionary d') = .ok (.failure "n\uFFFD") := by
  intro d d'
  have hagree : AgreeOn keys d d' := by decide +kernel
  have hreason : GivesReason d "n\uFFFD" :=
    ⟨[0x6E, 0xFF], by decide +kernel, by decide, by decide +kernel⟩
  refine ⟨hagree, ?_⟩
  rw [← ofValue_classifies.2.2.2.2 d d' hagree]
  exact (ofValue_classifies.1 _ _).mpr ⟨d, rfl, hreason⟩

end Swarm.Announce.Reply
