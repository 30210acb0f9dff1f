/-
# A bitfield is a set of pieces

What can be asked of a bitfield is answered as a set of piece numbers would answer it.  `owned` is
that set, and the first half of the module says what each operation does to it.

The second half puts the operations into runs, in which a copy may be put aside and exchanged, and
the wire form may be read back for another number of pieces.  A run is the same for whatever keeps
pieces (`Keeper`), so bitfields and sets run side by side: `Represents.run` is the simulation, and
`shows_owned` says that everything a bitfield tells of itself is so of the set.
-/
import Mathlib.Data.Finset.Card
import Mathlib.Data.Nat.Count
import Mathlib.Order.Bounds.Defs
import Swarm.Proofs.Pieces.Wire

namespace Swarm

/-! ## 1. Lists of bits -/

/-- Bits that are set are counted. -/
theorem countP_id_eq_count (bs : List Bool) :
    bs.countP id = Nat.count (fun i => bs[i]? = some true) bs.length := by
  induction bs with
  | nil => rfl
  | cons b bs ih =>
    rw [List.countP_cons, ih, List.length_cons, Nat.count_succ']
    cases b <;> simp

/-- The places of a list that hold what is looked for. -/
def placesOf {α : Type} (p : α → Bool) (xs : List α) : Set Nat :=
  {i | ∃ x, xs[i]? = some x ∧ p x = true}

section Places

variable {α : Type} {p : α → Bool} {xs : List α}

/-- What is found is the first of these places. -/
theorem findIdx?_eq_some_iff_isLeast {i : Nat} :
    xs.findIdx? p = some i ↔ IsLeast (placesOf p xs) i := by
  rw [List.findIdx?_eq_some_iff_getElem]
  constructor
  · rintro ⟨hi, hp, hbefore⟩
    refine ⟨⟨xs[i], List.getElem?_eq_getElem hi, hp⟩, ?_⟩
    rintro j ⟨x, hx, hpx⟩
    obtain ⟨hj, rfl⟩ := List.getElem?_eq_some_iff.mp hx
    exact Nat.le_of_not_lt fun hji => hbefore j hji hpx
  · rintro ⟨⟨x, hx, hpx⟩, hleast⟩
    obtain ⟨hi, rfl⟩ := List.getElem?_eq_some_iff.mp hx
    refine ⟨hi, hpx, fun j hji hpj => ?_⟩
    exact Nat.not_le_of_lt hji (hleast ⟨_, List.getElem?_eq_getElem (Nat.lt_trans hji hi), hpj⟩)

theorem findIdx?_eq_none_iff_places : xs.findIdx? p = none ↔ ∀ i, i ∉ placesOf p xs := by
  rw [List.findIdx?_eq_none_iff]
  constructor
  · rintro h i ⟨x, hx, hpx⟩
    have hno := h x (List.mem_of_getElem? hx)
    rw [hpx] at hno
    exact Bool.noConfusion hno
  · intro h x hx
    obtain ⟨i, hi⟩ := List.mem_iff_getElem?.mp hx
    exact Bool.eq_false_of_not_eq_true fun hpx => h i ⟨x, hi, hpx⟩

end Places

namespace Bitfield

/-! ## 2. The pieces that are owned -/

variable {f : Bitfield} {index : UInt32}

/-- The pieces whose bits are set. -/
def owned (f : Bitfield) : Finset Nat :=
  (Finset.range f.amount.toNat).filter fun i => f.bits[i]? = some true

theorem mem_owned {i : Nat} : i ∈ f.owned ↔ f.bits[i]? = some true := by
  rw [owned, Finset.mem_filter, Finset.mem_range, and_iff_right_iff_imp]
  intro h
  exact (Vector.getElem?_eq_some_iff.mp h).1

theorem lt_of_mem_owned {i : Nat} (h : i ∈ f.owned) : i < f.amount.toNat :=
  Finset.mem_range.mp (Finset.mem_filter.mp h).1

theorem getElem_bits {i : Nat} (h : i < f.amount.toNat) : f.bits[i] = decide (i ∈ f.owned) := by
  rw [Bool.eq_iff_iff, decide_eq_true_iff, mem_owned, Vector.getElem?_eq_getElem h,
    Option.some.injEq]

theorem withPiece_of_lt {α : Type} (h : index.toNat < f.amount.toNat)
    (act : Fin f.amount.toNat → α) : f.withPiece index act = .ok (act ⟨index.toNat, h⟩) :=
  dif_pos h

/-- An index that is none of a piece is refused, with the number of pieces. -/
theorem withPiece_of_not_lt {α : Type} (h : ¬ index.toNat < f.amount.toNat)
    (act : Fin f.amount.toNat → α) :
    f.withPiece index act = .error (.indexOutOfRange index.toNat f.amount.toNat) :=
  dif_neg h

/-- The pieces that are owned after the bit of one of them was set, -/
theorem owned_set_true (f : Bitfield) (i : Fin f.amount.toNat) :
    owned ⟨f.amount, f.bits.set i true i.isLt⟩ = insert i.val f.owned := by
  ext j
  rw [mem_owned, Vector.getElem?_set i.isLt, Finset.mem_insert, mem_owned]
  by_cases hj : i.val = j
  · simp [hj]
  · simp [hj, Ne.symm hj]

/-- and after it was cleared. -/
theorem owned_set_false (f : Bitfield) (i : Fin f.amount.toNat) :
    owned ⟨f.amount, f.bits.set i false i.isLt⟩ = f.owned.erase i.val := by
  ext j
  rw [mem_owned, Vector.getElem?_set i.isLt, Finset.mem_erase, mem_owned]
  by_cases hj : i.val = j
  · simp [hj]
  · simp [hj, Ne.symm hj]

theorem owned_new (amount : UInt32) : (new amount).owned = ∅ := by
  refine Finset.eq_empty_of_forall_notMem fun i hi => ?_
  obtain ⟨hlt, hbit⟩ := Vector.getElem?_eq_some_iff.mp (mem_owned.mp hi)
  simp [new] at hbit

/-- What the wire form says of a piece that there is. -/
theorem mem_owned_ofBytes {bytes : Bytes} {amount : UInt32} {i : Nat} :
    i ∈ (ofBytes bytes amount).owned ↔ i < amount.toNat ∧ bitAt bytes.toArray i = true := by
  rw [mem_owned]
  by_cases h : i < amount.toNat
  · rw [getElem?_bits_ofBytes bytes h, Option.some.injEq, and_iff_right h]
  · have hnone : (ofBytes bytes amount).bits[i]? = none :=
      Vector.getElem?_eq_none_iff.mpr (Nat.le_of_not_lt h)
    rw [hnone]
    exact ⟨nofun, fun hmark => absurd hmark.1 h⟩

theorem mem_owned_reload {amount : UInt32} {i : Nat} :
    i ∈ (ofBytes f.toBytes amount).owned ↔ i ∈ f.owned ∧ i < amount.toNat := by
  rw [mem_owned_ofBytes, bitAt_toBytes, getD_bits, mem_owned, and_comm, Option.getD_eq_iff]
  simp

/-! ## 3. What a bitfield tells of itself -/

theorem count_eq_card (f : Bitfield) : f.count = f.owned.card := by
  have hbits : ∀ i, f.bits.toList[i]? = f.bits[i]? := fun i => Vector.getElem?_toList
  simp only [count, countP_id_eq_count, Vector.length_toList, hbits, Nat.count_eq_card_filter_range,
    owned]

/-- Everything is owned if as many pieces are owned as there are. -/
theorem isComplete_iff : f.isComplete = true ↔ f.owned.card = f.amount.toNat := by
  have hall : f.isComplete = true ↔ ∀ i ∈ Finset.range f.amount.toNat, f.bits[i]? = some true := by
    rw [isComplete, List.all_eq_true, List.forall_mem_iff_getElem]
    simp +contextual
  rw [hall, ← Finset.card_filter_eq_iff, ← owned, Finset.card_range]

theorem placesOf_set (f : Bitfield) : placesOf id f.bits.toList = (f.owned : Set Nat) := by
  ext i
  simp [placesOf, mem_owned]

theorem placesOf_unset (f : Bitfield) :
    placesOf (!·) f.bits.toList = {i | i < f.amount.toNat ∧ i ∉ f.owned} := by
  ext i
  rw [Set.mem_ofPred_eq, mem_owned, placesOf, Set.mem_ofPred_eq]
  constructor
  · rintro ⟨b, hb, hclear⟩
    rw [Vector.getElem?_toList] at hb
    refine ⟨(Vector.getElem?_eq_some_iff.mp hb).1, fun hset => ?_⟩
    obtain rfl := Option.some.inj (hb.symm.trans hset)
    exact Bool.noConfusion hclear
  · rintro ⟨hi, hclear⟩
    rw [Vector.getElem?_eq_getElem hi, Option.some.injEq, Bool.not_eq_true] at hclear
    refine ⟨false, ?_, rfl⟩
    rw [Vector.getElem?_toList, Vector.getElem?_eq_getElem hi, hclear]

/-- **What a bitfield tells of itself is so of the set**: of each piece, of how many there are, and
of the first one in it and the first one outside. -/
structure Shows (f : Bitfield) (s : Finset Nat) : Prop where
  below : ∀ i ∈ s, i < f.amount.toNat
  isSet : ∀ index : UInt32, index.toNat < f.amount.toNat →
    f.isSet index = .ok (decide (index.toNat ∈ s))
  count : f.count = s.card
  isComplete : f.isComplete = true ↔ s.card = f.amount.toNat
  firstSet : ∀ i, f.firstSet? = some i ↔ IsLeast (s : Set Nat) i
  noneSet : f.firstSet? = none ↔ s = ∅
  firstUnset : ∀ i, f.firstUnset? = some i ↔ IsLeast {j | j < f.amount.toNat ∧ j ∉ s} i
  noneUnset : f.firstUnset? = none ↔ ∀ j < f.amount.toNat, j ∈ s
  refused : ∀ index : UInt32, ¬ index.toNat < f.amount.toNat →
    let refusal := Error.indexOutOfRange index.toNat f.amount.toNat
    f.isSet index = .error refusal ∧ f.set index = .error refusal ∧ f.unset index = .error refusal

theorem isSet_of_lt (h : index.toNat < f.amount.toNat) :
    f.isSet index = .ok (decide (index.toNat ∈ f.owned)) := by
  rw [isSet, withPiece_of_lt h, ← getElem_bits h]
  rfl

theorem isSet_eq_ok_true_iff : f.isSet index = .ok true ↔ index.toNat ∈ f.owned := by
  by_cases h : index.toNat < f.amount.toNat
  · rw [isSet_of_lt h, Except.ok.injEq, decide_eq_true_iff]
  · rw [isSet, withPiece_of_not_lt h]
    exact ⟨nofun, fun hmem => absurd (lt_of_mem_owned hmem) h⟩

theorem shows_owned (f : Bitfield) : f.Shows f.owned where
  below := fun i hi => lt_of_mem_owned hi
  isSet := fun index h => isSet_of_lt h
  count := f.count_eq_card
  isComplete := isComplete_iff
  firstSet := fun i => by rw [firstSet?, findIdx?_eq_some_iff_isLeast, placesOf_set]
  noneSet := by
    rw [firstSet?, findIdx?_eq_none_iff_places, placesOf_set, Finset.eq_empty_iff_forall_notMem]
    rfl
  firstUnset := fun i => by rw [firstUnset?, findIdx?_eq_some_iff_isLeast, placesOf_unset]
  noneUnset := by
    rw [firstUnset?, findIdx?_eq_none_iff_places, placesOf_unset]
    refine forall_congr' fun j => ?_
    rw [Set.mem_ofPred_eq, not_and_not_right]
  refused := fun index h =>
    ⟨withPiece_of_not_lt h _, withPiece_of_not_lt h _, withPiece_of_not_lt h _⟩

end Bitfield

/-! ## 4. Sets of pieces -/

/-- A set of pieces out of a number of pieces. -/
@[ext]
structure PieceSet where
  amount : UInt32
  members : Finset Nat
  below : ∀ i ∈ members, i < amount.toNat

namespace PieceSet

variable (s : PieceSet) (index : UInt32)

/-- None of the pieces. -/
def empty (amount : UInt32) : PieceSet := ⟨amount, ∅, fun _ h => absurd h (Finset.notMem_empty _)⟩

/-- Those of the pieces for which something holds. -/
def filter (amount : UInt32) (p : Nat → Bool) : PieceSet :=
  ⟨amount, (Finset.range amount.toNat).filter (p · = true), fun _ h =>
    Finset.mem_range.mp (Finset.mem_filter.mp h).1⟩

/-- How an index is refused that is none of a piece. -/
def refusal : Error := .indexOutOfRange index.toNat s.amount.toNat

/-- Whether a piece is in the set. -/
def has : Except Error Bool :=
  if index.toNat < s.amount.toNat then .ok (decide (index.toNat ∈ s.members))
  else .error (s.refusal index)

/-- Adds a piece, and says whether it was missing. -/
def add : Except Error (Bool × PieceSet) :=
  if h : index.toNat < s.amount.toNat then
    .ok (decide (index.toNat ∉ s.members), ⟨s.amount, insert index.toNat s.members, by
      intro i hi
      rcases Finset.mem_insert.mp hi with rfl | hi
      · exact h
      · exact s.below i hi⟩)
  else .error (s.refusal index)

/-- Removes a piece, and says whether it was there. -/
def remove : Except Error (Bool × PieceSet) :=
  if index.toNat < s.amount.toNat then
    .ok (decide (index.toNat ∈ s.members), ⟨s.amount, s.members.erase index.toNat, fun i hi =>
      s.below i (Finset.mem_of_mem_erase hi)⟩)
  else .error (s.refusal index)

/-- The members below another number of pieces. -/
def resize (amount : UInt32) : PieceSet :=
  ⟨amount, s.members.filter (· < amount.toNat), fun _ h => (Finset.mem_filter.mp h).2⟩

end PieceSet

namespace Bitfield

variable (f : Bitfield) (index : UInt32)

/-- The set of the pieces that are owned, out of all of them. -/
def toPieceSet : PieceSet := ⟨f.amount, f.owned, fun _ h => lt_of_mem_owned h⟩

theorem toPieceSet_new (amount : UInt32) : (new amount).toPieceSet = .empty amount :=
  PieceSet.ext rfl (owned_new amount)

theorem toPieceSet_ofBytes (bytes : Bytes) (amount : UInt32) :
    (ofBytes bytes amount).toPieceSet = .filter amount (bitAt bytes.toArray) := by
  refine PieceSet.ext rfl (Finset.ext fun i => ?_)
  rw [toPieceSet, mem_owned_ofBytes, PieceSet.filter, Finset.mem_filter, Finset.mem_range]

theorem toPieceSet_reload (amount : UInt32) :
    (ofBytes f.toBytes amount).toPieceSet = f.toPieceSet.resize amount := by
  refine PieceSet.ext rfl (Finset.ext fun i => ?_)
  rw [toPieceSet, mem_owned_reload, PieceSet.resize, Finset.mem_filter]
  rfl

theorem has_toPieceSet : f.toPieceSet.has index = f.isSet index := by
  by_cases h : index.toNat < f.amount.toNat
  · rw [isSet_of_lt h]
    exact if_pos h
  · rw [isSet, withPiece_of_not_lt h]
    exact if_neg h

theorem add_toPieceSet :
    f.toPieceSet.add index = (f.set index).map (Prod.map id toPieceSet) := by
  by_cases h : index.toNat < f.amount.toNat
  · have hmembers := owned_set_true f ⟨index.toNat, h⟩
    have hanswer : decide (index.toNat ∉ f.owned) = !f.bits[index.toNat] := by
      rw [getElem_bits h, decide_not]
    have hadd : f.toPieceSet.add index = .ok _ := dif_pos h
    rw [hadd, set, withPiece_of_lt h]
    exact congrArg Except.ok (Prod.ext hanswer (PieceSet.ext rfl hmembers.symm))
  · rw [set, withPiece_of_not_lt h]
    exact dif_neg h

theorem remove_toPieceSet :
    f.toPieceSet.remove index = (f.unset index).map (Prod.map id toPieceSet) := by
  by_cases h : index.toNat < f.amount.toNat
  · have hmembers := owned_set_false f ⟨index.toNat, h⟩
    have hremove : f.toPieceSet.remove index = .ok _ := if_pos h
    rw [hremove, unset, withPiece_of_lt h]
    exact congrArg Except.ok (Prod.ext (getElem_bits h).symm (PieceSet.ext rfl hmembers.symm))
  · rw [unset, withPiece_of_not_lt h]
    exact if_neg h

end Bitfield

/-! ## 5. Runs -/

/-- What is done with pieces that are kept, beside which a copy may have been put aside. -/
inductive Action
  | set (index : UInt32)
  | unset (index : UInt32)
  | isSet (index : UInt32)
  /-- Puts a copy aside. -/
  | copy
  /-- Exchanges what is kept with the copy. -/
  | swap
  /-- Writes to the wire and reads back, for another number of pieces. -/
  | reload (amount : UInt32)
  deriving DecidableEq

/-- Whether what was put aside stays where it is. -/
def Action.leavesAside : Action → Bool
  | copy | swap => false
  | set _ | unset _ | isSet _ | reload _ => true

/-- Something that keeps pieces. -/
structure Keeper (α : Type) where
  set : α → UInt32 → Except Error (Bool × α)
  unset : α → UInt32 → Except Error (Bool × α)
  isSet : α → UInt32 → Except Error Bool
  reload : α → UInt32 → α

/-- Bitfields keep pieces, -/
def bitfieldKeeper : Keeper Bitfield where
  set := Bitfield.set
  unset := Bitfield.unset
  isSet := Bitfield.isSet
  reload := fun f amount => Bitfield.ofBytes f.toBytes amount

/-- and so do sets. -/
def setKeeper : Keeper PieceSet where
  set := PieceSet.add
  unset := PieceSet.remove
  isSet := PieceSet.has
  reload := PieceSet.resize

namespace Keeper

variable {α β : Type}

/-- The answer, and what is kept from then on: a failure changes nothing. -/
def keep (kept : α) : Except Error (Bool × α) → Except Error Bool × α
  | .ok (answer, next) => (.ok answer, next)
  | .error e => (.error e, kept)

/-- One action: its answer, if it asks for one, and what is kept and put aside after it. -/
def step (k : Keeper α) : α × α → Action → Option (Except Error Bool) × α × α
  | (kept, aside), .set index =>
    let (answer, next) := keep kept (k.set kept index)
    (some answer, next, aside)
  | (kept, aside), .unset index =>
    let (answer, next) := keep kept (k.unset kept index)
    (some answer, next, aside)
  | (kept, aside), .isSet index => (some (k.isSet kept index), kept, aside)
  | (kept, _), .copy => (none, kept, kept)
  | (kept, aside), .swap => (none, aside, kept)
  | (kept, aside), .reload amount => (none, k.reload kept amount, aside)

/-- One action after another, with all the answers. -/
def run (k : Keeper α) : α × α → List Action → List (Option (Except Error Bool)) × α × α
  | both, [] => ([], both)
  | both, action :: actions =>
    let (answer, next) := k.step both action
    let (answers, last) := k.run next actions
    (answer :: answers, last)

/-- **What one keeper keeps is a view of what the other does**: their operations agree. -/
structure Represents (k : Keeper α) (l : Keeper β) (view : α → β) : Prop where
  set : ∀ x index, l.set (view x) index = (k.set x index).map (Prod.map id view)
  unset : ∀ x index, l.unset (view x) index = (k.unset x index).map (Prod.map id view)
  isSet : ∀ x index, l.isSet (view x) index = k.isSet x index
  reload : ∀ x amount, l.reload (view x) amount = view (k.reload x amount)

variable {k : Keeper α} {l : Keeper β} {view : α → β}

theorem keep_map (view : α → β) (kept : α) (result : Except Error (Bool × α)) :
    keep (view kept) (result.map (Prod.map id view)) = Prod.map id view (keep kept result) := by
  cases result <;> rfl

/-- An action has the same answer on either side, -/
theorem Represents.step (h : Represents k l view) (both : α × α) (action : Action) :
    l.step (Prod.map view view both) action =
      Prod.map id (Prod.map view view) (k.step both action) := by
  obtain ⟨kept, aside⟩ := both
  cases action with
  | set index =>
    simp only [Keeper.step, Prod.map_apply, h.set, keep_map]
    rfl
  | unset index =>
    simp only [Keeper.step, Prod.map_apply, h.unset, keep_map]
    rfl
  | isSet index => simp only [Keeper.step, Prod.map_apply, h.isSet, id]
  | copy => rfl
  | swap => rfl
  | reload amount => simp only [Keeper.step, Prod.map_apply, h.reload, id]

/-- **and so has a run.** -/
theorem Represents.run (h : Represents k l view) (actions : List Action) : ∀ both : α × α,
    l.run (Prod.map view view both) actions =
      Prod.map id (Prod.map view view) (k.run both actions) := by
  induction actions with
  | nil =>
    intro both
    rfl
  | cons action actions ih =>
    intro both
    simp only [Keeper.run, h.step, Prod.map_fst, Prod.map_snd, ih, id]
    rfl

theorem run_append (k : Keeper α) (before after : List Action) : ∀ both : α × α,
    (k.run both (before ++ after)).2 = (k.run (k.run both before).2 after).2 := by
  induction before with
  | nil =>
    intro both
    rfl
  | cons action before ih =>
    intro both
    exact ih (k.step both action).2

/-- What was put aside stays as it is, whatever happens to what is kept. -/
theorem aside_run (k : Keeper α) (actions : List Action)
    (h : ∀ action ∈ actions, action.leavesAside = true) : ∀ both : α × α,
    (k.run both actions).2.2 = both.2 := by
  induction actions with
  | nil =>
    intro both
    rfl
  | cons action actions ih =>
    obtain ⟨haction, hactions⟩ := List.forall_mem_cons.mp h
    intro both
    refine (ih hactions (k.step both action).2).trans ?_
    cases action with
    | set | unset | isSet | reload => rfl
    | copy | swap => exact Bool.noConfusion haction

end Keeper

theorem represents_bitfield :
    Keeper.Represents bitfieldKeeper setKeeper Bitfield.toPieceSet where
  set := Bitfield.add_toPieceSet
  unset := Bitfield.remove_toPieceSet
  isSet := Bitfield.has_toPieceSet
  reload := fun f amount => (f.toPieceSet_reload amount).symm

namespace Bitfield

/-- What a run begins with: no piece, or what the wire form says. -/
inductive Start
  | unowned (amount : UInt32)
  | wire (bytes : Bytes) (amount : UInt32)

/-- The bitfield that is begun with, -/
def Start.bitfield : Start → Bitfield
  | unowned amount => new amount
  | wire bytes amount => ofBytes bytes amount

/-- and the set. -/
def Start.pieceSet : Start → PieceSet
  | unowned amount => .empty amount
  | wire bytes amount => .filter amount (bitAt bytes.toArray)

theorem toPieceSet_start (start : Start) : start.bitfield.toPieceSet = start.pieceSet := by
  cases start with
  | unowned amount => exact toPieceSet_new amount
  | wire bytes amount => exact toPieceSet_ofBytes bytes amount

/-- **A bitfield behaves as a set of pieces.**  Whatever is done, beginning with no piece or with
the wire form, the answers are those of the set with which the same is done.  At each point what is
kept and what was put aside have the number of pieces of their sets and tell of themselves what is
so of them.  A copy is not affected by what happens to the original. -/
theorem run_as_set (start : Start) (actions : List Action) :
    let fields := bitfieldKeeper.run (start.bitfield, start.bitfield) actions
    let sets := setKeeper.run (start.pieceSet, start.pieceSet) actions
    fields.1 = sets.1 ∧
      (fields.2.1.amount = sets.2.1.amount ∧ fields.2.1.Shows sets.2.1.members) ∧
      (fields.2.2.amount = sets.2.2.amount ∧ fields.2.2.Shows sets.2.2.members) ∧
      ∀ later : List Action, (∀ action ∈ later, action.leavesAside = true) →
        (bitfieldKeeper.run fields.2 (.copy :: later ++ [.swap])).2.1 = fields.2.1 := by
  intro fields sets
  have hsets : sets = Prod.map id (Prod.map toPieceSet toPieceSet) fields := by
    have hrun := represents_bitfield.run actions (start.bitfield, start.bitfield)
    rw [Prod.map_apply, toPieceSet_start] at hrun
    exact hrun
  rw [hsets]
  refine ⟨rfl, ⟨rfl, fields.2.1.shows_owned⟩, ⟨rfl, fields.2.2.shows_owned⟩, ?_⟩
  intro later hlater
  rw [Keeper.run_append]
  exact Keeper.aside_run bitfieldKeeper later hlater (fields.2.1, fields.2.1)

/-- Spare bits of the wire form do not come back when there are more pieces. -/
example :
    let f := ofBytes [0xff, 0xff] 10
    (bitfieldKeeper.run (f, f) [.reload 12, .isSet 9, .isSet 10, .unset 12]).1 =
      [none, some (.ok true), some (.ok false), some (.error (.indexOutOfRange 12 12))] := by
  decide

end Bitfield
end Swarm
