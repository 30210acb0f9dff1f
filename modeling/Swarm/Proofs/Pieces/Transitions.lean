/-
# A transition of a bit is reported to one caller

Several callers share a bitfield, and a call is one step: it sets or clears a bit and answers
whether the bit was the other way before.  `Interleaved` says in which orders the calls of the
callers can happen, and `performAll` performs calls and keeps a log of the answers.

A call that is not answered with `true` changes nothing, so the others, the `transitions` of the
log, already lead from the pieces that are owned at first to those that are owned at last, and
each of them changes something (`Leads.performAll`, from one call to a run).  What follows is about
such a chain of changes:

* `Leads.isChain_filter`: those of one piece are a `set` and an `unset` in turn;
* `Leads.card`: there are as many pieces more as there are changes of the one sort more than of
  the other.
-/
import Mathlib.Data.List.Chain
import Swarm.Proofs.Pieces.Ownership

namespace Swarm.Bitfield

/-! ## 1. Calls and callers -/

/-- A call that marks a piece as owned or as not owned. -/
inductive Call
  | set (index : UInt32)
  | unset (index : UInt32)
  deriving DecidableEq

namespace Call

/-- The piece that is meant. -/
def index : Call → UInt32
  | set index => index
  | unset index => index

/-- Whether the piece is to be owned. -/
def owns : Call → Bool
  | set _ => true
  | unset _ => false

end Call

/-- **An order in which the calls of several callers can happen.**  It is made up of what the
callers have still to do: the first call of one of them comes next. -/
inductive Interleaved : List (List Call) → List Call → Prop
  | done {callers : List (List Call)} (h : ∀ script ∈ callers, script = []) : Interleaved callers []
  | next {before after : List (List Call)} {call : Call} {script calls : List Call}
      (h : Interleaved (before ++ script :: after) calls) :
      Interleaved (before ++ (call :: script) :: after) (call :: calls)

/-- No call is lost, and none is made twice. -/
theorem Interleaved.perm {callers : List (List Call)} {calls : List Call}
    (h : Interleaved callers calls) : calls.Perm callers.flatten := by
  induction h with
  | done h => rw [List.flatten_eq_nil_iff.mpr h]
  | @next before after call script calls h ih =>
    rw [List.flatten_append, List.flatten_cons] at ih ⊢
    rw [List.cons_append]
    exact (ih.cons call).trans List.perm_middle.symm

theorem Interleaved.mem_iff {callers : List (List Call)} {calls : List Call} {call : Call}
    (h : Interleaved callers calls) : call ∈ calls ↔ ∃ script ∈ callers, call ∈ script :=
  h.perm.mem_iff.trans List.mem_flatten

/-- One call: its answer, and the bitfield from then on.  A call that fails changes nothing. -/
def perform (f : Bitfield) : Call → Except Error Bool × Bitfield
  | .set index => Keeper.keep f (f.set index)
  | .unset index => Keeper.keep f (f.unset index)

/-- One call after another, each with its answer, and the bitfield after the last one. -/
def performAll : Bitfield → List Call → List (Call × Except Error Bool) × Bitfield
  | f, [] => ([], f)
  | f, call :: calls =>
    let (answer, next) := f.perform call
    let (log, last) := next.performAll calls
    ((call, answer) :: log, last)

/-- The calls that report a transition. -/
def transitions (log : List (Call × Except Error Bool)) : List Call :=
  (log.filter fun entry => entry.2 = .ok true).map Prod.fst

theorem transitions_cons (call : Call) (answer : Except Error Bool)
    (log : List (Call × Except Error Bool)) :
    transitions ((call, answer) :: log) =
      (if answer = .ok true then [call] else []) ++ transitions log := by
  by_cases h : answer = .ok true <;> simp [transitions, h]

/-! ## 2. Changes of a set of pieces -/

/-- The set of pieces after the call. -/
def Call.after (s : Finset Nat) : Call → Finset Nat
  | set index => insert index.toNat s
  | unset index => s.erase index.toNat

theorem Call.mem_after {s : Finset Nat} {call : Call} {i : Nat} :
    i ∈ call.after s ↔ if i = call.index.toNat then call.owns = true else i ∈ s := by
  cases call with
  | set index => by_cases h : i = index.toNat <;> simp [after, Call.index, owns, h]
  | unset index => by_cases h : i = index.toNat <;> simp [after, Call.index, owns, h]

/-- What is so already is not changed. -/
theorem Call.after_eq_self {s : Finset Nat} {call : Call}
    (h : ¬ (call.owns = true ↔ call.index.toNat ∉ s)) : call.after s = s := by
  ext i
  rw [mem_after]
  split
  · rename_i hi
    rw [hi]
    tauto
  · rfl

/-- The calls lead from one set of pieces to another, and each of them changes something: the piece
is added and was missing, or it is removed and was there. -/
inductive Leads (amount : Nat) : Finset Nat → List Call → Finset Nat → Prop
  | nil (s : Finset Nat) : Leads amount s [] s
  | cons {s t : Finset Nat} {call : Call} {calls : List Call} (hlt : call.index.toNat < amount)
      (h : call.owns = true ↔ call.index.toNat ∉ s) (rest : Leads amount (call.after s) calls t) :
      Leads amount s (call :: calls) t

namespace Leads

variable {amount : Nat} {s t u : Finset Nat} {xs ys : List Call}

theorem append (h : Leads amount s xs t) (h' : Leads amount t ys u) :
    Leads amount s (xs ++ ys) u := by
  induction h with
  | nil s => exact h'
  | cons hlt h rest ih => exact .cons hlt h (ih h')

theorem index_lt (h : Leads amount s xs t) : ∀ call ∈ xs, call.index.toNat < amount := by
  induction h with
  | nil s => simp
  | cons hlt h rest ih => exact List.forall_mem_cons.mpr ⟨hlt, ih⟩

/-- **Every change counts once.** -/
theorem card (h : Leads amount s xs t) :
    (t.card : Int) = s.card + xs.countP (·.owns) - xs.countP (!·.owns) := by
  induction h with
  | nil s => simp
  | @cons s t call calls hlt h rest ih =>
    cases call with
    | set index =>
      have hnew : index.toNat ∉ s := h.mp rfl
      have hcard := Finset.card_insert_of_notMem hnew
      rw [ih, Call.after, List.countP_cons_of_pos rfl, List.countP_cons_of_neg Bool.noConfusion]
      omega
    | unset index =>
      have hold : index.toNat ∈ s := not_not.mp (mt h.mpr Bool.noConfusion)
      have hcard := Finset.card_erase_add_one hold
      rw [ih, Call.after, List.countP_cons_of_neg Bool.noConfusion, List.countP_cons_of_pos rfl]
      omega

/-- Pieces stay if none is removed. -/
theorem subset (h : Leads amount s xs t) (hset : ∀ call ∈ xs, call.owns = true) : s ⊆ t := by
  induction h with
  | nil s => exact Finset.Subset.refl s
  | cons hlt h rest ih =>
    obtain ⟨hcall, hcalls⟩ := List.forall_mem_cons.mp hset
    refine Finset.Subset.trans (fun i hi => Call.mem_after.mpr ?_) (ih hcalls)
    split
    · exact hcall
    · exact hi

/-- **The changes of one piece go back and forth**, and the first one tells whether the piece was
there. -/
theorem isChain_filter (h : Leads amount s xs t) (index : UInt32) :
    (xs.filter (·.index = index)).IsChain (·.owns ≠ ·.owns) ∧
      ∀ first ∈ (xs.filter (·.index = index)).head?,
        (first.owns = true ↔ index.toNat ∉ s) := by
  induction h with
  | nil s => exact ⟨List.IsChain.nil, by simp⟩
  | @cons s t call calls hlt h rest ih =>
    obtain ⟨hchain, hnext⟩ := ih
    have hafter := @Call.mem_after s call index.toNat
    by_cases hindex : call.index = index
    · subst hindex
      rw [if_pos rfl] at hafter
      rw [List.filter_cons_of_pos (by simp), List.isChain_cons]
      refine ⟨⟨fun second hsecond hsame => ?_, hchain⟩, ?_⟩
      · -- the next change of the piece finds it as this one leaves it
        have hback := hnext second hsecond
        rw [hafter, ← hsame] at hback
        exact not_iff_self hback.symm
      · intro first hfirst
        obtain rfl : call = first := Option.some.inj hfirst
        exact h
    · have hne : index.toNat ≠ call.index.toNat := fun heq => hindex (UInt32.toNat_inj.mp heq.symm)
      rw [if_neg hne] at hafter
      rw [List.filter_cons_of_neg (by simpa using hindex)]
      exact ⟨hchain, fun first hfirst => (hnext first hfirst).trans (not_congr hafter)⟩

end Leads

/-! ## 3. Calls as changes -/

theorem perform_of_lt {f : Bitfield} {call : Call} (h : call.index.toNat < f.amount.toNat) :
    (f.perform call).1 = .ok (decide (call.owns = true ↔ call.index.toNat ∉ f.owned)) ∧
      (f.perform call).2.amount = f.amount ∧ (f.perform call).2.owned = call.after f.owned := by
  cases call with
  | set index =>
    replace h : index.toNat < f.amount.toNat := h
    have hanswer : decide (true = true ↔ index.toNat ∉ f.owned) = !f.bits[index.toNat] := by
      rw [getElem_bits h]
      simp
    rw [perform, set, withPiece_of_lt h]
    exact ⟨congrArg Except.ok hanswer.symm, rfl, owned_set_true f ⟨index.toNat, h⟩⟩
  | unset index =>
    replace h : index.toNat < f.amount.toNat := h
    have hanswer : decide (false = true ↔ index.toNat ∉ f.owned) = f.bits[index.toNat] := by
      rw [getElem_bits h]
      simp
    rw [perform, unset, withPiece_of_lt h]
    exact ⟨congrArg Except.ok hanswer.symm, rfl, owned_set_false f ⟨index.toNat, h⟩⟩

theorem perform_of_not_lt {f : Bitfield} {call : Call} (h : ¬ call.index.toNat < f.amount.toNat) :
    f.perform call = (.error (.indexOutOfRange call.index.toNat f.amount.toNat), f) := by
  cases call with
  | set index => exact congrArg (Keeper.keep f) (withPiece_of_not_lt h _)
  | unset index => exact congrArg (Keeper.keep f) (withPiece_of_not_lt h _)

theorem amount_perform (f : Bitfield) (call : Call) : (f.perform call).2.amount = f.amount := by
  by_cases h : call.index.toNat < f.amount.toNat
  · exact (perform_of_lt h).2.1
  · rw [perform_of_not_lt h]

/-- **A call that reports a transition is a change, and any other call is none.** -/
theorem Leads.perform (f : Bitfield) (call : Call) :
    Leads f.amount.toNat f.owned (if (f.perform call).1 = .ok true then [call] else [])
      (f.perform call).2.owned := by
  by_cases h : call.index.toNat < f.amount.toNat
  · obtain ⟨hanswer, -, howned⟩ := perform_of_lt h
    rw [hanswer, howned]
    by_cases hnew : call.owns = true ↔ call.index.toNat ∉ f.owned
    · rw [if_pos (by rw [decide_eq_true hnew])]
      exact .cons h hnew (.nil _)
    · rw [if_neg (by rw [decide_eq_false hnew]; nofun), Call.after_eq_self hnew]
      exact .nil _
  · rw [perform_of_not_lt h, if_neg nofun]
    exact .nil _

/-- **The transitions of a run lead from its beginning to its end.** -/
theorem Leads.performAll (calls : List Call) : ∀ f : Bitfield,
    Leads f.amount.toNat f.owned (transitions (f.performAll calls).1)
      (f.performAll calls).2.owned := by
  induction calls with
  | nil =>
    intro f
    exact .nil _
  | cons call calls ih =>
    intro f
    have hnext := ih (f.perform call).2
    rw [amount_perform] at hnext
    rw [Bitfield.performAll, transitions_cons]
    exact (Leads.perform f call).append hnext

theorem amount_performAll (calls : List Call) : ∀ f : Bitfield,
    (f.performAll calls).2.amount = f.amount := by
  induction calls with
  | nil =>
    intro f
    rfl
  | cons call calls ih =>
    intro f
    exact (ih (f.perform call).2).trans (amount_perform f call)

theorem map_fst_performAll (calls : List Call) : ∀ f : Bitfield,
    (f.performAll calls).1.map Prod.fst = calls := by
  induction calls with
  | nil =>
    intro f
    rfl
  | cons call calls ih =>
    intro f
    exact congrArg (call :: ·) (ih (f.perform call).2)

theorem mem_of_mem_transitions {f : Bitfield} {call : Call} {calls : List Call}
    (h : call ∈ transitions (f.performAll calls).1) : call ∈ calls := by
  obtain ⟨entry, hentry, rfl⟩ := List.mem_map.mp h
  rw [← map_fst_performAll calls f]
  exact List.mem_map_of_mem (List.mem_of_mem_filter hentry)

/-- A piece that is set is owned at the end, if nothing is cleared. -/
theorem mem_owned_performAll {call : Call} {calls : List Call} (hcall : call ∈ calls)
    (hset : ∀ call ∈ calls, call.owns = true) : ∀ f : Bitfield, call.index.toNat < f.amount.toNat →
    call.index.toNat ∈ (f.performAll calls).2.owned := by
  induction calls with
  | nil => exact absurd hcall List.not_mem_nil
  | cons other calls ih =>
    intro f h
    obtain ⟨hother, hlater⟩ := List.forall_mem_cons.mp hset
    rcases List.mem_cons.mp hcall with rfl | hcall
    · refine (Leads.performAll calls (f.perform call).2).subset
        (fun later hmem => hlater later (mem_of_mem_transitions hmem)) ?_
      rw [(perform_of_lt h).2.2, Call.mem_after, if_pos rfl]
      exact hother
    · rw [← amount_perform f other] at h
      exact ih hcall hlater (f.perform other).2 h

/-- **If calls only set, and there is one for every piece**, all pieces are owned at the end, and
each that was not owned before was reported once. -/
theorem performAll_of_sets (f : Bitfield) {calls : List Call}
    (hset : ∀ call ∈ calls, call.owns = true)
    (hall : ∀ i < f.amount.toNat, ∃ call ∈ calls, call.index.toNat = i) :
    (transitions (f.performAll calls).1).length + f.count = f.amount.toNat ∧
      (f.performAll calls).2.isComplete = true := by
  have hamount := amount_performAll calls f
  have howned : (f.performAll calls).2.owned = Finset.range f.amount.toNat := by
    ext i
    rw [Finset.mem_range]
    constructor
    · intro hi
      rw [← hamount]
      exact lt_of_mem_owned hi
    · intro hi
      obtain ⟨call, hcall, rfl⟩ := hall i hi
      exact mem_owned_performAll hcall hset f hi
  have hreported : ∀ call ∈ transitions (f.performAll calls).1, call.owns = true :=
    fun call hcall => hset call (mem_of_mem_transitions hcall)
  have hsets := List.countP_eq_length.mpr hreported
  have hunsets : (transitions (f.performAll calls).1).countP (!·.owns) = 0 :=
    List.countP_eq_zero.mpr fun call hcall => by simp [hreported call hcall]
  have hcard := (Leads.performAll calls f).card
  rw [howned, Finset.card_range, ← count_eq_card, hsets, hunsets] at hcard
  refine ⟨by omega, isComplete_iff.mpr ?_⟩
  rw [howned, Finset.card_range, hamount]

/-! ## 4. Several callers -/

/-- **Every transition is reported once.**  However the calls of any number of callers follow one
another, each is answered.  Only calls for pieces that there are report a transition.  Those for
one piece are a `set` and an `unset` in turn, beginning with a `set` exactly if the piece was not
owned, and the pieces that are owned at the end are those at the beginning, more by each `set` and
less by each `unset` that reports one.  If the callers only set, and every piece is set by one of
them, then as many calls report a transition as pieces were not owned, and all are in the end. -/
theorem transitions_reported_once (f : Bitfield) {callers : List (List Call)} {calls : List Call}
    (h : Interleaved callers calls) :
    let run := f.performAll calls
    let reported := transitions run.1
    run.1.map Prod.fst = calls ∧
      (∀ call ∈ reported, call.index.toNat < f.amount.toNat) ∧
      (∀ index, (reported.filter (·.index = index)).IsChain (·.owns ≠ ·.owns) ∧
        ∀ first ∈ (reported.filter (·.index = index)).head?,
          (first.owns = true ↔ f.isSet index = .ok false)) ∧
      (run.2.count : Int) = f.count + reported.countP (·.owns) - reported.countP (!·.owns) ∧
      ((∀ script ∈ callers, ∀ call ∈ script, call.owns = true) →
        (∀ i < f.amount.toNat, ∃ script ∈ callers, ∃ call ∈ script, call.index.toNat = i) →
        reported.length + f.count = f.amount.toNat ∧ run.2.isComplete = true) := by
  intro run reported
  have hleads : Leads f.amount.toNat f.owned reported run.2.owned := Leads.performAll calls f
  have hcount : (run.2.count : Int) =
      f.count + reported.countP (·.owns) - reported.countP (!·.owns) := by
    rw [count_eq_card, count_eq_card]
    exact hleads.card
  refine ⟨map_fst_performAll calls f, hleads.index_lt, fun index => ?_, hcount, fun hset hall => ?_⟩
  · obtain ⟨hchain, hfirst⟩ := hleads.isChain_filter index
    refine ⟨hchain, fun first hmem => (hfirst first hmem).trans ?_⟩
    have hlt : index.toNat < f.amount.toNat := by
      have hin := List.mem_filter.mp (List.mem_of_mem_head? hmem)
      rw [← of_decide_eq_true hin.2]
      exact hleads.index_lt first hin.1
    rw [isSet_of_lt hlt, Except.ok.injEq, decide_eq_false_iff_not]
  · have hcalls : ∀ call ∈ calls, call.owns = true := by
      intro call hcall
      obtain ⟨script, hscript, hcall⟩ := h.mem_iff.mp hcall
      exact hset script hscript call hcall
    refine performAll_of_sets f hcalls fun i hi => ?_
    obtain ⟨script, hscript, call, hcall, hindex⟩ := hall i hi
    exact ⟨call, h.mem_iff.mpr ⟨script, hscript, hcall⟩, hindex⟩

/-- Two callers that both set two pieces, in different orders; one of them tries a piece that there
is not. -/
def rivals : List (List Call) := [[.set 0, .set 1], [.set 1, .set 0, .set 7]]

/-- An order in which their calls can happen. -/
def rivalCalls : List Call := [.set 1, .set 0, .set 0, .set 1, .set 7]

theorem interleaved_rivals : Interleaved rivals rivalCalls :=
  @Interleaved.next [[.set 0, .set 1]] [] _ _ _ <|
    @Interleaved.next [] [[.set 0, .set 7]] _ _ _ <|
      @Interleaved.next [[.set 1]] [] _ _ _ <|
        @Interleaved.next [] [[.set 7]] _ _ _ <|
          @Interleaved.next [[]] [] _ _ _ <| .done (by simp)

/-- Of four calls for pieces that there are, one of which is owned at first, one call reports a
transition. -/
theorem transitions_reported_once_rivals :
    Interleaved rivals rivalCalls ∧
      (transitions ((ofBytes [0x80] 2).performAll rivalCalls).1).length + 1 = 2 ∧
      ((ofBytes [0x80] 2).performAll rivalCalls).2.isComplete = true := by
  obtain ⟨-, -, -, -, hall⟩ := transitions_reported_once (ofBytes [0x80] 2) interleaved_rivals
  have hcount : (ofBytes [0x80] 2).count = 1 := by decide
  obtain ⟨hlength, hcomplete⟩ := hall (by decide) (by decide)
  rw [hcount] at hlength
  exact ⟨interleaved_rivals, hlength, hcomplete⟩

/-- A failed call and one that changes nothing are no transitions. -/
example :
    transitions ((new 2).performAll [.set 1, .set 5, .unset 0, .set 1, .unset 1]).1 =
      [.set 1, .unset 1] := by
  decide

end Swarm.Bitfield
