/-
# How many containers may be nested in one another

The limit of the readers is on the depth of nodes: no value may lie more than `maxDepth` levels
deep.  Said of lists and dictionaries that are nested in one another, it is this:

* `Spelling.exists_nest`, `Spelling.Nest.length_le_height`: the deepest node lies as deep as there
  are containers around it, none of which is empty;
* `decode_iff_nests`: so a well formed text is decoded exactly if no more than `maxDepth`
  containers that are not empty are nested in one another in it.

An empty container has nothing in it that could lie too deep.  So a limit of `maxDepth` on all
containers, empty or not, is not the one that is kept: one more container is taken if the
innermost one is empty.  `decode_deepEmptyList` is the smallest such text.
-/
import Mathlib.Data.List.Chain
import Swarm.Proofs.Bencode.Canonical
import Swarm.Proofs.Bencode.Grammar

namespace Swarm.Bencode

namespace Spelling

/-! ## 1. Parts of containers -/

/-- The items of a list and the values of a dictionary. -/
def parts : Spelling → List Spelling
  | integer _ => []
  | byteString _ => []
  | list items => items
  | dictionary pairs => pairs.map Prod.snd

/-- It is a list or a dictionary. -/
def isContainer : Spelling → Bool
  | integer _ => false
  | byteString _ => false
  | list _ => true
  | dictionary _ => true

theorem isContainer_of_parts {x : Spelling} (h : x.parts ≠ []) : x.isContainer = true := by
  cases x with
  | integer n => exact absurd rfl h
  | byteString s => exact absurd rfl h
  | list items => rfl
  | dictionary pairs => rfl

/-- Induction in which the hypothesis holds of every part. -/
theorem induct_parts {P : Spelling → Prop} (h : ∀ x, (∀ y ∈ x.parts, P y) → P x) (x : Spelling) :
    P x := by
  induction x with
  | integer n => exact h _ nofun
  | byteString s => exact h _ nofun
  | list items ih => exact h _ ih
  | dictionary pairs ih =>
    refine h _ fun y hy => ?_
    obtain ⟨p, hp, rfl⟩ := List.mem_map.mp hy
    exact ih p hp

theorem height_le_iff {x : Spelling} {n : Nat} : x.height ≤ n ↔ ∀ y ∈ x.parts, y.height < n := by
  cases x with
  | integer i => exact ⟨fun _ => nofun, fun _ => Nat.zero_le n⟩
  | byteString s => exact ⟨fun _ => nofun, fun _ => Nat.zero_le n⟩
  | list items => exact heightItems_le_iff items
  | dictionary pairs =>
    rw [height, heightPairs_le_iff, parts, List.forall_mem_map]

theorem height_lt_of_mem_parts {x y : Spelling} (h : y ∈ x.parts) : y.height < x.height :=
  height_le_iff.mp (Nat.le_refl _) y h

/-- What has parts is one higher than one of them. -/
theorem exists_mem_parts_height {x : Spelling} (h : x.parts ≠ []) :
    ∃ y ∈ x.parts, x.height = y.height + 1 := by
  obtain ⟨z, hz⟩ := List.exists_mem_of_ne_nil _ h
  have hpositive := Nat.zero_lt_of_lt (height_lt_of_mem_parts hz)
  have hhigh : ¬ x.height ≤ x.height - 1 := by omega
  simp only [height_le_iff, not_forall, Nat.not_lt] at hhigh
  obtain ⟨y, hy, hle⟩ := hhigh
  have hlt := height_lt_of_mem_parts hy
  exact ⟨y, hy, by omega⟩

theorem contains_of_mem_parts {x y z : Spelling} (hy : y ∈ x.parts) (h : y.Contains z) :
    x.Contains z := by
  cases x with
  | integer n => exact absurd hy nofun
  | byteString s => exact absurd hy nofun
  | list items => exact .item hy h
  | dictionary pairs =>
    obtain ⟨p, hp, rfl⟩ := List.mem_map.mp hy
    exact .entry hp h

theorem Contains.height_le {x y : Spelling} (h : x.Contains y) : y.height ≤ x.height := by
  induction h with
  | self x => exact Nat.le_refl _
  | @item items x y hx h ih =>
    exact Nat.le_trans ih (Nat.le_of_lt (height_lt_of_mem_parts (x := list items) hx))
  | @entry pairs p y hp h ih =>
    have hmem : p.2 ∈ (dictionary pairs).parts := List.mem_map_of_mem hp
    exact Nat.le_trans ih (Nat.le_of_lt (height_lt_of_mem_parts hmem))

/-! ## 2. Containers nested in one another -/

/-- **Lists and dictionaries nested in one another** that occur in the spelling, the outermost one
first: each is a part of the one in front of it. -/
structure Nest (x : Spelling) (cs : List Spelling) : Prop where
  occur : ∀ c ∈ cs, x.Contains c
  containers : ∀ c ∈ cs, c.isContainer = true
  nested : cs.IsChain fun outer inner => inner ∈ outer.parts

theorem Nest.nil (x : Spelling) : Nest x [] := ⟨nofun, nofun, .nil⟩

/-- A container around a nest that begins at one of its parts. -/
theorem Nest.cons {x y : Spelling} {cs : List Spelling} (hy : y ∈ x.parts) (h : Nest y cs)
    (hhead : ∀ c ∈ cs.head?, c = y) : Nest x (x :: cs) where
  occur := List.forall_mem_cons.mpr ⟨.self x, fun c hc => contains_of_mem_parts hy (h.occur c hc)⟩
  containers :=
    List.forall_mem_cons.mpr ⟨isContainer_of_parts (List.ne_nil_of_mem hy), h.containers⟩
  nested := h.nested.cons fun c hc => by
    rw [hhead c hc]
    exact hy

/-- In a run of parts of parts each one is lower than the one in front of it. -/
theorem length_add_height_le : ∀ {c : Spelling} {cs : List Spelling} {last : Spelling},
    (c :: cs).IsChain (fun outer inner => inner ∈ outer.parts) → last ∈ (c :: cs).getLast? →
    cs.length + last.height ≤ c.height
  | c, [], last, _, hlast => by
    obtain rfl : c = last := by simpa using hlast
    simp
  | c, d :: cs, last, h, hlast => by
    obtain ⟨hd, hcs⟩ := List.isChain_cons_cons.mp h
    rw [List.getLast?_cons_cons] at hlast
    have ih := length_add_height_le hcs hlast
    have hlt := height_lt_of_mem_parts hd
    rw [List.length_cons]
    omega

theorem Nest.length_add_height_le {x last : Spelling} {cs : List Spelling} (h : Nest x cs)
    (hlast : last ∈ cs.getLast?) : cs.length + last.height ≤ x.height + 1 := by
  cases cs with
  | nil => exact absurd hlast nofun
  | cons c cs =>
    have hchain := Spelling.length_add_height_le h.nested hlast
    have hle := (h.occur c List.mem_cons_self).height_le
    rw [List.length_cons]
    omega

/-- There are at most one more of them than the spelling is high, -/
theorem Nest.length_le {x : Spelling} {cs : List Spelling} (h : Nest x cs) :
    cs.length ≤ x.height + 1 := by
  cases hlast : cs.getLast? with
  | none => simp [List.getLast?_eq_none_iff.mp hlast]
  | some last =>
    have := h.length_add_height_le hlast
    omega

/-- and at most as many if none of them is empty. -/
theorem Nest.length_le_height {x : Spelling} {cs : List Spelling} (h : Nest x cs)
    (hcs : ∀ c ∈ cs, c.parts ≠ []) : cs.length ≤ x.height := by
  cases hlast : cs.getLast? with
  | none => simp [List.getLast?_eq_none_iff.mp hlast]
  | some last =>
    have hle := h.length_add_height_le hlast
    obtain ⟨y, hy⟩ := List.exists_mem_of_ne_nil _ (hcs last (List.mem_of_getLast? hlast))
    have := height_lt_of_mem_parts hy
    omega

/-- **The deepest node lies inside as many containers as the spelling is high.** -/
theorem exists_nest (x : Spelling) : ∃ cs, (Nest x cs ∧ ∀ c ∈ cs.head?, c = x) ∧
    (∀ c ∈ cs, c.parts ≠ []) ∧ cs.length = x.height := by
  induction x using induct_parts with
  | h x ih =>
    by_cases hparts : x.parts = []
    · refine ⟨[], ⟨.nil x, nofun⟩, nofun, ?_⟩
      have hlow : x.height ≤ 0 := height_le_iff.mpr (by simp [hparts])
      exact (Nat.eq_zero_of_le_zero hlow).symm
    · obtain ⟨y, hy, hheight⟩ := exists_mem_parts_height hparts
      obtain ⟨cs, ⟨hnest, hhead⟩, hcs, hlength⟩ := ih y hy
      refine ⟨x :: cs, ⟨hnest.cons hy hhead, by simp⟩, List.forall_mem_cons.mpr ⟨hparts, hcs⟩, ?_⟩
      rw [List.length_cons, hlength, hheight]

end Spelling

/-! ## 3. Texts -/

/-- The text follows the rules of the grammar, with no regard to depth. -/
def Grammar.WellFormed (b : Bytes) : Prop := ∃ limit v, Derives limit 0 b v

/-- The containers are nested in one another in the text. -/
def NestIn (b : Bytes) (cs : List Spelling) : Prop := ∃ x : Spelling, x.text = b ∧ x.Nest cs

theorem Grammar.wellFormed_iff {b : Bytes} :
    WellFormed b ↔ ∃ x : Spelling, x.Fits ∧ x.text = b := by
  constructor
  · rintro ⟨limit, v, h⟩
    obtain ⟨x, ⟨hfits, -⟩, htext, -⟩ := derives_iff_exists_spelling.mp h
    exact ⟨x, hfits, htext⟩
  · rintro ⟨x, hfits, htext⟩
    exact ⟨x.height, x.value, derives_iff_exists_spelling.mpr
      ⟨x, ⟨hfits, Nat.le_refl _⟩, htext, rfl⟩⟩

theorem nestIn_text_iff {x : Spelling} {cs : List Spelling} : NestIn x.text cs ↔ x.Nest cs := by
  constructor
  · rintro ⟨y, hy, h⟩
    exact Spelling.text_injective hy ▸ h
  · exact fun h => ⟨x, rfl, h⟩

/-- A spelling is decoded exactly if no node of it lies too deep, -/
theorem exists_decode_text_iff {x : Spelling} (hx : x.Fits) :
    (∃ v, decode x.text = .ok v) ↔ x.height ≤ maxDepth := by
  constructor
  · rintro ⟨v, h⟩
    obtain ⟨y, ⟨-, hlow⟩, hy, -⟩ := decode_eq_ok_iff.mp h
    exact Spelling.text_injective hy ▸ hlow
  · intro hlow
    exact ⟨x.value, decode_eq_ok_iff.mpr ⟨x, ⟨hx, hlow⟩, rfl, rfl⟩⟩

/-- and refused for its depth otherwise. -/
theorem decode_text_of_deep {x : Spelling} (hx : x.Fits) (hdeep : maxDepth < x.height) :
    ∃ position, decode x.text = .error (.malformed position .nestingTooDeep) := by
  obtain ⟨position, h⟩ := decodeAt_text_of_deep [] hx hdeep []
  rw [List.nil_append, List.append_nil, List.length_nil] at h
  exact ⟨position, by rw [decode, h]⟩

/-- No node lies too deep exactly if not too many containers that are not empty are nested in one
another. -/
theorem height_le_iff_nests {x : Spelling} {n : Nat} :
    x.height ≤ n ↔ ∀ cs, x.Nest cs → (∀ c ∈ cs, c.parts ≠ []) → cs.length ≤ n := by
  constructor
  · intro hlow cs h hcs
    exact Nat.le_trans (h.length_le_height hcs) hlow
  · intro h
    obtain ⟨cs, ⟨hnest, -⟩, hcs, hlength⟩ := x.exists_nest
    exact hlength ▸ h cs hnest hcs

/-! ## 4. The limit -/

/-- **Which well formed texts are decoded**: those in which no more than `maxDepth` containers
that are not empty are nested in one another; the others are refused for their depth.  The same
limit on all containers, empty or not, tells the texts that are decoded from the others exactly
unless one more container is nested in the text, and only so with an empty one among them. -/
theorem decode_iff_nests {b : Bytes} (hb : Grammar.WellFormed b) :
    ((∃ v, decode b = .ok v) ↔
        ∀ cs, NestIn b cs → (∀ c ∈ cs, c.parts ≠ []) → cs.length ≤ maxDepth) ∧
      ((∃ v, decode b = .ok v) ∨
        ∃ position, decode b = .error (.malformed position .nestingTooDeep)) ∧
      (((∃ v, decode b = .ok v) ↔ ∀ cs, NestIn b cs → cs.length ≤ maxDepth) ↔
        ¬ ((∃ cs, NestIn b cs ∧ cs.length = maxDepth + 1) ∧
          ∀ cs, NestIn b cs → maxDepth < cs.length → ∃ c ∈ cs, c.parts = [])) := by
  obtain ⟨x, hx, rfl⟩ := Grammar.wellFormed_iff.mp hb
  simp only [exists_decode_text_iff hx, nestIn_text_iff]
  refine ⟨height_le_iff_nests, ?_, ?_⟩
  · rcases Nat.lt_or_ge maxDepth x.height with hdeep | hlow
    · exact .inr (decode_text_of_deep hx hdeep)
    · exact .inl hlow
  · constructor
    · rintro hsame ⟨⟨cs, hcs, hlength⟩, hempty⟩
      have hlow : x.height ≤ maxDepth := by
        refine height_le_iff_nests.mpr fun ds hds hparts => Nat.le_of_not_lt fun hlong => ?_
        obtain ⟨c, hc, hnone⟩ := hempty ds hds hlong
        exact hparts c hc hnone
      have := hsame.mp hlow cs hcs
      omega
    · intro hother
      constructor
      · intro hlow cs hcs
        by_contra hlong
        have hlength := hcs.length_le
        refine hother ⟨⟨cs, hcs, by omega⟩, fun ds hds hmany => ?_⟩
        by_contra hparts
        have := hds.length_le_height fun c hc hnone => hparts ⟨c, hc, hnone⟩
        omega
      · intro hshort
        exact height_le_iff_nests.mpr fun cs hcs _ => hshort cs hcs

/-! ## 5. Lists inside lists -/

namespace Spelling

/-- A spelling inside so many lists. -/
def inLists : Nat → Spelling → Spelling
  | 0, x => x
  | n + 1, x => list [inLists n x]

theorem text_inLists (x : Spelling) : ∀ n : Nat, (inLists n x).text
    = List.replicate n Mark.list ++ x.text ++ List.replicate n Mark.close
  | 0 => by simp [inLists]
  | n + 1 => by
    rw [inLists, text, textItems, textItems, text_inLists x n, List.replicate_succ,
      List.replicate_succ']
    simp

theorem height_inLists (x : Spelling) : ∀ n : Nat, (inLists n x).height = x.height + n
  | 0 => rfl
  | n + 1 => by
    rw [inLists, height, heightItems, heightItems, height_inLists x n]
    omega

theorem fits_inLists {x : Spelling} (hx : x.Fits) : ∀ n : Nat, (inLists n x).Fits
  | 0 => hx
  | n + 1 => .list (List.forall_mem_singleton.mpr (fits_inLists hx n))

/-- The lists are nested in one another around what is nested in the spelling. -/
theorem exists_nest_inLists {x : Spelling} {cs : List Spelling} (h : Nest x cs)
    (hhead : ∀ c ∈ cs.head?, c = x) : ∀ n : Nat, ∃ ds, (Nest (inLists n x) ds ∧
      ∀ d ∈ ds.head?, d = inLists n x) ∧ ds.length = cs.length + n
  | 0 => ⟨cs, ⟨h, hhead⟩, rfl⟩
  | n + 1 => by
    obtain ⟨ds, ⟨hnest, hfirst⟩, hlength⟩ := exists_nest_inLists h hhead n
    refine ⟨inLists (n + 1) x :: ds, ⟨hnest.cons List.mem_cons_self hfirst, by simp⟩, ?_⟩
    rw [List.length_cons, hlength]
    rfl

end Spelling

/-- A number inside 64 lists. -/
theorem decode_iff_nests_deepNumber :
    let b := List.replicate 64 Mark.list ++ Text.utf8 "i0e" ++ List.replicate 64 Mark.close
    Grammar.WellFormed b ∧ (∃ v, decode b = .ok v) ∧
      ∀ cs, NestIn b cs → (∀ c ∈ cs, c.parts ≠ []) → cs.length ≤ maxDepth := by
  intro b
  have hfits : (Spelling.inLists 64 (.integer 0)).Fits := Spelling.fits_inLists (.integer 0) 64
  have htext : (Spelling.inLists 64 (.integer 0)).text = b := Spelling.text_inLists (.integer 0) 64
  have hwell : Grammar.WellFormed b := Grammar.wellFormed_iff.mpr ⟨_, hfits, htext⟩
  have hread : ∃ v, decode b = .ok v := by
    rw [← htext, exists_decode_text_iff hfits, Spelling.height_inLists]
    decide
  exact ⟨hwell, hread, (decode_iff_nests hwell).1.mp hread⟩

/-- 65 lists nested in one another are decoded if the innermost one is empty, and refused if it
holds a number. -/
theorem decode_deepEmptyList :
    let b := List.replicate 65 Mark.list ++ List.replicate 65 Mark.close
    let b' := List.replicate 65 Mark.list ++ Text.utf8 "i0e" ++ List.replicate 65 Mark.close
    (Grammar.WellFormed b ∧ (∃ cs, NestIn b cs ∧ cs.length = 65) ∧ (∃ v, decode b = .ok v) ∧
      ¬ ((∃ v, decode b = .ok v) ↔ ∀ cs, NestIn b cs → cs.length ≤ maxDepth)) ∧
    Grammar.WellFormed b' ∧ (∃ cs, NestIn b' cs ∧ cs.length = 65) ∧
      ∃ position, decode b' = .error (.malformed position .nestingTooDeep) := by
  intro b b'
  have hfits : (Spelling.inLists 64 (.list [])).Fits :=
    Spelling.fits_inLists (.list (List.forall_mem_nil _)) 64
  have htext : (Spelling.inLists 64 (.list [])).text = b := Spelling.text_inLists (.list []) 64
  have hread : ∃ v, decode b = .ok v := by
    rw [← htext, exists_decode_text_iff hfits, Spelling.height_inLists]
    decide
  have hnest : ∃ cs, NestIn b cs ∧ cs.length = 65 := by
    have hempty : Spelling.Nest (.list []) [.list []] :=
      ⟨by simp [Spelling.Contains.self], by simp [Spelling.isContainer], .singleton _⟩
    obtain ⟨cs, ⟨hcs, -⟩, hlength⟩ := Spelling.exists_nest_inLists hempty (by simp) 64
    exact ⟨cs, ⟨_, htext, hcs⟩, hlength⟩
  have hfits' : (Spelling.inLists 65 (.integer 0)).Fits := Spelling.fits_inLists (.integer 0) 65
  have htext' : (Spelling.inLists 65 (.integer 0)).text = b' :=
    Spelling.text_inLists (.integer 0) 65
  refine ⟨⟨Grammar.wellFormed_iff.mpr ⟨_, hfits, htext⟩, hnest, hread, ?_⟩,
    Grammar.wellFormed_iff.mpr ⟨_, hfits', htext'⟩, ?_, ?_⟩
  · intro hsame
    obtain ⟨cs, hcs, hlength⟩ := hnest
    have hshort := hsame.mp hread cs hcs
    rw [hlength] at hshort
    exact absurd hshort (by decide)
  · obtain ⟨cs, ⟨hcs, -⟩, hlength⟩ :=
      Spelling.exists_nest_inLists (Spelling.Nest.nil (.integer 0)) (by simp) 65
    exact ⟨cs, ⟨_, htext', hcs⟩, hlength⟩
  · rw [← htext']
    refine decode_text_of_deep hfits' ?_
    rw [Spelling.height_inLists]
    decide

end Swarm.Bencode
