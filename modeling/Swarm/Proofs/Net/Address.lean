/-
# Every address has one text

Addresses are known by their texts, so two addresses must never share one.  That is shown by
reading the texts back:

* `number?_toDigits`: numbers in any base up to sixteen are read back;
* `Ipv4.read?_chars`: the dotted text is, and it is no text of an IPv6 address;
* `Ipv6.read?_chars`: the shortened text is, since what was left out for `::` is exactly a run of
  zero groups (`eq_take_zeros_drop`), and `::` does not occur in it twice;
* `Address.read?_text`: so an address is read from its text, whichever version it has, and
  `Address.text_injective`: the text tells addresses apart.
-/
import Mathlib.Data.List.TakeWhile
import Mathlib.Data.Nat.Digits.Defs
import Swarm.Net.Address
import Swarm.Proofs.Text.Numeral

namespace Swarm.Net

/-! ## 1. Numbers in a base -/

theorem hexValue?_digitChar {d : Nat} (h : d < 16) : Text.hexValue? (Nat.digitChar d) = some d := by
  revert d
  decide

/-- The digits of a number are characters for numbers below the base. -/
theorem exists_digit_of_mem_toDigits {base : Nat} (hbase : 1 < base) {n : Nat} {c : Char}
    (h : c ∈ Nat.toDigits base n) : ∃ d, d < base ∧ c = Nat.digitChar d := by
  induction n using Nat.base_induction base hbase with
  | single d hd =>
    rw [Nat.toDigits_of_lt_base hd, List.mem_singleton] at h
    exact ⟨d, hd, h⟩
  | digit n d hd hn ih =>
    rw [← Nat.toDigits_append_toDigits hbase hn hd, Nat.toDigits_of_lt_base hd] at h
    rcases List.mem_append.mp h with h | h
    · exact ih h
    · exact ⟨d, hd, List.mem_singleton.mp h⟩

/-- No digit parts one number from the next. -/
theorem digitChar_ne {d : Nat} (h : d < 16) : Nat.digitChar d ≠ '.' ∧ Nat.digitChar d ≠ ':' := by
  revert d
  decide

theorem not_mem_toDigits {base n : Nat} (hbase : 1 < base) (hle : base ≤ 16) :
    '.' ∉ Nat.toDigits base n ∧ ':' ∉ Nat.toDigits base n := by
  constructor
  · intro h
    obtain ⟨d, hd, hc⟩ := exists_digit_of_mem_toDigits hbase h
    exact (digitChar_ne (Nat.lt_of_lt_of_le hd hle)).1 hc.symm
  · intro h
    obtain ⟨d, hd, hc⟩ := exists_digit_of_mem_toDigits hbase h
    exact (digitChar_ne (Nat.lt_of_lt_of_le hd hle)).2 hc.symm

/-- **A number is read back in its base.** -/
theorem number?_toDigits {base : Nat} (hbase : 1 < base) (hle : base ≤ 16) (n : Nat) :
    number? base (Nat.toDigits base n) = some n := by
  have hne : (Nat.toDigits base n).isEmpty = false := by simp
  rw [number?, hne, if_neg Bool.false_ne_true]
  clear hne
  induction n using Nat.base_induction base hbase with
  | single d hd =>
    rw [Nat.toDigits_of_lt_base hd]
    simp [hexValue?_digitChar (Nat.lt_of_lt_of_le hd hle), hd]
  | digit n d hd hn ih =>
    rw [← Nat.toDigits_append_toDigits hbase hn hd, Nat.toDigits_of_lt_base hd, List.foldl_append,
      ih]
    simp [hexValue?_digitChar (Nat.lt_of_lt_of_le hd hle), hd]

/-! ## 2. Dotted texts -/

/-- Only zero is written with a leading zero. -/
theorem head?_toDigits {n : Nat} (h : (Nat.toDigits 10 n).head? = some '0') : n = 0 := by
  refine Text.head?_decimal n ?_
  rw [Text.decimal, List.head?_map, h]
  rfl

theorem octet?_toDigits (b : UInt8) : octet? (Nat.toDigits 10 b.toNat) = some b := by
  have hlt : b.toNat < 256 := b.toNat_lt
  have hlength : (Nat.toDigits 10 b.toNat).length ≤ 3 :=
    (Nat.length_toDigits_le_iff (by decide) (by decide)).mpr (by omega)
  have hleading : ¬ (1 < (Nat.toDigits 10 b.toNat).length ∧
      (Nat.toDigits 10 b.toNat).head? = some '0') := by
    rintro ⟨hlong, hzero⟩
    rw [head?_toDigits hzero] at hlong
    exact absurd hlong (by decide)
  rw [octet?, if_pos, number?_toDigits (by decide) (by decide)]
  · simp [Nat.le_of_lt_succ hlt]
  · simpa using ⟨hlength, by simpa [imp_iff_not_or] using hleading⟩

/-- The four parts of a dotted text. -/
def Ipv4.parts (x : Ipv4) : List (List Char) :=
  [x.a, x.b, x.c, x.d].map fun b => Nat.toDigits 10 b.toNat

theorem Ipv4.not_mem_parts (x : Ipv4) : ∀ p ∈ x.parts, '.' ∉ p ∧ ':' ∉ p :=
  List.forall_mem_map.mpr fun _ _ => not_mem_toDigits (by decide) (by decide)

/-- **A dotted text is read back.** -/
theorem Ipv4.read?_chars (x : Ipv4) : Ipv4.read? x.chars = some x := by
  have hsplit : x.chars.splitOn '.' = x.parts :=
    List.splitOn_intercalate '.' (fun p hp => (x.not_mem_parts p hp).1) (by simp)
  rw [read?, hsplit]
  simp [parts, octet?_toDigits]

theorem not_mem_intercalate {c s : Char} (hs : c ≠ s) : ∀ {ps : List (List Char)},
    (∀ p ∈ ps, c ∉ p) → c ∉ List.intercalate [s] ps
  | [], _ => by simp
  | [p], h => by simpa using h
  | p :: q :: ps, h => by
    rw [List.forall_mem_cons] at h
    have hrest := not_mem_intercalate hs h.2
    simp [List.intercalate_cons_cons, h.1, hs, hrest]

theorem Ipv4.colon_not_mem_chars (x : Ipv4) : ':' ∉ x.chars :=
  not_mem_intercalate (by decide) fun p hp => (x.not_mem_parts p hp).2

theorem Ipv4.dot_mem_chars (x : Ipv4) : '.' ∈ x.chars := by
  simp [chars, List.intercalate_cons_cons]

/-! ## 3. Groups with colons between them -/

theorem not_mem_hex (g : UInt16) : '.' ∉ Text.hex g.toNat ∧ ':' ∉ Text.hex g.toNat :=
  not_mem_toDigits (by decide) (by decide)

theorem group?_hex (g : UInt16) : group? (Text.hex g.toNat) = some g := by
  have hlt : g.toNat < 65536 := g.toNat_lt
  have hlength : (Text.hex g.toNat).length ≤ 4 :=
    (Nat.length_toDigits_le_iff (by decide) (by decide)).mpr (by omega)
  rw [group?, if_pos hlength, Text.hex, number?_toDigits (by decide) (by decide)]
  simp

/-- Groups are read one by one; none of them is taken for a dotted text. -/
theorem groupsOf?_hex (dotted : Bool) : ∀ gs : List UInt16,
    groupsOf? dotted (gs.map fun g => Text.hex g.toNat) = some gs
  | [] => rfl
  | [g] => by
    have hdot : (Text.hex g.toNat).contains '.' = false := by simpa using (not_mem_hex g).1
    simp [groupsOf?, group?_hex, (not_mem_hex g).1]
  | g :: g' :: gs => by
    have hrest := groupsOf?_hex dotted (g' :: gs)
    rw [List.map_cons] at hrest
    simp [groupsOf?, group?_hex, hrest]

namespace Ipv6

theorem dot_not_mem_joinGroups (gs : List UInt16) : '.' ∉ joinGroups gs :=
  not_mem_intercalate (by decide) (List.forall_mem_map.mpr fun g _ => (not_mem_hex g).1)

theorem joinGroups_cons_cons (g g' : UInt16) (gs : List UInt16) :
    joinGroups (g :: g' :: gs) = Text.hex g.toNat ++ ':' :: joinGroups (g' :: gs) := by
  simp [joinGroups, List.intercalate_cons_cons]

/-- What is joined begins with a digit. -/
theorem exists_cons_joinGroups (g : UInt16) (gs : List UInt16) :
    ∃ c rest, joinGroups (g :: gs) = c :: rest ∧ c ≠ ':' := by
  obtain ⟨c, rest, hc⟩ := List.exists_cons_of_ne_nil (l := Text.hex g.toNat) (by simp [Text.hex])
  have hne : c ≠ ':' := fun h => (not_mem_hex g).2 (by rw [hc, ← h]; exact List.mem_cons_self)
  cases gs with
  | nil => exact ⟨c, rest, by simp [joinGroups, hc], hne⟩
  | cons g' gs => exact ⟨c, _, by rw [joinGroups_cons_cons, hc, List.cons_append], hne⟩

theorem side?_joinGroups (dotted : Bool) (gs : List UInt16) :
    side? dotted (joinGroups gs) = some gs := by
  cases gs with
  | nil => rfl
  | cons g gs =>
    obtain ⟨c, rest, hc, -⟩ := exists_cons_joinGroups g gs
    have hsplit : (joinGroups (g :: gs)).splitOn ':' = (g :: gs).map fun g => Text.hex g.toNat :=
      List.splitOn_intercalate ':' (List.forall_mem_map.mpr fun g _ => (not_mem_hex g).2) (by simp)
    rw [side?, hsplit, groupsOf?_hex, hc]
    rfl

end Ipv6

/-! ## 4. The place of the two colons -/

/-- Two colons are not found in front of the first colon. -/
theorem splitDouble?_append {w : List Char} (h : ':' ∉ w) (s : List Char) :
    splitDouble? (w ++ s) = (splitDouble? s).map fun (front, back) => (w ++ front, back) := by
  induction w with
  | nil => simp
  | cons c w ih =>
    obtain ⟨hc, hw⟩ : ':' ≠ c ∧ ':' ∉ w := by simpa using h
    rw [List.cons_append, splitDouble?, ih hw]
    · simp [Function.comp_def]
    · rintro rest rfl
      exact absurd rfl hc

/-- A colon is no part of two if no colon follows it. -/
theorem splitDouble?_colon {c : Char} (h : c ≠ ':') (s : List Char) :
    splitDouble? (':' :: c :: s) =
      (splitDouble? (c :: s)).map fun (front, back) => (':' :: front, back) := by
  rw [splitDouble?]
  intro rest _ htail
  exact h (List.cons.inj htail).1

theorem splitDouble?_joinGroups : ∀ gs : List UInt16, splitDouble? (Ipv6.joinGroups gs) = none
  | [] => rfl
  | [g] => by
    have hend := splitDouble?_append (not_mem_hex g).2 []
    rw [List.append_nil] at hend
    simpa [Ipv6.joinGroups, splitDouble?] using hend
  | g :: g' :: gs => by
    obtain ⟨c, rest, hc, hne⟩ := Ipv6.exists_cons_joinGroups g' gs
    have hrest := splitDouble?_joinGroups (g' :: gs)
    rw [hc] at hrest
    rw [Ipv6.joinGroups_cons_cons, splitDouble?_append (not_mem_hex g).2, hc,
      splitDouble?_colon hne, hrest]
    rfl

/-- **Two colons behind groups are found there.** -/
theorem splitDouble?_joinGroups_append (s : List Char) : ∀ gs : List UInt16,
    splitDouble? (Ipv6.joinGroups gs ++ ':' :: ':' :: s) = some (Ipv6.joinGroups gs, s)
  | [] => rfl
  | [g] => by
    rw [show Ipv6.joinGroups [g] = Text.hex g.toNat by simp [Ipv6.joinGroups],
      splitDouble?_append (not_mem_hex g).2]
    simp [splitDouble?]
  | g :: g' :: gs => by
    obtain ⟨c, rest, hc, hne⟩ := Ipv6.exists_cons_joinGroups g' gs
    have hrest := splitDouble?_joinGroups_append s (g' :: gs)
    rw [hc, List.cons_append] at hrest
    rw [Ipv6.joinGroups_cons_cons, List.append_assoc, splitDouble?_append (not_mem_hex g).2, hc,
      List.cons_append, List.cons_append, splitDouble?_colon hne, hrest]
    rfl

/-! ## 5. What two colons stand for -/

namespace Ipv6

/-- From the place that is chosen on there are as many zero groups as are left out. -/
theorem longestZeros_le (gs : List UInt16) :
    (longestZeros gs).2 ≤ zerosFrom gs (longestZeros gs).1 := by
  refine List.foldlRecOn (motive := fun best : Nat × Nat => best.2 ≤ zerosFrom gs best.1) _ _
    (Nat.zero_le _) ?_
  intro best hbest i _
  split
  · exact Nat.le_refl _
  · exact hbest

/-- **What is left out is a run of zero groups**, between what stands before and after it. -/
theorem eq_take_zeros_drop {gs : List UInt16} {start length : Nat}
    (h : length ≤ zerosFrom gs start) :
    gs = gs.take start ++ List.replicate length 0 ++ gs.drop (start + length) := by
  have hzeros : (gs.drop start).take length = List.replicate length 0 := by
    obtain ⟨rest, hrest⟩ := List.takeWhile_prefix (l := gs.drop start) (· == 0)
    rw [← hrest, List.take_append_of_le_length h, List.eq_replicate_iff]
    refine ⟨by rw [List.length_take]; exact Nat.min_eq_left h, fun g hg => ?_⟩
    simpa using List.mem_takeWhile_imp (List.mem_of_mem_take hg)
  rw [← hzeros, List.append_assoc, ← List.drop_drop, List.take_append_drop, List.take_append_drop]

theorem ofList?_toList (x : Ipv6) : ofList? x.groups.toList = some x := by
  obtain ⟨⟨groups, hgroups⟩⟩ := x
  simp [ofList?, hgroups]

theorem dot_not_mem_hexChars (x : Ipv6) : '.' ∉ x.hexChars := by
  simp only [hexChars]
  split
  · simp [dot_not_mem_joinGroups]
  · exact dot_not_mem_joinGroups _

/-- The text in groups only. -/
theorem read?_hexChars (x : Ipv6) : read? x.hexChars = some x := by
  obtain ⟨start, length, hpair⟩ : ∃ start length, longestZeros x.groups.toList = (start, length) :=
    ⟨_, _, rfl⟩
  have hzeros : length ≤ zerosFrom x.groups.toList start := by
    have hle := longestZeros_le x.groups.toList
    rwa [hpair] at hle
  have height : x.groups.toList.length = 8 := by simp
  simp only [hexChars, hpair]
  split
  · rename_i hlong
    have hsplit := eq_take_zeros_drop hzeros
    have hsum := congrArg List.length hsplit
    simp only [List.length_append, List.length_replicate, height] at hsum
    rw [read?, List.append_assoc, List.cons_append, List.cons_append, List.nil_append,
      splitDouble?_joinGroups_append]
    simp only [side?_joinGroups, Option.bind_eq_bind, Option.bind_some]
    have hback : 8 - (x.groups.toList.take start).length
        - (x.groups.toList.drop (start + length)).length = length := by omega
    rw [if_pos (by omega), hback, ← hsplit, ofList?_toList]
  · rw [read?, splitDouble?_joinGroups]
    simp only [side?_joinGroups, Option.bind_eq_bind, Option.bind_some, ofList?_toList]

theorem toGroups_ofGroups (high low : UInt16) :
    (Ipv4.ofGroups high low).toGroups = [high, low] := by
  have hjoin : ∀ g : UInt16, UInt16.ofNat (256 * (UInt8.ofNat (g.toNat / 256)).toNat
      + (UInt8.ofNat (g.toNat % 256)).toNat) = g := by
    intro g
    have hlt : g.toNat < 65536 := g.toNat_lt
    rw [UInt8.toNat_ofNat_of_lt' (by simp only [UInt8.size]; omega),
      UInt8.toNat_ofNat_of_lt' (by simp only [UInt8.size]; omega), Nat.div_add_mod,
      UInt16.ofNat_toNat]
  simp only [Ipv4.toGroups, Ipv4.ofGroups, hjoin]

theorem groups_of_mapped? {x : Ipv6} {y : Ipv4} (h : x.mapped? = some y) :
    x.groups.toList = [0, 0, 0, 0, 0, 0xffff] ++ y.toGroups := by
  unfold mapped? at h
  split at h
  · rename_i high low hgroups
    obtain rfl := Option.some.inj h
    rw [hgroups, toGroups_ofGroups]
    rfl
  · exact absurd h nofun

/-- The text of an address that stands for an IPv4 address. -/
theorem read?_mapped (y : Ipv4) :
    read? ("::ffff:".toList ++ y.chars) = ofList? ([0, 0, 0, 0, 0, 0xffff] ++ y.toGroups) := by
  have hparts : ∀ p ∈ ["ffff".toList, y.chars], ':' ∉ p := by
    simpa using y.colon_not_mem_chars
  have hsplit : ("ffff:".toList ++ y.chars).splitOn ':' = ["ffff".toList, y.chars] := by
    rw [← List.splitOn_intercalate ':' hparts (by simp)]
    simp [List.intercalate_cons_cons]
  have hdotted : groupsOf? true [y.chars] = some y.toGroups := by
    simp [groupsOf?, y.dot_mem_chars, y.read?_chars]
  have hback : side? true ("ffff:".toList ++ y.chars) = some (0xffff :: y.toGroups) := by
    rw [side?, hsplit, groupsOf?, hdotted]
    · rfl
    · simp
  have hdouble : splitDouble? ("::ffff:".toList ++ y.chars) =
      some ([], "ffff:".toList ++ y.chars) := rfl
  rw [read?, hdouble]
  simp only [hback, Option.bind_eq_bind, Option.bind_some]
  rfl

/-- **The text of an IPv6 address is read back.** -/
theorem read?_chars (x : Ipv6) : read? x.chars = some x := by
  rw [chars]
  split
  · rename_i y hy
    rw [read?_mapped, ← groups_of_mapped? hy, ofList?_toList]
  · exact x.read?_hexChars

end Ipv6

/-- No text of an IPv6 address is one of an IPv4 address. -/
theorem Ipv4.read?_ipv6_chars (x : Ipv6) : Ipv4.read? x.chars = none := by
  rw [Ipv6.chars]
  split
  · -- the first of its four parts is too long for a number
    rename_i y _
    have hdot : ∀ b : UInt8, '.' ∉ Nat.toDigits 10 b.toNat := fun b =>
      (not_mem_toDigits (by decide) (by decide)).1
    have hfirst : octet? ("::ffff:".toList ++ Nat.toDigits 10 y.a.toNat) = none := by
      rw [octet?, if_neg]
      simp
    have hsplit : ("::ffff:".toList ++ y.chars).splitOn '.' =
        ("::ffff:".toList ++ Nat.toDigits 10 y.a.toNat) ::
          [y.b, y.c, y.d].map fun b => Nat.toDigits 10 b.toNat := by
      refine Eq.trans ?_ (List.splitOn_intercalate '.' ?_ (by simp))
      · simp [Ipv4.chars, List.intercalate_cons_cons]
      · simp [hdot]
    rw [read?, hsplit]
    simp only [List.map_cons, List.map_nil, hfirst]
    rfl
  · rw [read?, List.splitOn_eq_singleton x.dot_not_mem_hexChars]

/-! ## 6. Addresses of either version -/

namespace Address

/-- **An address is read back from its text.** -/
theorem read?_text (x : Address) : read? x.text = some x := by
  cases x with
  | v4 x => simp [read?, text, chars, x.read?_chars]
  | v6 x => simp [read?, text, chars, Ipv4.read?_ipv6_chars, x.read?_chars]

/-- **The text tells addresses apart.** -/
theorem text_injective {x y : Address} (h : x.text = y.text) : x = y := by
  have hread := read?_text x
  rw [h, read?_text y] at hread
  exact (Option.some.inj hread).symm

end Address

end Swarm.Net
