/-
# The query of a URL

Whatever is read or put into a query is escaped first, and what has been escaped is not escaped
again (`settling_inQuery`).  So the query of every URL that is read is plain from the start
(`HasPlainQuery`, `hasPlainQuery_of_read`), however its host is named, and a plain text that is put
behind it changes nothing of it, nor is anything of that text changed: `appendQuery_eq`.
-/
import Swarm.Net.Url.Reading
import Swarm.Proofs.Bencode.Field
import Swarm.Proofs.Net.Percent

namespace Swarm.Net

/-! ## 1. What is escaped in queries -/

/-- Neither set of characters that are escaped in queries touches an escape. -/
theorem settling_inQuery (special : Bool) : Percent.Settling (Percent.inQuery special) := by
  have hbytes : ∀ n < 256, Percent.inQuery special (UInt8.ofNat n) = false → n < 128 := by
    cases special <;> decide +kernel
  have hchars : ∀ n < 128, (Char.ofNat n).isAlphanum = true →
      Percent.inQuery special (Text.ascii (Char.ofNat n)) = false := by
    cases special <;> decide +kernel
  constructor
  · intro b hb
    have hlt := hbytes b.toNat b.toNat_lt
    rw [UInt8.ofNat_toNat] at hlt
    exact hlt hb
  · cases special <;> decide
  · intro c hc
    have hplain := hchars c.toNat (Text.lt_of_isAlphanum hc)
    rw [Char.ofNat_toNat] at hplain
    exact hplain hc

namespace Url

/-- The query, if there is one, holds nothing that would have to be escaped. -/
def HasPlainQuery (u : Url) : Prop :=
  ∀ q, u.query = some q → Percent.Plain (Percent.inQuery (isSpecial u.scheme)) q

/-! ## 2. URLs that were read -/

variable {toAscii? : Host.DomainToAscii}

theorem hasPlainQuery_assemble {scheme : String} {authority : Option Authority} {path : UrlPath}
    {query fragment : Option (List Char)} :
    (assemble scheme authority path query fragment).HasPlainQuery := by
  intro q hq
  obtain ⟨raw, -, rfl⟩ := Option.map_eq_some_iff.mp hq
  exact (settling_inQuery _).plain_escape _

theorem hasPlainQuery_of_readHierarchical {scheme : String} {cs : List Char} {u : Url}
    (h : readHierarchical toAscii? scheme cs = .ok u) : u.HasPlainQuery := by
  obtain ⟨⟨authority, rest⟩, -, h⟩ := bind_eq_ok_iff.mp h
  obtain rfl := pure_eq_ok_iff.mp h
  exact hasPlainQuery_assemble

theorem hasPlainQuery_of_readFile {cs : List Char} {u : Url}
    (h : readFile toAscii? cs = .ok u) : u.HasPlainQuery := by
  obtain ⟨p, -, h⟩ := bind_eq_ok_iff.mp h
  obtain rfl := pure_eq_ok_iff.mp h
  exact hasPlainQuery_assemble

/-- **A URL that was read holds its query escaped.** -/
theorem hasPlainQuery_of_read {t : String} {u : Url} (h : Url.read toAscii? t = .ok u) :
    u.HasPlainQuery := by
  rw [Url.read] at h
  split at h
  · exact absurd h nofun
  · split_ifs at h
    · exact hasPlainQuery_of_readFile h
    · exact hasPlainQuery_of_readHierarchical h
    · split at h
      · exact hasPlainQuery_of_readHierarchical h
      · rw [← Except.ok.inj h]
        exact hasPlainQuery_assemble

theorem hasPlainQuery_of_reader {t : String} {u : Url} (h : reader toAscii? t = .ok u) :
    u.HasPlainQuery :=
  hasPlainQuery_of_read (mapError_eq_ok_iff.mp h)

/-! ## 3. Putting a plain text behind the query -/

theorem withQuery_of_plain {u : Url} {t : String}
    (h : Percent.Plain (Percent.inQuery (isSpecial u.scheme)) t) :
    u.withQuery t = { u with query := some t } := by
  rw [withQuery, Percent.escapeText_of_plain h]

/-- What stands in front of a text that is put behind the query: the query and an `&`, unless it is
empty. -/
def queryLead (u : Url) : String :=
  match u.query with
  | some old => if old.isEmpty then "" else old ++ "&"
  | none => ""

/-- The lead is nothing, or ends in an `&`. -/
theorem queryLead_eq (u : Url) : u.queryLead = "" ∨ ∃ old, u.queryLead = old ++ "&" := by
  rw [queryLead]
  split
  · split
    · exact .inl rfl
    · exact .inr ⟨_, rfl⟩
  · exact .inl rfl

/-- **A plain text that is put behind the query changes nothing else**, and stays what it is. -/
theorem appendQuery_eq {u : Url} (hu : u.HasPlainQuery) {t : String}
    (ht : Percent.Plain (Percent.inQuery (isSpecial u.scheme)) t) :
    u.appendQuery t = { u with query := some (u.queryLead ++ t) } := by
  have hamp : Percent.Plain (Percent.inQuery (isSpecial u.scheme)) "&" := by
    cases isSpecial u.scheme <;> decide
  cases hquery : u.query with
  | none => simp only [appendQuery, queryLead, hquery, withQuery_of_plain ht, String.empty_append]
  | some old =>
    simp only [appendQuery, queryLead, hquery]
    split
    · rw [withQuery_of_plain ht, String.empty_append]
    · rw [withQuery_of_plain (((hu old hquery).append hamp).append ht)]

end Url
end Swarm.Net
