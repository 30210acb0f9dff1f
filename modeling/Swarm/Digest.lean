/-
# Digests of twenty bytes

The hash of a piece and the hash that names a torrent are both twenty bytes long, and so is
the id a client chooses for itself.  The length is part of the type.
-/
import Swarm.Text.Numeral
import Swarm.Text.Utf8

namespace Swarm

/-- Twenty bytes. -/
structure Octets20 where
  bytes : Bytes
  length_bytes : bytes.length = 20
  deriving DecidableEq

namespace Octets20

/-- The bytes, if they are twenty. -/
def ofBytes? (s : Bytes) : Option Octets20 :=
  if h : s.length = 20 then some ⟨s, h⟩ else none

theorem ofBytes?_eq_some_iff {s : Bytes} {x : Octets20} : ofBytes? s = some x ↔ x.bytes = s := by
  obtain ⟨b, hb⟩ := x
  simp only [ofBytes?]
  split
  · simp [eq_comm]
  · rename_i h
    simp only [reduceCtorEq, false_iff]
    rintro rfl
    exact h hb

end Octets20

/-! ## 1. Digests -/

/-- A SHA-1 hash. -/
structure Digest extends Octets20
  deriving DecidableEq

namespace Digest

/-- The digest with these bytes, if they are twenty. -/
def ofBytes? (s : Bytes) : Option Digest := (Octets20.ofBytes? s).map (⟨·⟩)

theorem ofBytes?_eq_some_iff {s : Bytes} {d : Digest} : ofBytes? s = some d ↔ d.bytes = s := by
  rw [ofBytes?, Option.map_eq_some_iff]
  constructor
  · rintro ⟨x, hx, rfl⟩
    exact Octets20.ofBytes?_eq_some_iff.mp hx
  · intro h
    exact ⟨d.toOctets20, Octets20.ofBytes?_eq_some_iff.mpr h, rfl⟩

/-- The forty hexadecimal digits of a digest. -/
def text (d : Digest) : String := Text.hexOfBytes d.bytes

/-- How a digest is shown. -/
def display (d : Digest) : String := "ShaHash(" ++ d.text ++ ")"

/-- Digests are ordered byte by byte. -/
def compare (d e : Digest) : Ordering :=
  if d.bytes < e.bytes then .lt else if d.bytes = e.bytes then .eq else .gt

end Digest

/-! ## 2. Peer ids -/

/-- The id of a client. -/
structure PeerId extends Octets20
  deriving DecidableEq

namespace PeerId

/-- The id with these bytes, if they are twenty. -/
def ofBytes? (s : Bytes) : Option PeerId := (Octets20.ofBytes? s).map (⟨·⟩)

/-- How an id is shown: as text, whatever its bytes are. -/
def display (id : PeerId) : String := "PeerId(" ++ Text.lossyText id.bytes ++ ")"

/-- What the generated ids of this client begin with. -/
def clientPrefix : Bytes := Text.utf8 "-TC0001-"

/-- The letters and digits that a generated id is made of. -/
def alphabet : Bytes :=
  Text.utf8 "ABCDEFGHIJKLMNOPQRSTUVWXYZabcdefghijklmnopqrstuvwxyz0123456789"

/-- **A generated id**: the prefix of this client and twelve letters or digits, one for each
number drawn. -/
def generate (draws : Vector Nat 12) : PeerId :=
  let letter (n : Nat) : UInt8 := alphabet.getD (n % 62) 65
  ⟨⟨clientPrefix ++ draws.toList.map letter, by
    have : clientPrefix.length = 8 := by decide
    simp [this]⟩⟩

end PeerId
end Swarm
