/-
# SHA-1

The hash of a byte string: the bytes are padded with a one bit, zeros and the 64-bit count of
their bits, and each block of 64 bytes stirs five words of 32 bits in eighty rounds.
-/
import Swarm.Digest

namespace Swarm.Sha1

/-! ## 1. Words -/

/-- Turns a word to the left by fewer than 32 places. -/
def rotateLeft (x : UInt32) (n : UInt32) : UInt32 := (x <<< n) ||| (x >>> (32 - n))

/-- The word of four bytes, most significant first. -/
def wordOfBytes (s : Bytes) : UInt32 :=
  s.foldl (fun w b => (w <<< 8) ||| b.toUInt32) 0

/-- The four bytes of a word, most significant first. -/
def bytesOfWord (w : UInt32) : Bytes :=
  [(w >>> 24).toUInt8, (w >>> 16).toUInt8, (w >>> 8).toUInt8, w.toUInt8]

/-! ## 2. Padding -/

/-- The eight bytes of a count, most significant first. -/
def bytesOfCount (n : Nat) : Bytes :=
  (List.range 8).map fun i => UInt8.ofNat (n >>> (8 * (7 - i)))

/-- The padded message, whose length is a multiple of 64. -/
def pad (s : Bytes) : Bytes :=
  s ++ 0x80 :: List.replicate ((119 - s.length % 64) % 64) 0 ++ bytesOfCount (8 * s.length)

/-! ## 3. Rounds -/

/-- The five words that are stirred. -/
structure State where
  a : UInt32
  b : UInt32
  c : UInt32
  d : UInt32
  e : UInt32

/-- The words before the first block. -/
def initial : State := ⟨0x67452301, 0xEFCDAB89, 0x98BADCFE, 0x10325476, 0xC3D2E1F0⟩

/-- The word by word sum. -/
def State.add (x y : State) : State := ⟨x.a + y.a, x.b + y.b, x.c + y.c, x.d + y.d, x.e + y.e⟩

/-- The message words of a block: sixteen from its bytes, the rest from earlier ones. -/
def schedule (block : Bytes) : Array UInt32 :=
  (List.range 64).foldl
    (fun w i =>
      let at' (back : Nat) : UInt32 := w.getD (i + 16 - back) 0
      w.push (rotateLeft (at' 3 ^^^ at' 8 ^^^ at' 14 ^^^ at' 16) 1))
    ((Bytes.chunks 4 16 block).map wordOfBytes).toArray

/-- What a round mixes in besides its message word: a function of three words and a constant,
which change every twenty rounds. -/
def mix (round : Nat) (b c d : UInt32) : UInt32 :=
  if round < 20 then ((b &&& c) ||| (~~~b &&& d)) + 0x5A827999
  else if round < 40 then (b ^^^ c ^^^ d) + 0x6ED9EBA1
  else if round < 60 then ((b &&& c) ||| (b &&& d) ||| (c &&& d)) + 0x8F1BBCDC
  else (b ^^^ c ^^^ d) + 0xCA62C1D6

/-- One round. -/
def stir (w : Array UInt32) (s : State) (round : Nat) : State :=
  ⟨rotateLeft s.a 5 + mix round s.b s.c s.d + s.e + w.getD round 0,
    s.a, rotateLeft s.b 30, s.c, s.d⟩

/-- The words after a block. -/
def absorb (s : State) (block : Bytes) : State :=
  s.add ((List.range 80).foldl (stir (schedule block)) s)

/-! ## 4. The hash -/

/-- The five words at the end. -/
def final (s : Bytes) : State :=
  let padded := pad s
  (Bytes.chunks 64 (padded.length / 64) padded).foldl absorb initial

/-- **The hash of a byte string.** -/
def hash (s : Bytes) : Digest :=
  let f := final s
  ⟨⟨bytesOfWord f.a ++ bytesOfWord f.b ++ bytesOfWord f.c ++ bytesOfWord f.d ++
    bytesOfWord f.e, rfl⟩⟩

end Swarm.Sha1
