/-
# Internet addresses and their texts

An address is four bytes (IPv4) or eight groups of sixteen bits (IPv6).  The text of an IPv6
address writes each group in hexadecimal without leading zeros and shortens the first of the
longest runs of two or more zero groups to `::`; an address that stands for an IPv4 address
(`::ffff:0:0/96`) ends in that address's dotted text.

Reading is strict: four decimal numbers up to 255 without leading zeros, or groups of one to
four hexadecimal digits, the last two of which may be given as a dotted text, with at most one
`::` standing for one or more zero groups.
-/
import Swarm.Text.Numeral

namespace Swarm.Net

/-! ## 1. Addresses -/

/-- An IPv4 address. -/
structure Ipv4 where
  a : UInt8
  b : UInt8
  c : UInt8
  d : UInt8
  deriving DecidableEq, Repr

/-- An IPv6 address. -/
structure Ipv6 where
  groups : Vector UInt16 8
  deriving DecidableEq, Repr

/-- An internet address of either version. -/
inductive Address
  | v4 (address : Ipv4)
  | v6 (address : Ipv6)
  deriving DecidableEq, Repr

/-! ## 2. Texts -/

namespace Ipv4

/-- The dotted text, as characters. -/
def chars (x : Ipv4) : List Char :=
  List.intercalate ['.'] ([x.a, x.b, x.c, x.d].map fun b => Nat.toDigits 10 b.toNat)

/-- The dotted text. -/
def text (x : Ipv4) : String := String.ofList x.chars

/-- The two groups that hold an IPv4 address inside an IPv6 address. -/
def toGroups (x : Ipv4) : List UInt16 :=
  [UInt16.ofNat (256 * x.a.toNat + x.b.toNat), UInt16.ofNat (256 * x.c.toNat + x.d.toNat)]

/-- The IPv4 address of two groups. -/
def ofGroups (high low : UInt16) : Ipv4 :=
  ⟨UInt8.ofNat (high.toNat / 256), UInt8.ofNat (high.toNat % 256),
    UInt8.ofNat (low.toNat / 256), UInt8.ofNat (low.toNat % 256)⟩

end Ipv4

namespace Ipv6

/-- How many zero groups stand from a position on. -/
def zerosFrom (groups : List UInt16) (i : Nat) : Nat :=
  ((groups.drop i).takeWhile (· == 0)).length

/-- The first of the longest runs of zero groups: where it begins and how long it is. -/
def longestZeros (groups : List UInt16) : Nat × Nat :=
  (List.range groups.length).foldl
    (fun best i => if best.2 < zerosFrom groups i then (i, zerosFrom groups i) else best) (0, 0)

/-- Groups in hexadecimal with colons between them. -/
def joinGroups (groups : List UInt16) : List Char :=
  List.intercalate [':'] (groups.map fun g => Text.hex g.toNat)

/-- The shortened text in groups only, as characters. -/
def hexChars (x : Ipv6) : List Char :=
  let groups := x.groups.toList
  let (start, length) := longestZeros groups
  if 2 ≤ length then
    joinGroups (groups.take start) ++ [':', ':'] ++ joinGroups (groups.drop (start + length))
  else joinGroups groups

/-- The IPv4 address that the address stands for, if it does. -/
def mapped? (x : Ipv6) : Option Ipv4 :=
  match x.groups.toList with
  | [0, 0, 0, 0, 0, 0xffff, high, low] => some (Ipv4.ofGroups high low)
  | _ => none

/-- The text, as characters. -/
def chars (x : Ipv6) : List Char :=
  match x.mapped? with
  | some y => "::ffff:".toList ++ y.chars
  | none => x.hexChars

end Ipv6

namespace Address

/-- The text, as characters. -/
def chars : Address → List Char
  | v4 x => x.chars
  | v6 x => x.chars

/-- The text of an address. -/
def text (x : Address) : String := String.ofList x.chars

/-- The text of an address with a port; an IPv6 address stands in brackets. -/
def textWithPort (x : Address) (port : UInt16) : String :=
  match x with
  | v4 _ => x.text ++ ":" ++ toString port.toNat
  | v6 _ => "[" ++ x.text ++ "]:" ++ toString port.toNat

end Address

/-! ## 3. Reading -/

/-- A number in a base up to sixteen, if there are digits and nothing else. -/
def number? (base : Nat) (cs : List Char) : Option Nat :=
  if cs.isEmpty then none
  else cs.foldl (fun n c => do
    let n ← n
    let v ← Text.hexValue? c
    if v < base then some (base * n + v) else none) (some 0)

/-- One part of a dotted text. -/
def octet? (cs : List Char) : Option UInt8 :=
  if cs.length ≤ 3 && !(cs.length > 1 && cs.head? == some '0') then
    match number? 10 cs with
    | some n => if n ≤ 255 then some (UInt8.ofNat n) else none
    | none => none
  else none

/-- Reads a dotted text. -/
def Ipv4.read? (cs : List Char) : Option Ipv4 :=
  match cs.splitOn '.' with
  | [a, b, c, d] => do return ⟨← octet? a, ← octet? b, ← octet? c, ← octet? d⟩
  | _ => none

/-- One group of hexadecimal digits. -/
def group? (cs : List Char) : Option UInt16 :=
  if cs.length ≤ 4 then (number? 16 cs).map UInt16.ofNat else none

/-- Groups with colons between them; where `dotted` allows it, the last part may be a dotted
text and then gives two groups. -/
def groupsOf? (dotted : Bool) : List (List Char) → Option (List UInt16)
  | [] => some []
  | [last] =>
    if dotted && last.contains '.' then (Ipv4.read? last).map Ipv4.toGroups
    else (group? last).map ([·])
  | first :: rest => do
    let g ← group? first
    let gs ← groupsOf? dotted rest
    return g :: gs

/-- The groups of one side of a `::`, which may be empty. -/
def side? (dotted : Bool) (cs : List Char) : Option (List UInt16) :=
  if cs.isEmpty then some [] else groupsOf? dotted (cs.splitOn ':')

/-- The parts before and after the first `::`. -/
def splitDouble? : List Char → Option (List Char × List Char)
  | ':' :: ':' :: rest => some ([], rest)
  | [] => none
  | c :: rest => (splitDouble? rest).map fun (front, back) => (c :: front, back)

/-- The address of eight groups. -/
def Ipv6.ofList? (groups : List UInt16) : Option Ipv6 :=
  if h : groups.length = 8 then some ⟨⟨groups.toArray, by simpa using h⟩⟩ else none

/-- Reads the text of an IPv6 address. -/
def Ipv6.read? (cs : List Char) : Option Ipv6 :=
  match splitDouble? cs with
  | none => side? true cs >>= Ipv6.ofList?
  | some (front, back) => do
    let front ← side? false front
    let back ← side? true back
    if front.length + back.length ≤ 7 then
      Ipv6.ofList? (front ++ List.replicate (8 - front.length - back.length) 0 ++ back)
    else none

/-- Reads the text of an address of either version. -/
def Address.read? (t : String) : Option Address :=
  match Ipv4.read? t.toList with
  | some x => some (.v4 x)
  | none => (Ipv6.read? t.toList).map .v6

end Swarm.Net
