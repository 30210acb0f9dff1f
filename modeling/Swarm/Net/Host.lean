/-
# Hosts of URLs

The host of a URL is a domain name, an IPv4 address or an IPv6 address in brackets.  For the
schemes that name machines, a host text is first unescaped and brought into the letters of
ASCII, and a domain whose last label is a number is an IPv4 address in one of its older
spellings: up to four numbers, decimal, octal (`0..`) or hexadecimal (`0x..`), the last of which
fills the bytes that are left.  For all other schemes the host is opaque: escaped, but otherwise
kept.

How domains of other scripts are written in ASCII is the matter of a standard and of tables of
their own, so it is left open here (`DomainToAscii`).
-/
import Swarm.Net.Address
import Swarm.Net.Percent

namespace Swarm.Net

/-! ## 1. Hosts and what is wrong with a URL -/

/-- Why a text is no URL. -/
inductive UrlFault
  | relativeWithoutBase
  | emptyHost
  | invalidPort
  | invalidIpv4
  | invalidIpv6
  /-- A domain that cannot be written in ASCII, or with characters that no domain may have. -/
  | invalidDomain
  /-- An opaque host with characters that no host may have. -/
  | invalidHostCharacter
  deriving DecidableEq, Repr

/-- The wording of it. -/
def UrlFault.message : UrlFault → String
  | relativeWithoutBase => "relative URL without a base"
  | emptyHost => "empty host"
  | invalidPort => "invalid port number"
  | invalidIpv4 => "invalid IPv4 address"
  | invalidIpv6 => "invalid IPv6 address"
  | invalidDomain => "invalid international domain name"
  | invalidHostCharacter => "invalid domain character"

/-- The host of a URL; a URL that names none has the empty domain. -/
inductive Host
  | domain (name : String)
  | v4 (address : Ipv4)
  | v6 (address : Ipv6)
  deriving DecidableEq, Repr

namespace Host

/-- The text of a host. -/
def text : Host → String
  | domain name => name
  | v4 x => x.text
  | v6 x => "[" ++ String.ofList x.hexChars ++ "]"

/-- No host at all. -/
def isEmpty : Host → Bool
  | domain name => name.isEmpty
  | _ => false

/-! ## 2. The older spellings of an IPv4 address -/

/-- A number in one of the three spellings; `none` if it is no number. -/
def looseNumber? (cs : List Char) : Option Nat :=
  match cs with
  | [] => none
  | '0' :: 'x' :: digits | '0' :: 'X' :: digits =>
    if digits.isEmpty then some 0 else number? 16 digits
  | '0' :: d :: digits => number? 8 (d :: digits)
  | digits => number? 10 digits

/-- The labels of a domain, without the empty one that a final dot leaves. -/
def labels (cs : List Char) : List (List Char) :=
  let parts := cs.splitOn '.'
  if parts.getLast? == some [] then parts.dropLast else parts

/-- Whether a domain is to be read as an IPv4 address: its last label is a number. -/
def endsInNumber (cs : List Char) : Bool :=
  match (labels cs).getLast? with
  | none => false
  | some last => (!last.isEmpty && last.all Char.isDigit) || (looseNumber? last).isSome

/-- The address of up to four numbers, the last of which fills the bytes that are left. -/
def looseIpv4? (cs : List Char) : Option Ipv4 := do
  let parts := labels cs
  let numbers ← parts.mapM looseNumber?
  let last ← numbers.getLast?
  let front := numbers.dropLast
  if front.length ≤ 3 && front.all (· ≤ 255) && last < 1 <<< (8 * (4 - front.length)) then
    let n := (front.foldl (fun n x => 256 * n + x) 0) <<< (8 * (4 - front.length)) + last
    some ⟨UInt8.ofNat (n >>> 24), UInt8.ofNat (n >>> 16), UInt8.ofNat (n >>> 8),
      UInt8.ofNat n⟩
  else none

/-! ## 3. Domains in ASCII -/

/-- Characters that no domain may have, apart from controls. -/
def forbiddenInDomain : List Char :=
  [' ', '%', '#', '/', ':', '<', '>', '?', '@', '[', '\\', ']', '^', '|']

/-- How the bytes of a domain are written in ASCII, if they are the name of one. -/
abbrev DomainToAscii := Bytes → Option (List Char)

/-- The writing of a domain that is in ASCII already: in lower case.  Other scripts are not known
here.  Their letters are refused, and a label that begins with `xn--` is kept without a look at what
it stands for. -/
def asciiDomain? : DomainToAscii := fun bytes =>
  if bytes.any (Percent.isControl.with forbiddenInDomain) then none
  else some (bytes.map fun b => (Char.ofNat b.toNat).toLower)

/-! ## 4. Reading -/

/-- Characters that no opaque host may have. -/
def forbiddenInOpaque : List Char :=
  ['\x00', '\t', '\n', '\r', ' ', '#', '/', ':', '<', '>', '?', '@', '[', '\\', ']', '^', '|']

/-- The IPv6 address in brackets. -/
def readBracketed (inner : List Char) : Except UrlFault Host :=
  if inner.getLast? = some ']' then
    match Ipv6.read? inner.dropLast with
    | some x => .ok (v6 x)
    | none => .error .invalidIpv6
  else .error .invalidIpv6

/-- The host of a scheme that names machines. -/
def read (toAscii? : DomainToAscii) (cs : List Char) : Except UrlFault Host :=
  match cs with
  | '[' :: inner => readBracketed inner
  | _ =>
    match toAscii? (Percent.unescape (Text.utf8 (String.ofList cs))) with
    | none => .error .invalidDomain
    | some name =>
      if name.isEmpty then .error .emptyHost
      else if endsInNumber name then
        match looseIpv4? name with
        | some x => .ok (v4 x)
        | none => .error .invalidIpv4
      else .ok (domain (String.ofList name))

/-- The host of any other scheme. -/
def readOpaque (cs : List Char) : Except UrlFault Host :=
  match cs with
  | '[' :: inner => readBracketed inner
  | _ =>
    if cs.any forbiddenInOpaque.contains then .error .invalidHostCharacter
    else .ok (domain (Percent.escapeText Percent.isControl (String.ofList cs)))

end Host
end Swarm.Net
