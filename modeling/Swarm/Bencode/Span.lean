/-
# Where a value stands

The value of a key can be found in the bytes of a dictionary without writing anything anew:
`valueSpan?` gives the positions between which it stands.  It goes over the entries in a loop
of its own, which keeps no values, only where the last one of the key stands.  Bytes after
the dictionary are not looked at.
-/
import Swarm.Bencode.Decoding
import Swarm.Error

namespace Swarm.Bencode

/-- Positions from `start` on and before `stop`. -/
structure Span where
  start : Nat
  stop : Nat
  deriving DecidableEq, Repr

namespace Span

/-- The bytes between the positions. -/
def slice (data : Bytes) (p : Span) : Bytes := (data.drop p.start).take (p.stop - p.start)

/-- The positions of an extent in bytes of which there are `length`. -/
def ofExtent (length : Nat) (x : Extent) : Span :=
  ⟨length - x.start.length, length - x.stop.length⟩

end Span

/-- Goes over the entries up to the closing mark, at most `bound` of them, and keeps where the
value of a key stands.  `found` is what has been kept so far; a later value of the key takes
its place. -/
def scanEntries (entry : Bytes → Reading (Key × Value × Extent)) (key : Key) :
    Nat → Option Extent → Bytes → Except Stop (Option Extent)
  | 0, _, _ => .error .short
  | _ + 1, _, [] => .error .short
  | bound + 1, found, b :: rest =>
    if b = Mark.close then .ok found
    else
      match entry (b :: rest) with
      | .error stop => .error stop
      | .ok (e, s) => scanEntries entry key bound (if key = e.1 then some e.2.2 else found) s

/-- **Where the value of a key stands** in the dictionary that the bytes begin with. -/
def valueSpan? (data : Bytes) (key : Key) : Except Error (Option Span) :=
  match data with
  | [] => .error (.decode (.endOfInput 0))
  | b :: rest =>
    if b = Mark.dictionary then
      match scanEntries (readEntry (readValue data.length maxDepth)) key data.length none rest with
      | .error stop => .error (.decode (stop.locate 0 data.length))
      | .ok found => .ok (found.map (Span.ofExtent data.length))
    else
      match decodeAt data 0 with
      | .error e => .error (.decode e)
      | .ok (v, _) => .error (.field (.wrongKind "<root>" .dictionary v.kind))

end Swarm.Bencode
