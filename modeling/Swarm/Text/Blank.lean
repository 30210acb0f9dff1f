/-
# White space around a text

The characters with the Unicode property `White_Space`, and a text without those at its two
ends.
-/

namespace Swarm.Text

/-- White space, after the Unicode property of that name. -/
def isBlank (c : Char) : Bool :=
  let n := c.toNat
  (9 ≤ n && n ≤ 13) || n = 0x20 || n = 0x85 || n = 0xA0 || n = 0x1680 ||
    (0x2000 ≤ n && n ≤ 0x200A) || n = 0x2028 || n = 0x2029 || n = 0x202F || n = 0x205F ||
    n = 0x3000

/-- A run of characters without those at either end that satisfy `p`. -/
def stripWhere (p : Char → Bool) (cs : List Char) : List Char :=
  ((cs.dropWhile p).reverse.dropWhile p).reverse

/-- The text without the white space at its ends. -/
def trimBlank (t : String) : String := String.ofList (stripWhere isBlank t.toList)

end Swarm.Text
