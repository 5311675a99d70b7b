/-!
# Blank characters

The characters of the Unicode property `White_Space`, and text without those
at its ends.
-/

namespace Escrow.Text

/-- A character of the property `White_Space`. -/
def isBlank (c : Char) : Bool :=
  let n := c.toNat
  (0x09 ≤ n && n ≤ 0x0d) || n = 0x20 || n = 0x85 || n = 0xa0 || n = 0x1680 ||
    (0x2000 ≤ n && n ≤ 0x200a) || n = 0x2028 || n = 0x2029 || n = 0x202f || n = 0x205f ||
    n = 0x3000

/-- Characters without the blank ones in front. -/
def dropBlank (cs : List Char) : List Char :=
  cs.dropWhile isBlank

/-- A text without the blank characters at its two ends. -/
def trim (s : String) : String :=
  String.ofList (dropBlank (dropBlank s.toList).reverse).reverse

end Escrow.Text
