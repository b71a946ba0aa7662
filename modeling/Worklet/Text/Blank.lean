/-!
# Blank characters

White space as a property of characters, and texts without the white space at their ends.

* `trim`, `trimStart`, `trimEnd` — a text without the blanks at its ends.
-/

set_option autoImplicit false

namespace Worklet.Text

/-- The characters with the property `White_Space`; the byte order mark is not one of them. -/
def isBlank (c : Char) : Bool :=
  let n := c.toNat
  (0x9 ≤ n && n ≤ 0xd) || n == 0x20 || n == 0x85 || n == 0xa0 || n == 0x1680 ||
    (0x2000 ≤ n && n ≤ 0x200a) || n == 0x2028 || n == 0x2029 || n == 0x202f || n == 0x205f ||
    n == 0x3000

def trimStart (s : String) : String :=
  String.ofList (s.toList.dropWhile isBlank)

def trimEnd (s : String) : String :=
  String.ofList (s.toList.reverse.dropWhile isBlank).reverse

/-- The text without the blanks at both ends. -/
def trim (s : String) : String :=
  trimEnd (trimStart s)

end Worklet.Text
