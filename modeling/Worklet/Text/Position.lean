import Worklet.Text.Units

/-!
# Lines and columns

Offsets in a file count bytes of its UTF-8 form. A position shown to a reader is a line,
counted from one, and a column, counted from zero in UTF-16 units.

* `positionAt` — the position of a byte offset.
-/

set_option autoImplicit false

namespace Worklet.Text

/-- A place in a text: lines are counted from one, columns from zero. -/
structure Position where
  line : Nat
  column : Nat
  deriving DecidableEq, Repr, Inhabited

/-- The position after reading a character; `next` is the character that follows it. A line
ends after a line feed, or a carriage return that no line feed follows. -/
def Position.advance (p : Position) (c : Char) (next : Option Char) : Position :=
  if c == '\n' || (c == '\r' && next != some '\n') then ⟨p.line + 1, 0⟩
  else ⟨p.line, p.column + charWidth c⟩

/-- Walks the characters until `offset` bytes are used up. -/
def positionFrom (p : Position) : List Char → Nat → Position
  | [], _ => p
  | c :: rest, offset =>
    if offset < c.utf8Size then p
    else positionFrom (p.advance c rest.head?) rest (offset - c.utf8Size)

def positionAt (text : List Char) (offset : Nat) : Position :=
  positionFrom ⟨1, 0⟩ text offset

end Worklet.Text
