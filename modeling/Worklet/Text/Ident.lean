import Worklet.Text.IdentTable

/-!
# Characters of identifiers

* `isIdentStart`, `isIdentPart` — the two classes of the grammar of identifiers.
-/

set_option autoImplicit false

namespace Worklet.Text

/-- A number lies inside, by the lengths of runs of numbers that in turn lie outside and inside. The
flag says what the first run is. -/
def inRuns (inside : Bool) : List Nat → Nat → Bool
  | [], _ => false
  | run :: runs, n => if n < run then inside else inRuns (!inside) runs (n - run)

/-- The code point has the property that a table of runs tells. -/
def hasProperty (runs : List Nat) (c : Char) : Bool :=
  inRuns false runs c.toNat

/-- Letters, `$`, `_` and what else may begin an identifier. -/
def isIdentStart (c : Char) : Bool :=
  if c.toNat < 0x80 then c.isAlpha || c == '$' || c == '_'
  else hasProperty identStartRuns c

/-- What may continue an identifier: also digits, marks and the two joiners. -/
def isIdentPart (c : Char) : Bool :=
  if c.toNat < 0x80 then c.isAlphanum || c == '$' || c == '_'
  else hasProperty identStartRuns c || hasProperty identExtraRuns c ||
    c.toNat == 0x200c || c.toNat == 0x200d

end Worklet.Text
