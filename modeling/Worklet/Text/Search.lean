/-!
# Searching in texts

* `occurrences` — how often a text occurs in another, without overlaps.
* `holds` — a text occurs in another.
* `splitFirst?` — the text before and after the first occurrence of a character.
* `lines` — the lines of a text.
-/

set_option autoImplicit false

namespace Worklet.Text

/-- The occurrences of a text that is not empty, after some characters are passed over. -/
def occurrencesFrom (needle : List Char) : Nat → List Char → Nat
  | _, [] => 0
  | skip + 1, _ :: cs => occurrencesFrom needle skip cs
  | 0, c :: cs =>
    if needle.isPrefixOf (c :: cs) then 1 + occurrencesFrom needle (needle.length - 1) cs
    else occurrencesFrom needle 0 cs

/-- How often a text occurs in another, without overlaps. The empty text occurs before each
character and at the end. -/
def occurrences (needle text : String) : Nat :=
  if needle.isEmpty then text.length + 1
  else occurrencesFrom needle.toList 0 text.toList

/-- The text occurs in the other. -/
def holds (needle text : String) : Bool :=
  occurrences needle text != 0

/-- The text before and after the first such character. -/
def splitFirst? (c : Char) (s : String) : Option (String × String) :=
  match s.toList.span (· != c) with
  | (_, []) => none
  | (before, _ :: after) => some (String.ofList before, String.ofList after)

/-- The lines that line feeds divide. -/
def lines (s : String) : List String :=
  (s.toList.splitOn '\n').map String.ofList

end Worklet.Text
