import Worklet.Document.Value
import Worklet.Number.Shortest
import Worklet.Text.Quoted

/-!
# Printing documents

* `Document.pretty` — a value with two blanks of indent and one member or item on a line.
-/

set_option autoImplicit false

namespace Worklet.Document

def escapedChar (c : Char) : String :=
  if c == '"' then "\\\""
  else if c == '\\' then "\\\\"
  else if c == '\n' then "\\n"
  else if c == '\r' then "\\r"
  else if c == '\t' then "\\t"
  else if c.toNat == 0x8 then "\\b"
  else if c.toNat == 0xc then "\\f"
  else if c.toNat < 0x20 then
    let ds := Text.hex c.toNat
    "\\u" ++ "".pushn '0' (4 - ds.length) ++ ds
  else c.toString

/-- A string between its quotes. -/
def escaped (s : String) : String :=
  "\"" ++ String.join (s.toList.map escapedChar) ++ "\""

/-- A number with a point. -/
def floatText (isNegative : Bool) (v : Binary64) : String :=
  let t := v.positional
  (if isNegative then "-" else "") ++ if t.toList.contains '.' then t else t ++ ".0"

def Scalar.text : Scalar → String
  | .null => "null"
  | .bool b => if b then "true" else "false"
  | .integer n => toString n
  | .float s v => floatText s v
  | .string s => escaped s

/-- Parts on lines of their own between brackets. -/
def bracketed (indent : Nat) (open_ close : String) (parts : List String) : String :=
  if parts.isEmpty then open_ ++ close
  else
    let margin := "".pushn ' ' (indent + 2)
    open_ ++ "\n" ++ ",\n".intercalate (parts.map (margin ++ ·)) ++ "\n" ++
      "".pushn ' ' indent ++ close

mutual

/-- The text of a value whose first line stands at an indent. -/
def prettyAt (indent : Nat) : Document → String
  | .scalar v _ => v.text
  | .array items _ _ => bracketed indent "[" "]" (prettyItems (indent + 2) items)
  | .object ms _ _ => bracketed indent "\x7b" "\x7d" (prettyMembers (indent + 2) ms)
  | .broken _ => "null"

def prettyItems (indent : Nat) : List Document → List String
  | [] => []
  | v :: vs => prettyAt indent v :: prettyItems indent vs

/-- The texts of the members of an object. -/
def prettyMembers (indent : Nat) : List (Key × Document) → List String
  | [] => []
  | (k, v) :: ms => (escaped k.text ++ ": " ++ prettyAt indent v) :: prettyMembers indent ms

end

/-- The text of a value. -/
def pretty (v : Document) : String :=
  prettyAt 0 v

end Worklet.Document
