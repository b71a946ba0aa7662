import Worklet.Text.Ident
import Worklet.Text.QuotedTable

/-!
# Texts quoted for a reader

A text between double quotes in which everything that would not be visible is escaped, as
messages show a text that they mention.

* `quoted` — the quoted form.
-/

set_option autoImplicit false

namespace Worklet.Text

/-- Lower-case hexadecimal digits without leading zeros. -/
def hex (n : Nat) : String :=
  String.ofList (Nat.toDigits 16 n)

def quotedChar (c : Char) : String :=
  if c == '"' then "\\\""
  else if c == '\\' then "\\\\"
  else if c == '\n' then "\\n"
  else if c == '\r' then "\\r"
  else if c == '\t' then "\\t"
  else if c.toNat == 0 then "\\0"
  else if c.toNat < 0x20 || (c.toNat ≥ 0x7f && hasProperty hiddenRuns c) then
    "\\u\x7b" ++ hex c.toNat ++ "\x7d"
  else c.toString

def quoted (s : String) : String :=
  "\"" ++ String.join (s.toList.map quotedChar) ++ "\""

/-- The quoted texts between square brackets, divided by commas. -/
def quotedList (ss : List String) : String :=
  "[" ++ ", ".intercalate (ss.map quoted) ++ "]"

end Worklet.Text
