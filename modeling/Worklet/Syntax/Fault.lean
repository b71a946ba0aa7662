/-!
# Reasons for which a text is not a program

* `Fault.message` — its wording.
-/

set_option autoImplicit false

namespace Worklet.Syntax

/-- Why reading stopped. -/
inductive Fault where
  /-- An expression must begin here. -/
  | expressionExpected
  /-- The token cannot stand here; the words name what could. -/
  | unexpected (found : String) (expected : String)
  /-- The token cannot stand here. -/
  | unexpectedToken (found : String)
  /-- The file ends too early. -/
  | unexpectedEnd
  /-- A character that begins no token. -/
  | badCharacter (c : Char)
  | unterminatedString
  | unterminatedTemplate
  | unterminatedRegex
  | unterminatedComment
  | badNumber
  | badEscape
  | invalidTarget
  | missingSemicolon
  /-- Nested deeper than the length of the text allows. -/
  | tooDeep
  deriving DecidableEq, Repr, Inhabited

def Fault.message : Fault → String
  | .expressionExpected => "Expression expected"
  | .unexpected found expected => "Unexpected token `" ++ found ++ "`. Expected " ++ expected
  | .unexpectedToken found => "Unexpected token `" ++ found ++ "`"
  | .unexpectedEnd => "Unexpected eof"
  | .badCharacter c => "Unexpected character '" ++ c.toString ++ "'"
  | .unterminatedString => "Unterminated string constant"
  | .unterminatedTemplate => "Unterminated template"
  | .unterminatedRegex => "Unterminated regexp literal"
  | .unterminatedComment => "Unterminated block comment"
  | .badNumber => "Invalid number"
  | .badEscape => "Invalid unicode escape"
  | .invalidTarget => "Cannot assign to this"
  | .missingSemicolon => "Expected ';', '\x7d' or <eof>"
  | .tooDeep => "Nesting too deep"

/-- A fault at a byte of the file. -/
structure Failure where
  fault : Fault
  pos : Nat
  deriving DecidableEq, Repr, Inhabited

end Worklet.Syntax
