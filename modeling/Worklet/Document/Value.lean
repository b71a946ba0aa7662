import Worklet.Number.Binary64

/-!
# Documents

A value of the interchange format, read so far as it can be read: where the text breaks off, the
value holds what came before and the reason. Whoever decodes a document in the order of its text
so meets either an error of its own or the break, whichever comes first.
-/

set_option autoImplicit false

namespace Worklet

namespace Document

/-- Why a text is no document. -/
inductive Cause where
  | endInValue | endInList | endInObject | endInString
  | expectedColon | expectedListEnd | expectedObjectEnd | expectedIdent | expectedValue
  | invalidEscape | invalidNumber | numberOutOfRange | invalidCodePoint | controlCharacter
  | keyMustBeString | loneSurrogate | trailingComma | trailingCharacters
  deriving DecidableEq, Repr, Inhabited

def Cause.message : Cause → String
  | .endInValue => "EOF while parsing a value"
  | .endInList => "EOF while parsing a list"
  | .endInObject => "EOF while parsing an object"
  | .endInString => "EOF while parsing a string"
  | .expectedColon => "expected `:`"
  | .expectedListEnd => "expected `,` or `]`"
  | .expectedObjectEnd => "expected `,` or `\x7d`"
  | .expectedIdent => "expected ident"
  | .expectedValue => "expected value"
  | .invalidEscape => "invalid escape"
  | .invalidNumber => "invalid number"
  | .numberOutOfRange => "number out of range"
  | .invalidCodePoint => "invalid unicode code point"
  | .controlCharacter => "control character (\\u0000-\\u001F) found while parsing a string"
  | .keyMustBeString => "key must be a string"
  | .loneSurrogate => "lone leading surrogate in hex escape"
  | .trailingComma => "trailing comma"
  | .trailingCharacters => "trailing characters"

/-- A cause at a byte of the text. -/
structure Fault where
  cause : Cause
  pos : Nat
  deriving DecidableEq, Repr, Inhabited

/-- The bytes at which a complaint about a value is shown: one about its own type where the value
stops, one found later behind the blanks after it and the bracket that closes what holds it. -/
structure Spot where
  stop : Nat := 0
  settled : Nat := 0
  deriving DecidableEq, Repr, Inhabited

/-- A value without parts. -/
inductive Scalar where
  | null
  | bool (value : Bool)
  | integer (value : Int)
  | float (isNegative : Bool) (value : Binary64)
  | string (value : String)
  deriving DecidableEq, Repr, Inhabited

structure Key where
  text : String
  spot : Spot := {}
  deriving DecidableEq, Repr, Inhabited

end Document

/-- A value, or as much of one as could be read. A fault at the end of a list or an object tells
why no more of it could be read. -/
inductive Document where
  | scalar (value : Document.Scalar) (spot : Document.Spot)
  | array (items : List Document) (fault : Option Document.Fault) (spot : Document.Spot)
  | object (members : List (Document.Key × Document)) (fault : Option Document.Fault)
      (spot : Document.Spot)
  | broken (fault : Document.Fault)
  deriving Repr, Inhabited

namespace Document

/-- A text. -/
def str (s : String) : Document := .scalar (.string s) {}

/-- A whole number. -/
def nat (n : Nat) : Document := .scalar (.integer n) {}

/-- Nothing. -/
def null : Document := .scalar .null {}

def list (items : List Document) : Document := .array items none {}

/-- An object. -/
def record (fields : List (String × Document)) : Document :=
  .object (fields.map fun f => (⟨f.1, {}⟩, f.2)) none {}

/-- A text, or nothing. -/
def optionStr : Option String → Document
  | some s => str s
  | none => null

end Document

end Worklet
