import Worklet.Number.Binary64
import Worklet.Text.Units

/-!
# Values of literals

What the written form of a literal denotes.

* `hexValue?`, `digitsValue` — digits as a number.
* `numberValue` — the number of a numeric literal.
-/

set_option autoImplicit false

namespace Worklet.Syntax

/-- The value of a digit in a base of at most 36. -/
def digitValue (c : Char) : Nat :=
  if c.isDigit then c.toNat - '0'.toNat
  else if 'a' ≤ c ∧ c ≤ 'z' then c.toNat - 'a'.toNat + 10
  else if 'A' ≤ c ∧ c ≤ 'Z' then c.toNat - 'A'.toNat + 10
  else 36

def digitsValue (base : Nat) (cs : List Char) : Nat :=
  cs.foldl (fun n c => n * base + digitValue c) 0

/-- The character is a hexadecimal digit. -/
def isHexDigit (c : Char) : Bool :=
  digitValue c < 16

/-- One or more hexadecimal digits as a number. -/
def hexValue? (cs : List Char) : Option Nat :=
  if cs.isEmpty || !cs.all isHexDigit then none else some (digitsValue 16 cs)

/-- The base that the letter after a leading zero stands for. -/
def baseOf (c : Char) : Option Nat :=
  if c == 'x' || c == 'X' then some 16
  else if c == 'o' || c == 'O' then some 8
  else if c == 'b' || c == 'B' then some 2
  else none

/-- The exponent part of a decimal literal: an optional sign and digits. -/
def exponentValue : List Char → Int
  | '-' :: ds => -(digitsValue 10 ds : Int)
  | '+' :: ds => digitsValue 10 ds
  | ds => digitsValue 10 ds

/-- The number of a decimal literal without separators. -/
def decimalValue (cs : List Char) : Binary64 :=
  let isMark (c : Char) : Bool := c == 'e' || c == 'E'
  let mantissa := cs.takeWhile fun c => !isMark c
  let exponent := exponentValue ((cs.dropWhile fun c => !isMark c).drop 1)
  let whole := mantissa.takeWhile (· != '.')
  let fraction := (mantissa.dropWhile (· != '.')).drop 1
  Binary64.ofScientific (digitsValue 10 (whole ++ fraction)) (exponent - fraction.length)

def numberValue (raw : List Char) : Binary64 :=
  match raw.filter (· != '_') with
  | '0' :: c :: rest =>
    match baseOf c with
    | some b => Binary64.ofNat (digitsValue b rest)
    | none =>
      if (c :: rest).all fun d => '0' ≤ d && d ≤ '7' then
        Binary64.ofNat (digitsValue 8 (c :: rest))
      else decimalValue ('0' :: c :: rest)
  | cs => decimalValue cs

/-- The whole number of a literal that ends in `n`, given without the `n`. -/
def bigintValue (raw : List Char) : Nat :=
  match raw.filter (· != '_') with
  | '0' :: c :: rest =>
    match baseOf c with
    | some b => digitsValue b rest
    | none => digitsValue 10 (c :: rest)
  | cs => digitsValue 10 cs

/-- What stands for one character after a backslash. -/
def simpleEscape (c : Char) : Option Char :=
  if c == 'n' then some '\n'
  else if c == 't' then some '\t'
  else if c == 'r' then some '\r'
  else if c == 'b' then some '\x08'
  else if c == 'f' then some '\x0c'
  else if c == 'v' then some '\x0b'
  else none

/-- The digits of a braced escape, up to the brace, and what follows it. -/
def bracedDigits : List Char → Option (List Char × List Char)
  | [] => none
  | '\x7d' :: rest => some ([], rest)
  | c :: rest => (bracedDigits rest).map fun (ds, r) => (c :: ds, r)

/-- Reads the escape after a backslash: its units and what follows. At most three octal digits
are read together. -/
def escapeValue? : List Char → Option (List UInt16 × List Char)
  | [] => none
  | '\r' :: '\n' :: rest => some ([], rest)
  | 'x' :: a :: b :: rest => (hexValue? [a, b]).map fun n => ([n.toUInt16], rest)
  | 'x' :: _ => none
  | 'u' :: '\x7b' :: rest =>
    match bracedDigits rest with
    | some (ds, rest) =>
      match hexValue? ds with
      | some n => if n ≤ 0x10ffff then some (Text.codePointUnits n, rest) else none
      | none => none
    | none => none
  | 'u' :: a :: b :: c :: d :: rest =>
    (hexValue? [a, b, c, d]).map fun n => ([n.toUInt16], rest)
  | 'u' :: _ => none
  | c :: rest =>
    if c == '\n' || c == '\r' || c.toNat == 0x2028 || c.toNat == 0x2029 then some ([], rest)
    else if '0' ≤ c && c ≤ '7' then
      let more := (rest.take (if c ≤ '3' then 2 else 1)).takeWhile fun d => '0' ≤ d && d ≤ '7'
      some ([(digitsValue 8 (c :: more)).toUInt16], rest.drop more.length)
    else match simpleEscape c with
      | some e => some (Text.charUnits e, rest)
      | none => some (Text.charUnits c, rest)

/-- The units that the text between the quotes denotes; each step uses one character or more of
the `fuel`. -/
def stringUnits? : Nat → List Char → Option (List UInt16)
  | _, [] => some []
  | 0, _ => none
  | fuel + 1, '\\' :: rest =>
    match escapeValue? rest with
    | some (us, rest) => (stringUnits? fuel rest).map (us ++ ·)
    | none => none
  | fuel + 1, c :: rest => (stringUnits? fuel rest).map (Text.charUnits c ++ ·)

/-- The units of a string literal, given the text between its quotes. -/
def stringValue? (inner : List Char) : Option (List UInt16) :=
  stringUnits? inner.length inner

end Worklet.Syntax
