import Worklet.Number.Shortest
import Worklet.Syntax.Literal
import Worklet.Syntax.Print.Out
import Worklet.Text.Quoted

/-!
# Texts of literals

* `numberText`, `stringText`, `bigintText` — what is printed for a literal in a style.
-/

set_option autoImplicit false

namespace Worklet.Syntax

/-- Hexadecimal digits of a unit, four of them, in capitals. -/
def upperHex4 (n : Nat) : String :=
  let ds := (Text.hex n).toUpper
  "".pushn '0' (4 - ds.length) ++ ds

/-- Two lower-case hexadecimal digits. -/
def lowerHex2 (n : Nat) : String :=
  let ds := Text.hex n
  "".pushn '0' (2 - ds.length) ++ ds

/-- The escape of a character inside a string literal, and how it is affected by the character
after it. -/
def quotedScalar (target : Target) (quote : Char) (next : Option Text.Scalar) :
    Text.Scalar → String
  | .lone u => "\\u" ++ upperHex4 u.toNat
  | .char c =>
    let n := c.toNat
    if n == 0 then
      let beforeDigit := match next with
        | some (.char d) => d.isDigit
        | _ => false
      if target == .es3 || beforeDigit then "\\x00" else "\\0"
    else if n == 0x8 then "\\b"
    else if n == 0xc then "\\f"
    else if n == 0xa then "\\n"
    else if n == 0xd then "\\r"
    else if n == 0xb then "\\v"
    else if n == 0x9 then "\t"
    else if c == '\\' then "\\\\"
    else if c == quote then "\\" ++ c.toString
    else if n < 0x20 then "\\x" ++ lowerHex2 n
    else if n < 0x7f then c.toString
    else if n ≤ 0xff then if target.isLegacy then "\\x" ++ lowerHex2 n else c.toString
    else if n == 0x2028 then "\\u2028"
    else if n == 0x2029 then "\\u2029"
    else if n == 0xfeff then "\\uFEFF"
    else if n > 0xffff && target.isLegacy then
      String.join ((Text.charUnits c).map fun u => "\\u" ++ upperHex4 u.toNat)
    else c.toString

/-- The characters of a string literal between its quotes. -/
def quotedScalars (target : Target) (quote : Char) : List Text.Scalar → String
  | [] => ""
  | s :: rest => quotedScalar target quote rest.head? s ++ quotedScalars target quote rest

/-- A string literal. It stands between double quotes, unless it holds more of them than single
ones. -/
def quoteUnits (target : Target) (us : List UInt16) : String :=
  let quote := if us.count 0x22 > us.count 0x27 then '\x27' else '"'
  quote.toString ++ quotedScalars target quote (Text.scalars us) ++ quote.toString

/-- The escape with braces occurs in the text. -/
def hasBracedEscape : List Char → Bool
  | '\\' :: 'u' :: '\x7b' :: _ => true
  | '\\' :: _ :: rest => hasBracedEscape rest
  | _ :: rest => hasBracedEscape rest
  | [] => false

/-- A string literal in a style: as written, or in the shorter form. -/
def stringText (style : Style) (us : List UInt16) (raw : Option String) : String :=
  match raw with
  | some r =>
    if style.isCompact || (style.target.isLegacy && hasBracedEscape r.toList) then
      quoteUnits style.target us
    else r
  | none => quoteUnits style.target us

/-- The shortest text of a number. Large whole numbers are hexadecimal, three or more zeros at
the end or after the point become an exponent. -/
def compactNumber (v : Binary64) : String :=
  match v with
  | .infinite => "Infinity"
  | v =>
    let whole? := (v.toNat?.filter fun n => n ≤ Nat.pow 2 64).map fun n => min n (Nat.pow 2 64 - 1)
    match whole?.filter fun n => n ≥ Nat.pow 10 7 && n % 1000 != 0 with
    | some n => "0x" ++ Text.hex n
    | none =>
      let t := v.positional.toList
      match t with
      | '0' :: '.' :: ds =>
        let zeros := (ds.takeWhile (· == '0')).length
        if zeros > 2 then String.ofList (ds.drop zeros) ++ "e-" ++ toString ds.length
        else String.ofList ('.' :: ds)
      | _ =>
        let zeros := (t.reverse.takeWhile (· == '0')).length
        if zeros ≥ 3 then
          String.ofList (t.take (t.length - zeros)) ++ "e" ++ toString zeros
        else String.ofList t

def numberText (style : Style) (v : Binary64) (raw : Option String) : String :=
  if style.isCompact then compactNumber v
  else
    match raw with
    | none => if v == .infinite then "Infinity" else v.positional
    | some r =>
      let base? := (r.toList.drop 1).head?.bind baseOf
      let isBased := r.toList.head? == some '0' && (base? == some 2 || base? == some 8)
      if r.length > 2 && style.target.isLegacy && isBased then
        if v == .infinite then r else v.positional
      else if r.length > 2 && style.target.isBefore .es2021 && r.toList.contains '_' then
        String.ofList (r.toList.filter (· != '_'))
      else r

/-- The text of a number would swallow a dot that follows it. -/
def swallowsDot (style : Style) (v : Binary64) (raw : Option String) : Bool :=
  let written := numberText style v raw
  if v == .infinite && raw.isNone then false
  else if style.isCompact || raw.isNone then
    !(written.toList.contains '.' || written.toList.contains 'e' || written.startsWith "0x")
  else
    let ds := written.toList.filter (· != '_')
    ds.all Char.isDigit && !(ds.length ≥ 2 && ds.head? == some '0')

/-- The text of a whole number with its suffix. -/
def bigintText (style : Style) (v : Nat) (raw : Option String) : String :=
  if style.isCompact then
    if v ≥ Nat.pow 10 16 then "0x" ++ Text.hex v ++ "n" else toString v ++ "n"
  else
    match raw with
    | some r =>
      if style.target.isBefore .es2021 then String.ofList (r.toList.filter (· != '_')) else r
    | none => toString v ++ "n"

/-! ### Templates -/

/-- Line ends of a template are line feeds. -/
def templateLines : List Char → List Char
  | '\r' :: '\n' :: rest => '\n' :: templateLines rest
  | '\r' :: rest => '\n' :: templateLines rest
  | c :: rest => c :: templateLines rest
  | [] => []

/-- What an escape of two hexadecimal digits becomes; `next` is the character after it. -/
def templateHex (n : Nat) (next : Option Char) : String :=
  if n == 0 then
    match next with
    | some d => if '1' ≤ d && d ≤ '9' then "\\x00" else "\\0"
    | none => "\\0"
  else if 32 ≤ n && n ≤ 126 then (Char.ofNat n).toString
  else "\\x" ++ lowerHex2 n

/-- A character of a template that stands for itself. -/
def templateChar (c : Char) (next : Option Char) : String :=
  let n := c.toNat
  if n == 0 then
    match next with
    | some d => if '1' ≤ d && d ≤ '9' then "\\x00" else "\\0"
    | none => "\\0"
  else if n == 0x8 then "\\b"
  else if n == 0xc then "\\f"
  else if n == 0xb then "\\v"
  else if 0x7f ≤ n && n ≤ 0xff then "\\x" ++ lowerHex2 n
  else if n == 0x2028 then "\\u2028"
  else if n == 0x2029 then "\\u2029"
  else if n == 0xfeff then "\\uFEFF"
  else c.toString

/-- The text of a template with the escapes that it needs. `seen` tells that a dollar sign has
been written. An escape `\x` takes the character after its two digits along as it is. Each step
uses one character or more of the `fuel`. -/
def compactTemplateUpTo : Nat → Bool → List Char → String
  | _, _, [] => ""
  | 0, _, _ => ""
  | fuel + 1, seen, '\\' :: 'x' :: rest =>
    let ds := (rest.take 2).takeWhile isHexDigit
    let rest := rest.drop ds.length
    let kept := match rest with
      | c :: _ => c.toString
      | [] => ""
    templateHex (digitsValue 16 ds) rest.head? ++ kept ++
      compactTemplateUpTo fuel seen (rest.drop 1)
  | fuel + 1, seen, ['\\'] => "\\" ++ compactTemplateUpTo fuel seen []
  | fuel + 1, seen, '\\' :: c :: rest =>
    let n := c.toNat
    if c == 'n' then "\n" ++ compactTemplateUpTo fuel seen rest
    else if c == 't' then "\t" ++ compactTemplateUpTo fuel seen rest
    else if n == 0x2028 || n == 0x2029 then compactTemplateUpTo fuel seen rest
    else if ['\\', 'r', 'v', 'b', 'f', 'u', '\r', '\n', '`'].contains c || ('0' ≤ c && c ≤ '7') then
      "\\" ++ c.toString ++ compactTemplateUpTo fuel seen rest
    else if c == '$' then
      if rest.head? == some '\x7b' then "\\$" ++ compactTemplateUpTo fuel seen rest
      else "$" ++ compactTemplateUpTo fuel true rest
    else if c == '\x7b' && seen then "\\\x7b" ++ compactTemplateUpTo fuel false rest
    else templateChar c rest.head? ++ compactTemplateUpTo fuel seen rest
  | fuel + 1, seen, c :: rest =>
    templateChar c rest.head? ++ compactTemplateUpTo fuel (seen || c == '$') rest

/-- The text of a template with its needless escapes removed. -/
def compactTemplate (cs : List Char) : String :=
  compactTemplateUpTo cs.length false cs

def quasiText (style : Style) (raw : String) : String :=
  let cs := templateLines raw.toList
  if style.isCompact then compactTemplate cs else String.ofList cs

end Worklet.Syntax
