import Worklet.Syntax.Fault
import Worklet.Syntax.Literal
import Worklet.Syntax.Span
import Worklet.Text.Ident

/-!
# Tokens

The longest piece of text at a place that forms a word, a sign or a literal. A sign `>` is
always read alone, because a list of types may end with several; a `/` is read as an operator,
and a backquote alone: whoever reads an expression continues from there.

* `TokenKind`, `Token` — what a token is and where it stands.
-/

set_option autoImplicit false

namespace Worklet.Syntax

inductive TokenKind where
  | punct (text : String)
  /-- A word, reserved or not; an escaped one is never a reserved word. -/
  | name (text : String) (isEscaped : Bool)
  | privateName (text : String)
  | num (value : Binary64)
  | bigint (value : Nat)
  | str (value : List UInt16)
  | endOfFile
  | bad (fault : Fault)
  deriving DecidableEq, Repr, Inhabited

/-- A token with its place; `afterBreak` tells whether a line break stands before it. -/
structure Token where
  kind : TokenKind
  span : Span
  afterBreak : Bool
  raw : List Char
  deriving DecidableEq, Repr, Inhabited

/-- The number of bytes of a text. -/
def byteCount (cs : List Char) : Nat :=
  cs.foldl (fun n c => n + c.utf8Size) 0

/-- The character ends a line. -/
def isLineBreak (c : Char) : Bool :=
  c == '\n' || c == '\r' || c.toNat == 0x2028 || c.toNat == 0x2029

/-- The character may stand between tokens and ends no line. -/
def isTokenBlank (c : Char) : Bool :=
  let n := c.toNat
  n == 0x9 || n == 0xb || n == 0xc || n == 0x20 || n == 0xa0 || n == 0xfeff || n == 0x1680 ||
    (0x2000 ≤ n && n ≤ 0x200a) || n == 0x202f || n == 0x205f || n == 0x3000

/-- The signs, a longer one before its beginnings. -/
def signs : List (List Char) :=
  ["...", "===", "!==", "**=", "<<=", "&&=", "||=", "??=",
    "=>", "==", "!=", "<=", "++", "--", "**", "<<", "&&", "||", "??", "?.", "+=", "-=", "*=",
    "/=", "%=", "&=", "|=", "^=",
    "\x7b", "\x7d", "(", ")", "[", "]", ";", ",", "<", ">", "+", "-", "*", "/", "%", "&", "|",
    "^", "!", "~", "?", ":", "=", ".", "@", "`"].map String.toList

/-- The sign at the head of a text. A `?.` before a digit is a question mark. -/
def readSign? (cs : List Char) : Option (List Char) :=
  let sign? := signs.find? fun s => s.isPrefixOf cs
  match sign?, cs with
  | some ['?', '.'], '?' :: '.' :: d :: _ => if d.isDigit then some ['?'] else sign?
  | s, _ => s

/-- Reads the characters of a word, with its escapes decoded: the written characters, the
characters they stand for, and what follows. `none` if an escape is malformed. -/
def readWord : Nat → List Char → Option (List Char × List Char × List Char)
  | 0, cs => some ([], [], cs)
  | _, [] => some ([], [], [])
  | fuel + 1, '\\' :: 'u' :: rest =>
    match escapeValue? ('u' :: rest) with
    | some (us, after) =>
      match Text.ofUnits? us with
      | some s =>
        if s.toList.all Text.isIdentPart then
          (readWord fuel after).map fun (written, meant, r) =>
            ('\\' :: 'u' :: rest.take (rest.length - after.length) ++ written,
              s.toList ++ meant, r)
        else none
      | none => none
    | none => none
  | fuel + 1, c :: rest =>
    if Text.isIdentPart c then
      (readWord fuel rest).map fun (written, meant, r) => (c :: written, c :: meant, r)
    else if c == '\\' then none
    else some ([], [], c :: rest)

/-- The characters of a string literal after its opening quote: those up to the closing quote,
and what follows it. -/
def readQuoted (quote : Char) : List Char → Option (List Char × List Char)
  | [] => none
  | '\\' :: c :: rest => (readQuoted quote rest).map fun (i, r) => ('\\' :: c :: i, r)
  | c :: rest =>
    if c == quote then some ([], rest)
    else if c == '\n' || c == '\r' then none
    else (readQuoted quote rest).map fun (i, r) => (c :: i, r)

/-- The exponent at the head of a text, if there is one: a mark, an optional sign, digits. -/
def readExponent (cs : List Char) : List Char :=
  let isDigit (c : Char) : Bool := c.isDigit || c == '_'
  match cs with
  | e :: rest =>
    if e == 'e' || e == 'E' then
      match rest with
      | s :: rest' =>
        if s == '+' || s == '-' then e :: s :: rest'.takeWhile isDigit
        else e :: rest.takeWhile isDigit
      | [] => [e]
    else []
  | [] => []

/-- The characters of the numeric literal at the head of a text. -/
def numberChars (cs : List Char) : List Char :=
  let isDigit (c : Char) : Bool := c.isDigit || c == '_'
  match cs with
  | '0' :: c :: rest =>
    if (baseOf c).isSome then '0' :: c :: rest.takeWhile fun d => isHexDigit d || d == '_'
    else decimal isDigit cs
  | _ => decimal isDigit cs
where
  decimal (isDigit : Char → Bool) (cs : List Char) : List Char :=
    let whole := cs.takeWhile isDigit
    let rest := cs.drop whole.length
    let fraction := match rest with
      | '.' :: r => '.' :: r.takeWhile isDigit
      | _ => []
    let rest := rest.drop fraction.length
    whole ++ fraction ++ readExponent rest

/-- The digits of the literal are all below its base, and there are some. -/
def numberIsSound (raw : List Char) : Bool :=
  match raw with
  | '0' :: c :: rest =>
    match baseOf c with
    | some b => !rest.isEmpty && rest.all fun d => d == '_' || digitValue d < b
    | none => raw.getLast? != some 'e' && raw.getLast? != some 'E' && raw.getLast? != some '_'
  | _ => raw.getLast? != some 'e' && raw.getLast? != some 'E' && raw.getLast? != some '_'

/-- The numeric literal at the head of a text. A word must not follow it directly. -/
def readNumber (cs : List Char) : TokenKind × List Char × List Char :=
  let raw := numberChars cs
  let rest := cs.drop raw.length
  let (isBig, written, rest) := match rest with
    | 'n' :: r => (true, raw ++ ['n'], r)
    | r => (false, raw, r)
  let runsOn := match rest with
    | c :: _ => Text.isIdentStart c || c == '\\'
    | [] => false
  if runsOn || !numberIsSound raw then (.bad .badNumber, written, rest)
  else if isBig then (.bigint (bigintValue raw), written, rest)
  else (.num (numberValue raw), written, rest)

/-- The string literal at the head of a text. -/
def readString (quote : Char) (cs : List Char) : TokenKind × List Char × List Char :=
  match readQuoted quote cs with
  | some (inner, rest) =>
    let raw := quote :: inner ++ [quote]
    match stringValue? inner with
    | some us => (.str us, raw, rest)
    | none => (.bad .badEscape, raw, rest)
  | none => (.bad .unterminatedString, quote :: cs, [])

/-- The token at the head of a text that begins with no blank and no comment: what it is, its
characters, what follows them. -/
def readToken (cs : List Char) : TokenKind × List Char × List Char :=
  match cs with
  | [] => (.endOfFile, [], [])
  | c :: rest =>
    if Text.isIdentStart c || c == '\\' then
      match readWord cs.length cs with
      | some (written, meant, rest) =>
        if written.isEmpty then (.bad (.badCharacter c), [c], rest)
        else (.name (String.ofList meant) (written.length != meant.length), written, rest)
      | none => (.bad .badEscape, [c], rest)
    else if c.isDigit || (c == '.' && (rest.head?.map Char.isDigit).getD false) then
      readNumber cs
    else if c == '"' || c == '\x27' then readString c rest
    else if c == '#' then
      match readWord rest.length rest with
      | some (written, meant, after) =>
        if written.isEmpty then (.bad (.badCharacter '#'), [c], rest)
        else (.privateName (String.ofList meant), c :: written, after)
      | none => (.bad .badEscape, [c], rest)
    else
      match readSign? cs with
      | some s => (.punct (String.ofList s), s, cs.drop s.length)
      | none => (.bad (.badCharacter c), [c], rest)

end Worklet.Syntax
