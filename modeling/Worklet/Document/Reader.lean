import Worklet.Document.Value
import Worklet.Syntax.Literal

/-!
# Reading documents

* `Document.read` — the value of a text, with the complaint about what stands behind it.
-/

set_option autoImplicit false

namespace Worklet.Document

open Worklet.Syntax (digitsValue hexValue?)

/-- The text that is left, and the number of bytes before it. -/
structure Cursor where
  rest : List Char
  pos : Nat

namespace Cursor

/-- The cursor behind some characters of its text. -/
def skip (c : Cursor) (n : Nat) : Cursor :=
  let taken := c.rest.take n
  ⟨c.rest.drop n, c.pos + taken.foldl (fun k d => k + d.utf8Size) 0⟩

/-- The character may stand between tokens. -/
def isGap (c : Char) : Bool :=
  c == ' ' || c == '\n' || c == '\t' || c == '\r'

/-- The cursor behind the blanks at its head. -/
def blanks (c : Cursor) : Cursor :=
  c.skip (c.rest.takeWhile isGap).length

/-- Where a later complaint is shown. -/
def settled (c : Cursor) (close : Option Char) : Nat :=
  let c := c.blanks
  if c.rest.head?.isSome && c.rest.head? == close then c.pos + 1 else c.pos

/-- Where a complaint about the next character is shown. -/
def peek (c : Cursor) : Nat :=
  if c.rest.isEmpty then c.pos else c.pos + 1

end Cursor

/-- One escape after its backslash: the characters it stands for. -/
def readEscape (c : Cursor) : Except Fault (Char × Cursor) :=
  let simple (d : Char) : Except Fault (Char × Cursor) := .ok (d, c.skip 1)
  let bad (cause : Cause) (n : Nat) : Except Fault (Char × Cursor) := .error ⟨cause, (c.skip n).pos⟩
  match c.rest with
  | [] => .error ⟨.endInString, c.pos⟩
  | '"' :: _ => simple '"'
  | '\\' :: _ => simple '\\'
  | '/' :: _ => simple '/'
  | 'b' :: _ => simple '\x08'
  | 'f' :: _ => simple '\x0c'
  | 'n' :: _ => simple '\n'
  | 'r' :: _ => simple '\r'
  | 't' :: _ => simple '\t'
  | 'u' :: rest =>
    match hexValue? (rest.take 4) with
    | none => bad (if rest.length < 4 then .endInString else .invalidEscape) 5
    | some n =>
      if rest.length < 4 then bad .endInString 5
      else if 0xdc00 ≤ n && n ≤ 0xdfff then bad .loneSurrogate 5
      else if 0xd800 ≤ n && n ≤ 0xdbff then
        match rest.drop 4 with
        | '\\' :: 'u' :: more =>
          match hexValue? (more.take 4) with
          | none => bad .invalidEscape 11
          | some m =>
            if more.length < 4 then bad .endInString 11
            else if 0xdc00 ≤ m && m ≤ 0xdfff then
              .ok (Char.ofNat (0x10000 + (n - 0xd800) * 0x400 + (m - 0xdc00)), c.skip 11)
            else bad .loneSurrogate 11
        | _ => bad .loneSurrogate 6
      else .ok (Char.ofNat n, c.skip 5)
  | _ => bad .invalidEscape 1

/-- The characters of a string after its opening quote, in at most `fuel` steps. -/
def readChars : Nat → Cursor → Except Fault (List Char × Cursor)
  | 0, c => .error ⟨.endInString, c.pos⟩
  | fuel + 1, c =>
    match c.rest with
    | [] => .error ⟨.endInString, c.pos⟩
    | '"' :: _ => .ok ([], c.skip 1)
    | '\\' :: _ => do
      let (d, c) ← readEscape (c.skip 1)
      let (ds, c) ← readChars fuel c
      return (d :: ds, c)
    | d :: _ =>
      if d.toNat < 0x20 then .error ⟨.controlCharacter, (c.skip 1).pos⟩
      else do
        let (ds, c) ← readChars fuel (c.skip 1)
        return (d :: ds, c)

/-- A string whose opening quote is at the head. -/
def readString (fuel : Nat) (c : Cursor) : Except Fault (String × Cursor) := do
  let (ds, c) ← readChars fuel (c.skip 1)
  return (String.ofList ds, c)

def readWord (c : Cursor) (word : String) (value : Scalar) : Except Fault (Scalar × Cursor) :=
  if word.toList.isPrefixOf c.rest then .ok (value, c.skip word.length)
  else
    let agree := (c.rest.zip word.toList).takeWhile fun p => p.1 == p.2
    if c.rest.length ≤ agree.length then .error ⟨.endInValue, (c.skip agree.length).pos⟩
    else .error ⟨.expectedIdent, (c.skip (agree.length + 1)).pos⟩

/-- The value of a number's digits: whole numbers of 64 bits are kept as they are. -/
def numberScalar (isNegative : Bool) (whole fraction : List Char) (exponent : Option Int) :
    Option Scalar :=
  let digits := digitsValue 10 whole
  if fraction.isEmpty && exponent.isNone && !isNegative && digits < Nat.pow 2 64 then
    some (.integer digits)
  else if fraction.isEmpty && exponent.isNone && isNegative && digits != 0 &&
      digits ≤ Nat.pow 2 63 then some (.integer (-(digits : Int)))
  else
    let v := Binary64.ofScientific (digitsValue 10 (whole ++ fraction))
      (exponent.getD 0 - fraction.length)
    if v == .infinite then none else some (.float isNegative v)

def readNumber (c : Cursor) : Except Fault (Scalar × Cursor) :=
  let isNegative := c.rest.head? == some '-'
  let c := if isNegative then c.skip 1 else c
  let whole := c.rest.takeWhile Char.isDigit
  if whole.isEmpty || (whole.length > 1 && whole.head? == some '0') then
    let cause := if c.rest.isEmpty then Cause.endInValue else Cause.invalidNumber
    .error ⟨cause, (c.skip (min 2 (whole.length + 1))).pos⟩
  else
    let c := c.skip whole.length
    let fraction? : Except Fault (List Char × Cursor) := match c.rest with
      | '.' :: rest =>
        let ds := rest.takeWhile Char.isDigit
        if ds.isEmpty then
          .error ⟨if rest.isEmpty then .endInValue else .invalidNumber, (c.skip 2).pos⟩
        else .ok (ds, c.skip (ds.length + 1))
      | _ => .ok ([], c)
    do
      let (fraction, c) ← fraction?
      let exponent? : Except Fault (Option Int × Cursor) := match c.rest with
        | e :: rest =>
          if e == 'e' || e == 'E' then
            let signed := rest.head? == some '+' || rest.head? == some '-'
            let ds := (rest.drop (if signed then 1 else 0)).takeWhile Char.isDigit
            let used := 1 + (if signed then 1 else 0)
            if ds.isEmpty then
              .error ⟨if (c.skip used).rest.isEmpty then .endInValue else .invalidNumber,
                (c.skip (used + 1)).pos⟩
            else
              let n : Int := digitsValue 10 ds
              .ok (some (if rest.head? == some '-' then -n else n), c.skip (used + ds.length))
          else .ok (none, c)
        | [] => .ok (none, c)
      let (exponent, c) ← exponent?
      match numberScalar isNegative whole fraction exponent with
      | some s => return (s, c)
      | none => .error ⟨.numberOutOfRange, c.pos⟩

/-- A scalar at the head of a text. -/
def readScalar (fuel : Nat) (c : Cursor) : Except Fault (Scalar × Cursor) :=
  match c.rest with
  | [] => .error ⟨.endInValue, c.pos⟩
  | 'n' :: _ => readWord c "null" .null
  | 't' :: _ => readWord c "true" (.bool true)
  | 'f' :: _ => readWord c "false" (.bool false)
  | '"' :: _ => do
    let (s, c) ← readString fuel c
    return (.string s, c)
  | d :: _ =>
    if d == '-' || d.isDigit then readNumber c else .error ⟨.expectedValue, c.peek⟩

mutual

/-- A value, inside brackets that `close` ends; the cursor behind it unless the text breaks
off. -/
def readValue : Nat → Option Char → Cursor → Document × Option Cursor
  | 0, _, c => (.broken ⟨.expectedValue, c.pos⟩, none)
  | fuel + 1, close, c =>
    let c := c.blanks
    match c.rest with
    | '[' :: _ =>
      let (items, end_) := readItems fuel true (c.skip 1)
      match end_ with
      | .ok after => (.array items none ⟨c.pos, after.settled close⟩, some after)
      | .error f => (.array items (some f) ⟨c.pos, c.pos⟩, none)
    | '\x7b' :: _ =>
      let (members, end_) := readMembers fuel true (c.skip 1)
      match end_ with
      | .ok after => (.object members none ⟨c.pos, after.settled close⟩, some after)
      | .error f => (.object members (some f) ⟨c.pos, c.pos⟩, none)
    | _ =>
      match readScalar (c.rest.length + 1) c with
      | .ok (v, after) => (.scalar v ⟨after.pos, after.settled close⟩, some after)
      | .error f => (.broken f, none)

/-- The items of a list up to its end. -/
def readItems : Nat → Bool → Cursor → List Document × Except Fault Cursor
  | 0, _, c => ([], .error ⟨.expectedListEnd, c.pos⟩)
  | fuel + 1, isFirst, c =>
    let c := c.blanks
    match c.rest with
    | [] => ([], .error ⟨.endInList, c.pos⟩)
    | ']' :: _ => ([], .ok (c.skip 1))
    | d :: _ =>
      if !isFirst && d != ',' then ([], .error ⟨.expectedListEnd, c.peek⟩)
      else
        let c := if isFirst then c else (c.skip 1).blanks
        if !isFirst && c.rest.head? == some ']' then ([], .error ⟨.trailingComma, c.peek⟩)
        else if c.rest.isEmpty then ([], .error ⟨.endInValue, c.pos⟩)
        else
          match readValue fuel (some ']') c with
          | (v, none) => ([v], .error ⟨.expectedValue, c.pos⟩)
          | (v, some c) =>
            let (vs, end_) := readItems fuel false c
            (v :: vs, end_)

/-- The members of an object up to its end. -/
def readMembers : Nat → Bool → Cursor → List (Key × Document) × Except Fault Cursor
  | 0, _, c => ([], .error ⟨.expectedObjectEnd, c.pos⟩)
  | fuel + 1, isFirst, c =>
    let c := c.blanks
    match c.rest with
    | [] => ([], .error ⟨.endInObject, c.pos⟩)
    | '\x7d' :: _ => ([], .ok (c.skip 1))
    | d :: _ =>
      if !isFirst && d != ',' then ([], .error ⟨.expectedObjectEnd, c.peek⟩)
      else
        let c := if isFirst then c else (c.skip 1).blanks
        match c.rest with
        | [] => ([], .error ⟨.endInValue, c.pos⟩)
        | '"' :: _ =>
          match readString (c.rest.length + 1) c with
          | .error f => ([], .error f)
          | .ok (key, after) =>
            let k : Key := ⟨key, ⟨after.pos, after.settled (some '\x7d')⟩⟩
            let c := after.blanks
            match c.rest with
            | ':' :: _ =>
              match readValue fuel (some '\x7d') (c.skip 1) with
              | (v, none) => ([(k, v)], .error ⟨.expectedValue, c.pos⟩)
              | (v, some c) =>
                let (ms, end_) := readMembers fuel false c
                ((k, v) :: ms, end_)
            | [] => ([(k, .broken ⟨.endInObject, c.pos⟩)], .error ⟨.endInObject, c.pos⟩)
            | _ => ([(k, .broken ⟨.expectedColon, c.peek⟩)], .error ⟨.expectedColon, c.peek⟩)
        | '\x7d' :: _ => ([], .error ⟨.trailingComma, c.peek⟩)
        | _ => ([], .error ⟨.keyMustBeString, c.peek⟩)

end

/-- The value at the head of a text, and the complaint about what stands behind it. -/
def read (text : String) : Document × Option Fault :=
  let cs := text.toList
  match readValue (2 * cs.length + 2) none ⟨cs, 0⟩ with
  | (v, none) => (v, none)
  | (v, some c) =>
    let c := c.blanks
    (v, if c.rest.isEmpty then none else some ⟨.trailingCharacters, c.peek⟩)

end Worklet.Document
