import Worklet.Syntax.Entity
import Worklet.Syntax.Parse.TypeExpr

/-!
# Elements of markup

An element stands where an expression may stand. Its text is no sequence of tokens, so the
reader here looks at the characters after the token at hand. A rule ends with the last sign of
the element at hand, because what follows is text inside an element and tokens outside one.
-/

set_option autoImplicit false

namespace Worklet.Syntax

/-- What follows a token of markup is not a trailing block comment of it. -/
def markupTrail : Trail := ⟨false, true⟩

/-- Goes past the token at hand, a sign of markup. -/
def advanceMarkup : Parser Unit :=
  modify fun s => s.scan s.rest s.token.span.hi markupTrail

/-- Goes past the sign, which must be at hand. -/
def expectMarkup (t : String) : Parser Unit := do
  if ← isPunct t then advanceMarkup else unexpected

/-- A name in which hyphens may stand. -/
def markupName : Parser (String × Span) := do
  let s ← get
  match s.token.kind with
  | .name w _ =>
    let more := s.rest.takeWhile fun c => Text.isIdentPart c || c == '-'
    let hi := s.token.span.hi + byteCount more
    set (s.scan (s.rest.drop more.length) hi markupTrail)
    return (w ++ String.ofList more, ⟨s.token.span.lo, hi⟩)
  | _ => unexpected

def elementName : Parser Ast := do
  let (w, span) ← markupName
  if ← isPunct ":" then
    advanceMarkup
    let (v, vspan) ← markupName
    mk span.lo .jsxNamespaced [.node (.word w) span [], .node (.word v) vspan []]
  else
    iterate (fun left => do
      if ← isPunct "." then
        advanceMarkup
        let (v, vspan) ← markupName
        return some (← mk span.lo .jsxMember [left, .node (.word v) vspan []])
      else return none) (.node (.ident w) span [])

def attributeName : Parser Ast := do
  let (w, span) ← markupName
  if ← isPunct ":" then
    advanceMarkup
    let (v, vspan) ← markupName
    mk span.lo .jsxNamespaced [.node (.word w) span [], .node (.word v) vspan []]
  else return .node (.word w) span []

/-- The end of the braces around an expression: the last sign stays at hand. -/
def closingBrace : Parser Nat := do
  unless ← isPunct "\x7d" do unexpected
  return (← current).span.hi

/-- An expression in braces; the closing brace stays at hand. -/
def container (go : Rules) : Parser Ast := do
  let lo ← here
  expect "\x7b"
  if ← isPunct "\x7d" then
    let at_ := (← get).lastEnd
    let hi ← closingBrace
    return .node .jsxContainer ⟨lo, hi⟩ [.node .jsxEmpty ⟨at_, at_⟩ []]
  else if ← isPunct "..." then
    advance
    let e ← go .expr
    let hi ← closingBrace
    return .node .jsxSpreadChild ⟨lo, hi⟩ [e]
  else
    let e ← go .expr
    let hi ← closingBrace
    return .node .jsxContainer ⟨lo, hi⟩ [e]

/-- The value of an attribute after its equals sign, which is at hand. A quoted value has no
escapes and may span lines. -/
def attributeValue (go : Rules) : Parser Ast := do
  let s ← get
  let skipped := skip markupTrail (s.limit + 1)
    { rest := s.rest, pos := s.token.span.hi, afterBreak := false, leading := [],
      trailing := [] }
  match skipped.rest with
  | c :: rest =>
    if c == '"' || c == '\x27' then
      let inner := rest.takeWhile (· != c)
      let after := rest.drop inner.length
      match after with
      | _ :: after =>
        let raw := c :: inner ++ [c]
        let lo := skipped.pos
        let hi := lo + byteCount raw
        set (s.scan after hi ⟨true, true⟩)
        return .node (.strLit (entityUnits inner) (some (String.ofList raw))) ⟨lo, hi⟩ []
      | [] => failAt skipped.pos .unterminatedString
    else
      advanceMarkup
      if ← isPunct "\x7b" then
        let e ← container go
        advanceMarkup
        return e
      else if ← isPunct "<" then
        let e ← go .markup
        advanceMarkup
        return e
      else unexpected
  | [] =>
    advanceMarkup
    unexpected

/-- An attribute, or several spread from an object. -/
def markupAttr (go : Rules) : Parser Ast := do
  let lo ← here
  if ← isPunct "\x7b" then
    advance
    let slo ← here
    expect "..."
    let e ← go .assign
    let spread ← mk slo .spread [e]
    expectMarkup "\x7d"
    return spread
  else
    let name ← attributeName
    if ← isPunct "=" then
      let v ← attributeValue go
      mk lo .jsxAttr [name, v]
    else mk lo .jsxAttr [name, .absent]

/-- Text up to the next sign of markup, and what follows. -/
def markupText (cs : List Char) : List Char :=
  cs.takeWhile fun c => c != '<' && c != '\x7b'

/-- The children of an element after its opening tag, whose last sign is at hand. Ends with the
`<` of the closing tag at hand. -/
def markupChildren (go : Rules) : Parser (List Ast) := do
  let children ← many do
    let s ← get
    if s.token.kind == .punct "<" then return none
    let text := markupText s.rest
    let lo := s.token.span.hi
    let hi := lo + byteCount text
    let node : List Ast :=
      if text.isEmpty then [] else [.node (.jsxText (String.ofList text)) ⟨lo, hi⟩ []]
    set (s.scan (s.rest.drop text.length) hi markupTrail)
    if ← isPunct "\x7b" then
      let e ← container go
      return some (node ++ [e])
    else if ← isPunct "<" then
      if (← next).kind.isPunct "/" then return some node
      let e ← go .markup
      return some (node ++ [e])
    else unexpected
  return children.flatten

/-- An element or a fragment from its `<`; the last `>` stays at hand. -/
def markupRule (go : Rules) : Parser Ast := do
  let lo ← here
  expectMarkup "<"
  if ← isPunct ">" then
    let children ← markupChildren go
    expectMarkup "<"
    expectMarkup "/"
    unless ← isPunct ">" do unexpected
    return .node .jsxFragment ⟨lo, (← current).span.hi⟩ children
  let name ← elementName
  let args ← if ← isTyped then typeArgs? go else pure .absent
  let attrs ← many do
    if (← isPunct "/") || (← isPunct ">") then return none
    else return some (← markupAttr go)
  if ← isPunct "/" then
    advanceMarkup
    unless ← isPunct ">" do unexpected
    let span : Span := ⟨lo, (← current).span.hi⟩
    let opening := Ast.node (.jsxOpening true) span [name, .list attrs, args]
    return .node .jsxElement span [opening, .list [], .absent]
  let opening := Ast.node (.jsxOpening false) ⟨lo, (← current).span.hi⟩
    [name, .list attrs, args]
  let children ← markupChildren go
  let clo ← here
  expectMarkup "<"
  expectMarkup "/"
  let cname ← elementName
  unless ← isPunct ">" do unexpected
  let hi := (← current).span.hi
  let closing := Ast.node .jsxClosing ⟨clo, hi⟩ [cname]
  return .node .jsxElement ⟨lo, hi⟩ [opening, .list children, closing]

end Worklet.Syntax
