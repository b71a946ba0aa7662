import Worklet.Syntax.Reader

/-!
# What can be read

The grammar is written as open rules: a rule reads its own signs and words and asks for its
parts by their goals. The rules are tied together, with a bound on the depth of nesting, in
`Worklet.Syntax.Parse`.

* `bindingName`, `propertyKey` and other small parts.
-/

set_option autoImplicit false

namespace Worklet.Syntax

/-- A part of the grammar. -/
inductive Goal where
  /-- Expressions divided by commas. -/
  | expr
  /-- An expression without a comma. -/
  | assign
  /-- Operands joined by operators that bind tighter than `least`. -/
  | binary (least : Nat)
  | unary
  /-- A primary expression with its members and calls. -/
  | operand
  /-- The class of a `new` expression: members, but no calls. -/
  | newOperand
  /-- What a declaration binds: a name or a pattern. -/
  | target
  /-- A target that may have a default. -/
  | element
  | type
  | typeOperator
  | block
  | statement
  /-- A statement or a declaration of a module. -/
  | item
  /-- An element of markup; its last token stays at hand. -/
  | markup
  deriving DecidableEq, Repr, Inhabited

/-- A way to read each goal. -/
abbrev Rules := Goal → Parser Ast

/-- The word cannot name a binding. -/
def isReserved (w : String) : Bool :=
  reservedWords.contains w

/-- The token is a name that may be bound. -/
def TokenKind.isBindable : TokenKind → Bool
  | .name w isEscaped => isEscaped || !isReserved w
  | _ => false

/-- The token is a word of any sort. -/
def TokenKind.isName : TokenKind → Bool
  | .name .. => true
  | _ => false

def TokenKind.isPunct (k : TokenKind) (t : String) : Bool :=
  k == .punct t

def TokenKind.isWord (k : TokenKind) (w : String) : Bool :=
  k == .name w false

/-- A name that refers to or declares a binding. -/
def bindingName : Parser Ast := do
  let t ← current
  match t.kind with
  | .name w isEscaped =>
    if isEscaped || !isReserved w then
      advance
      return .node (.ident w) t.span []
    else unexpected
  | _ => unexpected

/-- Any word, as a name that is only spelled. -/
def anyWord : Parser Ast := do
  let t ← current
  match t.kind with
  | .name w _ =>
    advance
    return .node (.word w) t.span []
  | _ => unexpected

/-- Any word, as a name that counts as used. -/
def anyIdent : Parser Ast := do
  let t ← current
  match t.kind with
  | .name w _ =>
    advance
    return .node (.ident w) t.span []
  | _ => unexpected

def stringLit : Parser Ast := do
  let t ← current
  match t.kind with
  | .str us =>
    advance
    return .node (.strLit us (some (String.ofList t.raw))) t.span []
  | _ => unexpected

/-- A name of a module's binding, which may be written as a string. -/
def exportedName : Parser Ast := do
  match (← current).kind with
  | .str _ => stringLit
  | _ => anyIdent

def propertyKey (go : Rules) : Parser Ast := do
  let t ← current
  match t.kind with
  | .name w _ =>
    advance
    return .node (.word w) t.span []
  | .str us =>
    advance
    return .node (.strLit us (some (String.ofList t.raw))) t.span []
  | .num v =>
    advance
    return .node (.numLit v (some (String.ofList t.raw))) t.span []
  | .bigint v =>
    advance
    return .node (.bigintLit v (some (String.ofList t.raw))) t.span []
  | .punct "[" =>
    advance
    let e ← withContext (fun c => { c with allowIn := true, expectColon := false }) (go .assign)
    expect "]"
    mk t.span.lo .computed [e]
  | _ => unexpected

/-- A type after a colon, if there is one. -/
def typeAnnotation? (go : Rules) : Parser Ast := do
  let lo ← here
  if (← isTyped) && (← isPunct ":") then
    advance
    let t ← go .type
    mk lo .typeAnn [t]
  else return .absent

/-- A decorator begins with a name or in parentheses. -/
def decorator (go : Rules) : Parser Ast := do
  let lo ← here
  expect "@"
  let t ← current
  if t.kind.isBindable || t.kind.isPunct "(" then
    let e ← go .operand
    mk lo .decorator [e]
  else unexpected

def decorators (go : Rules) : Parser (List Ast) :=
  many do
    if (← get).dialect.hasDecorators && (← isPunct "@") then return some (← decorator go)
    else return none

end Worklet.Syntax
