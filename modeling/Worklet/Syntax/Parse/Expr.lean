import Worklet.Syntax.Parse.Function
import Worklet.Syntax.Parse.Markup

/-!
# Expressions

* `exprRule`, `assignRule`, `binaryRule`, `unaryRule`, `operandRule`, `newOperandRule` — the
  levels of the grammar of expressions, from loose to tight.
-/

set_option autoImplicit false

namespace Worklet.Syntax

/-- The context inside brackets: nothing around them matters, but for generators. -/
def inside (c : Context) : Context :=
  { c with allowIn := true, expectColon := false, allowConditionalType := true }

/-! ### Literals -/

/-- The body of a regular expression after its first slash: the characters up to the closing
slash, and what follows it. -/
def regexBody (inClass : Bool) : List Char → Option (List Char × List Char)
  | [] => none
  | '\\' :: c :: rest =>
    if isLineBreak c then none
    else (regexBody inClass rest).map fun (b, r) => ('\\' :: c :: b, r)
  | c :: rest =>
    if isLineBreak c then none
    else if c == '/' && !inClass then some ([], rest)
    else
      let inClass := if c == '[' then true else if c == ']' then false else inClass
      (regexBody inClass rest).map fun (b, r) => (c :: b, r)

/-- A regular expression whose first slash is at hand. -/
def regexLit : Parser Ast := do
  let s ← get
  let lo := s.token.span.lo
  match regexBody false (s.token.raw.drop 1 ++ s.rest) with
  | none => failAt lo .unterminatedRegex
  | some (body, rest) =>
    let flags := rest.takeWhile Text.isIdentPart
    let hi := lo + 2 + byteCount body + byteCount flags
    set (s.scan (rest.drop flags.length) hi ⟨true, true⟩)
    return .node (.regexLit (String.ofList body) (String.ofList flags)) ⟨lo, hi⟩ []

/-- A template whose backquote is at hand. -/
def templateLit (go : Rules) : Parser Ast := do
  let lo ← here
  let (es, texts) ← templateParts (go .expr)
  templateEnd
  mk lo .template [.list es, .list texts]

/-! ### Arrays and objects -/

/-- An expression, or several spread from one. -/
def spreadable (go : Rules) : Parser Ast := do
  let lo ← here
  if ← eat "..." then
    let e ← go .assign
    mk lo .spread [e]
  else go .assign

def arrayLit (go : Rules) : Parser Ast := do
  let lo ← here
  expect "["
  let elements ← withContext inside <| many do
    if ← isPunct "]" then return none
    if ← eat "," then return some .absent
    let e ← spreadable go
    unless ← isPunct "]" do expect ","
    return some e
  expect "]"
  mk lo .array elements

/-- The token after a word tells that the word is the key of a property. -/
def endsPropertyName (k : TokenKind) : Bool :=
  match k with
  | .punct t => ["(", "<", ":", ",", "\x7d", "="].contains t
  | .endOfFile => true
  | _ => false

/-- A method from its key on. -/
def methodFrom (go : Rules) (lo : Nat) (isAsync isGenerator : Bool) : Parser Ast := do
  let key ← propertyKey go
  let f ← functionRest go lo [] isAsync isGenerator
  mk lo .method [key, f]

def getterFrom (go : Rules) (lo : Nat) : Parser Ast := do
  let key ← propertyKey go
  expect "("
  expect ")"
  let ann ← returnType? go
  let body ← functionBody go false
  mk lo .getter [key, ann, body]

def setterFrom (go : Rules) (lo : Nat) : Parser Ast := do
  let key ← propertyKey go
  let ps ← arrowParams go
  let _ ← returnType? go
  let body ← functionBody go false
  match ps with
  | [p] => mk lo .setter [key, .absent, p, body]
  | [this, p] => mk lo .setter [key, this, p, body]
  | _ => failAt lo (.unexpectedToken "set")

/-- A property from its key on, which begins with the token `t`. -/
def keyedProperty (go : Rules) (t : Token) : Parser Ast := do
  let lo := t.span.lo
  let key ← propertyKey go
  if (← isPunct "(") || (← isPunct "<") then
    let f ← functionRest go lo [] false false
    return ← mk lo .method [key, f]
  if ← eat ":" then
    let v ← go .assign
    return ← mk lo .keyValue [key, v]
  match key with
  | .node (.word w) s _ =>
    if t.kind.isBindable then
      let name := Ast.node (.ident w) s []
      if ← eat "=" then
        let v ← go .assign
        mk lo .nameWithDefault [name, v]
      else return name
    else unexpected
  | _ => unexpected

/-- A property of an object literal. -/
def property (go : Rules) : Parser Ast := do
  let t ← current
  let lo := t.span.lo
  let after ← next
  if t.kind.isPunct "..." then return ← spreadable go
  if ← eat "*" then return ← methodFrom go lo false true
  unless endsPropertyName after.kind do
    match t.kind with
    | .name "get" false => advance; return ← getterFrom go lo
    | .name "set" false => advance; return ← setterFrom go lo
    | .name "async" false =>
      unless after.afterBreak do
        advance
        let isGenerator ← eat "*"
        return ← methodFrom go lo true isGenerator
    | _ => pure ()
  keyedProperty go t

def objectLit (go : Rules) : Parser Ast := do
  let lo ← here
  expect "\x7b"
  let ps ← withContext inside (sepUntil "\x7d" "," (property go))
  mk lo .object ps

/-! ### Primary expressions -/

/-- An expression in parentheses. -/
def parenthesized (go : Rules) : Parser Ast := do
  let lo ← here
  expect "("
  let e ← withContext inside (go .expr)
  expect ")"
  mk lo .paren [e]

/-- The word `import` in an expression. -/
def importExpr : Parser Ast := do
  let t ← current
  expectWord "import"
  if ← eat "." then
    expectWord "meta"
    mk t.span.lo .importMeta []
  else if ← isPunct "(" then return .node .importWord t.span []
  else unexpected

def primary (go : Rules) : Parser Ast := do
  let t ← current
  let lo := t.span.lo
  match t.kind with
  | .num v => advance; return .node (.numLit v (some (String.ofList t.raw))) t.span []
  | .bigint v => advance; return .node (.bigintLit v (some (String.ofList t.raw))) t.span []
  | .str us => advance; return .node (.strLit us (some (String.ofList t.raw))) t.span []
  | .privateName w =>
    if (← next).kind.isWord "in" then
      advance
      return .node (.privateName w) t.span []
    else unexpected
  | .punct "(" => parenthesized go
  | .punct "[" => arrayLit go
  | .punct "\x7b" => objectLit go
  | .punct "`" => templateLit go
  | .punct "/" => regexLit
  | .punct "/=" => regexLit
  | .punct "<" =>
    if ← hasJsx then
      let e ← go .markup
      advanceMarkup
      return e
    else fail .expressionExpected
  | .punct "@" =>
    if (← get).dialect.hasDecorators then
      let decs ← decorators go
      classExpr go lo decs
    else fail .expressionExpected
  | .name "this" false => advance; return .node .this t.span []
  | .name "null" false => advance; return .node .nullLit t.span []
  | .name "true" false => advance; return .node (.boolLit true) t.span []
  | .name "false" false => advance; return .node (.boolLit false) t.span []
  | .name "super" false => advance; return .node .superWord t.span []
  | .name "import" false => importExpr
  | .name "function" false => functionExpr go
  | .name "class" false => classExpr go lo []
  | .name "async" false =>
    let after ← next
    if after.kind.isWord "function" && !after.afterBreak then functionExpr go
    else
      advance
      return .node (.ident "async") t.span []
  | .name w isEscaped =>
    if isEscaped || !isReserved w then
      advance
      return .node (.ident w) t.span []
    else fail .expressionExpected
  | _ => fail .expressionExpected

/-! ### Members and calls -/

def callArgs (go : Rules) : Parser (List Ast) := do
  expect "("
  withContext inside (sepUntil ")" "," (spreadable go))

/-- The name after a dot. -/
def memberName : Parser Ast := do
  let t ← current
  match t.kind with
  | .privateName w =>
    advance
    return .node (.privateName w) t.span []
  | _ => anyWord

/-- A key in brackets. -/
def computedMember (go : Rules) : Parser Ast := do
  let lo ← here
  expect "["
  let e ← withContext inside (go .expr)
  expect "]"
  mk lo .computed [e]

/-- The expression belongs to an optional chain. -/
def isChain : Ast → Bool
  | .node (.optMember _) _ _ => true
  | .node (.optCall _) _ _ => true
  | .node .nonNull _ [e] => isChain e
  | _ => false

def memberOf (obj prop : Ast) : Parser Ast := do
  let lo := obj.span.lo
  match obj with
  | .node .superWord _ _ => mk lo .superMember [obj, prop]
  | _ => if isChain obj then mk lo (.optMember false) [obj, prop] else mk lo .member [obj, prop]

def callOf (callee : Ast) (args : List Ast) (typeArgs : Ast) : Parser Ast := do
  let lo := callee.span.lo
  if isChain callee then mk lo (.optCall false) [callee, .list args, typeArgs]
  else mk lo .call [callee, .list args, typeArgs]

/-- After type arguments that no call follows: the token at hand does not begin an operand, so
that the angle brackets were no comparisons. -/
def endsInstantiation : Parser Bool := do
  let t ← current
  if t.afterBreak then return true
  match t.kind with
  | .name w _ =>
    return (BinaryOp.ofText? w).isSome || w == "as" || w == "satisfies" || w == "implements"
  | .num _ | .bigint _ | .str _ | .privateName _ | .bad _ => return false
  | .punct p =>
    return !(["(", "[", "\x7b", "`", "+", "-", "!", "~", "/", "<", "++", "--", "@"].contains p)
  | .endOfFile => return true

/-- Type arguments after an expression, with the call or template after them. -/
def typeArgsAfter (go : Rules) (noCall : Bool) (e : Ast) : Parser Ast := do
  let args ← typeArgs go
  if (← isPunct "(") && !noCall then
    let as_ ← callArgs go
    callOf e as_ args
  else if ← isPunct "`" then
    let t ← templateLit go
    mk e.span.lo .tagged [e, args, t]
  else if (← isPunct "(") || (← endsInstantiation) then
    mk e.span.lo .instantiation [e, args]
  else unexpected

/-- The next member, call or template after an expression. -/
def subscript (go : Rules) (noCall : Bool) (e : Ast) : Parser (Option Ast) := do
  let lo := e.span.lo
  let t ← current
  match t.kind with
  | .punct "?." =>
    if noCall then return none
    advance
    if ← isPunct "(" then
      let args ← callArgs go
      return some (← mk lo (.optCall true) [e, .list args, .absent])
    else if ← isPunct "[" then
      let p ← computedMember go
      return some (← mk lo (.optMember true) [e, p])
    else if (← isTyped) && (← isPunct "<") then
      let targs ← typeArgs go
      let args ← callArgs go
      return some (← mk lo (.optCall true) [e, .list args, targs])
    else
      let p ← memberName
      return some (← mk lo (.optMember true) [e, p])
  | .punct "." =>
    advance
    let p ← memberName
    return some (← memberOf e p)
  | .punct "[" =>
    let p ← computedMember go
    return some (← memberOf e p)
  | .punct "(" =>
    if noCall then return none
    let args ← callArgs go
    return some (← callOf e args .absent)
  | .punct "`" =>
    let q ← templateLit go
    return some (← mk lo .tagged [e, .absent, q])
  | .punct "!" =>
    if (← isTyped) && !t.afterBreak then
      advance
      return some (← mk lo .nonNull [e])
    else return none
  | .punct "<" =>
    if ← isTyped then attempt (typeArgsAfter go noCall e) else return none
  | _ => return none

def newExpr (go : Rules) : Parser Ast := do
  let lo ← here
  expectWord "new"
  if ← eat "." then
    expectWord "target"
    return ← mk lo .newTarget []
  let (callee, targs) := splitTypeArgs (← go .newOperand)
  if ← isPunct "(" then
    let args ← callArgs go
    mk lo .new_ [callee, .list args, targs]
  else mk lo .new_ [callee, .absent, targs]

/-- The class of a `new` expression. -/
def newOperandRule (go : Rules) : Parser Ast := do
  let base ← if ← isWord "new" then newExpr go else primary go
  iterate (subscript go true) base

/-- A primary expression with its members and calls. -/
def operandRule (go : Rules) : Parser Ast := do
  let base ← if ← isWord "new" then newExpr go else primary go
  iterate (subscript go false) base

/-! ### Operators -/

/-- The operator before one operand, if the token is one. -/
def unaryOp? : TokenKind → Option UnaryOp
  | .punct "-" => some .minus
  | .punct "+" => some .plus
  | .punct "!" => some .not
  | .punct "~" => some .complement
  | .name "typeof" false => some .typeOf
  | .name "void" false => some .void
  | .name "delete" false => some .delete
  | _ => none

/-- The step operator, if the token is one. -/
def updateOp? : TokenKind → Option UpdateOp
  | .punct "++" => some .increment
  | .punct "--" => some .decrement
  | _ => none

/-- An expression as a target of an assignment. -/
def target (e : Ast) : Parser Ast :=
  match toTarget? e with
  | some p => return p
  | none => failAt e.span.lo .invalidTarget

/-- An operand with the operators of one operand. -/
def unaryRule (go : Rules) : Parser Ast := do
  let t ← current
  let lo := t.span.lo
  if let some op := unaryOp? t.kind then
    advance
    let e ← go .unary
    return ← mk lo (.unary op) [e]
  if let some op := updateOp? t.kind then
    advance
    let e ← go .unary
    return ← mk lo (.update op true) [e]
  if t.kind.isWord "await" then
    advance
    let e ← go .unary
    return ← mk lo .await [e]
  if t.kind.isPunct "<" && (← isTyped) && !(← hasJsx) then
    advance
    if (← isWord "const") && (← next).kind.isPunct ">" then
      advance
      expect ">"
      let e ← go .unary
      return ← mk lo .asConst [e]
    let ty ← go .type
    expect ">"
    let e ← go .unary
    return ← mk lo .typeAssertion [e, ty]
  let e ← go .operand
  match updateOp? (← current).kind with
  | some op =>
    if ← afterBreak then return e
    advance
    mk lo (.update op false) [e]
  | none => return e

/-- The operator at hand, in which several `>` and a `=` are joined, and the number of
characters of it after the token. -/
def operatorText : Parser (String × Nat) := do
  let s ← get
  match s.token.kind with
  | .punct ">" =>
    let cs := s.rest
    let found := [">>=", ">>", ">=", "=", ">"].find? fun t => t.toList.isPrefixOf cs
    match found with
    | some t => return (">" ++ t, t.length)
    | none => return (">", 0)
  | .punct t => return (t, 0)
  | .name w false => return (w, 0)
  | _ => return ("", 0)

/-- Goes past the operator at hand. -/
def advanceOperator (extra : Nat) : Parser Unit :=
  modify fun s =>
    let trail : Trail := match s.token.kind with
      | .punct ">" => ⟨false, (s.rest.take extra).getLast? == some '=' && extra > 1⟩
      | k => k.trail
    s.scan (s.rest.drop extra) (s.token.span.hi + extra) trail

/-- The next operator and its right operand after a left one. -/
def operatorStep (go : Rules) (least : Nat) (left : Ast) : Parser (Option Ast) := do
  let (text, extra) ← operatorText
  match BinaryOp.ofText? text with
  | none => return none
  | some op =>
    if op == .isIn && !(← get).context.allowIn then return none
    if op.precedence ≤ least then return none
    advanceOperator extra
    let right ← go (.binary (if op == .exp then op.precedence - 1 else op.precedence))
    return some (← mk left.span.lo (.binary op) [left, right])

/-- The next operator after an operand, with its right operand or type. -/
def binaryStep (go : Rules) (least : Nat) (left : Ast) : Parser (Option Ast) := do
  let lo := left.span.lo
  let t ← current
  if (← isTyped) && !t.afterBreak && least < 7 then
    if t.kind.isWord "as" then
      advance
      if ← eatWord "const" then return some (← mk lo .asConst [left])
      let ty ← go .type
      return some (← mk lo .asType [left, ty])
    if t.kind.isWord "satisfies" then
      advance
      let ty ← go .type
      return some (← mk lo .satisfiesType [left, ty])
  operatorStep go least left

/-- Operands joined by operators that bind tighter than `least`. -/
def binaryRule (go : Rules) (least : Nat) : Parser Ast := do
  let left ← go .unary
  iterate (binaryStep go least) left

/-- A conditional expression, or what stands in place of one. -/
def conditional (go : Rules) : Parser Ast := do
  let test ← go (.binary 0)
  if ← isPunct "?" then
    advance
    let yes ← withContext
      (fun c => { c with allowIn := true, expectColon := true }) (go .assign)
    expect ":"
    let no ← withContext (fun c => { c with expectColon := c.expectColon }) (go .assign)
    mk test.span.lo .conditional [test, yes, no]
  else return test

/-! ### Arrow functions and assignment -/

/-- The parameters of an arrow function with its arrow. -/
def arrowHead (go : Rules) : Parser (Ast × Ast × Ast) := do
  let tps ← typeParams? go
  let ps ← arrowParams go
  let ret ← if (← get).context.expectColon then pure .absent else returnType? go
  if ← afterBreak then unexpected
  expect "=>"
  return (.list ps, tps, ret)

def arrowBody (go : Rules) : Parser Ast := do
  if ← isPunct "\x7b" then functionBody go false
  else withContext (fun c => { c with inGenerator := false }) (go .assign)

/-- The rest of an arrow function that begins at byte `lo`. -/
def arrowFrom (go : Rules) (lo : Nat) (isAsync : Bool) (head : Ast × Ast × Ast) :
    Parser Ast := do
  let body ← arrowBody go
  mk lo (.arrow isAsync) [head.1, body, head.2.1, head.2.2]

/-- An arrow function with one name as its parameter; the name is at hand. -/
def plainArrow (go : Rules) (lo : Nat) (isAsync : Bool) : Parser Ast := do
  let name ← bindingName
  expect "=>"
  let p := Ast.node (.bindName false) name.span [name, .absent]
  arrowFrom go lo isAsync (.list [p], .absent, .absent)

/-- The angle bracket at hand opens type parameters even where elements are read. -/
def opensTypeParams : Parser Bool := do
  unless (← isTyped) && (← isPunct "<") do return false
  unless ← hasJsx do return true
  looksLike do
    advance
    let _ ← eatWord "const"
    let _ ← anyIdent
    if ← isPunct "," then return true
    if ← eatWord "extends" then return !(← isPunct "=") && !(← isPunct ">") && !(← isPunct "/")
    return false

/-- An arrow function, if its head can be read here. -/
def arrowAfter? (go : Rules) (lo : Nat) (isAsync : Bool) (head : Parser (Ast × Ast × Ast)) :
    Parser (Option Ast) := do
  match ← attempt head with
  | some head => return some (← arrowFrom go lo isAsync head)
  | none => return none

/-- An arrow function with its parameters in parentheses, if one begins here. -/
def listedArrow? (go : Rules) (t : Token) : Parser (Option Ast) := do
  if t.kind.isPunct "(" || (← opensTypeParams) then
    arrowAfter? go t.span.lo false (arrowHead go)
  else return none

/-- An arrow function, if one begins here. -/
def arrow? (go : Rules) : Parser (Option Ast) := do
  let t ← current
  let lo := t.span.lo
  let after ← next
  if t.kind.isBindable && after.kind.isPunct "=>" && !after.afterBreak then
    return some (← plainArrow go lo false)
  if t.kind.isWord "async" && !after.afterBreak then
    if after.kind.isBindable then
      let isArrow ← looksLike do
        advance; advance
        return (← isPunct "=>") && !(← afterBreak)
      if isArrow then
        advance
        return some (← plainArrow go lo true)
    if after.kind.isPunct "(" || (after.kind.isPunct "<" && (← isTyped)) then
      return ← arrowAfter? go lo true (do advance; arrowHead go)
  listedArrow? go t

def yieldExpr (go : Rules) : Parser Ast := do
  let lo ← here
  expectWord "yield"
  let t ← current
  let ends := match t.kind with
    | .punct p => [")", "]", "\x7d", ",", ";", ":"].contains p
    | .endOfFile => true
    | .name "in" false => true
    | .name "of" false => true
    | _ => false
  if t.afterBreak || ends then mk lo (.yield_ false) [.absent]
  else
    let isDelegate ← eat "*"
    let e ← go .assign
    mk lo (.yield_ isDelegate) [e]

/-- An expression without a comma. -/
def assignRule (go : Rules) : Parser Ast := do
  if (← get).context.inGenerator && (← isWord "yield") then return ← yieldExpr go
  if let some a ← arrow? go then return a
  let left ← conditional go
  let (text, extra) ← operatorText
  match AssignOp.ofText? text with
  | none => return left
  | some op =>
    let p ← target left
    advanceOperator extra
    let right ← go .assign
    mk left.span.lo (.assign op) [p, right]

/-- Expressions divided by commas. -/
def exprRule (go : Rules) : Parser Ast := do
  let first ← go .assign
  if ← isPunct "," then
    let others ← many do
      if ← eat "," then return some (← go .assign) else return none
    mk first.span.lo .sequence (first :: others)
  else return first

end Worklet.Syntax
