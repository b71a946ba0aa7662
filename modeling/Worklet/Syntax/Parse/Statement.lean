import Worklet.Syntax.Parse.Expr

/-!
# Statements

* `statementRule` — a statement or a declaration.
-/

set_option autoImplicit false

namespace Worklet.Syntax

/-- Statements between braces. -/
def blockRule (go : Rules) : Parser Ast := do
  let lo ← here
  expect "\x7b"
  let stmts ← many do
    if ← isPunct "\x7d" then return none else return some (← go .statement)
  expect "\x7d"
  mk lo .block stmts

/-! ### Declarations of variables -/

/-- A declared variable with its value. -/
def variable_ (go : Rules) : Parser Ast := do
  let lo ← here
  let p ← go .target
  let typed ← isTyped
  let isDefinite ← if typed && !(← afterBreak) then eat "!" else pure false
  let ann ← typeAnnotation? go
  let p := match p with
    | .node (.bindName _) .. => annotate false ann 0 p
    | .node k s cs => (annotate false ann s.hi (.node k s cs))
    | t => t
  let v ← if ← eat "=" then go .assign else pure .absent
  mk lo (.declarator isDefinite) [p, v]

/-- Declared variables after the word that opens them. -/
def declarators (go : Rules) : Parser (List Ast) :=
  sepBy1 "," (variable_ go)

/-- The word at hand, if it opens a declaration of variables. -/
def varKind? : TokenKind → Option VarKind
  | .name "var" false => some .var
  | .name "let" false => some .let
  | .name "const" false => some .const
  | _ => none

def varStatement (go : Rules) (lo : Nat) (kind : VarKind) (isDeclare : Bool) : Parser Ast := do
  advance
  let ds ← declarators go
  semicolon
  mk lo (.varDecl kind isDeclare) ds

/-- The words `using` and `await using` open a declaration here; the number of words. -/
def usingWords : Parser Nat := do
  let t ← current
  let after ← next
  if t.kind.isWord "using" && after.kind.isBindable && !after.kind.isWord "of" &&
      !after.afterBreak then
    return 1
  if t.kind.isWord "await" && after.kind.isWord "using" && !after.afterBreak then
    if ← looksLike do
      advance; advance
      return (← current).kind.isBindable && !(← afterBreak) then return 2
  return 0

/-- A declaration of resources as a statement. -/
def usingStatement (go : Rules) (words : Nat) : Parser Ast := do
  let lo ← here
  advance
  if words == 2 then advance
  let ds ← declarators go
  semicolon
  mk lo (.usingDecl (words == 2)) ds

/-! ### Loops -/

/-- The rest of a loop over properties or elements. -/
def forEach (go : Rules) (lo : Nat) (isAwait : Bool) (left : Ast) : Parser Ast := do
  if ← eatWord "of" then
    let right ← go .assign
    expect ")"
    let body ← go .statement
    mk lo (.forOf isAwait) [left, right, body]
  else
    expectWord "in"
    let right ← go .expr
    expect ")"
    let body ← go .statement
    mk lo .forIn [left, right, body]

/-- The rest of a loop with start, test and step. -/
def forRest (go : Rules) (lo : Nat) (start : Ast) : Parser Ast := do
  expect ";"
  let test ← if ← isPunct ";" then pure .absent else go .expr
  expect ";"
  let step ← if ← isPunct ")" then pure .absent else go .expr
  expect ")"
  let body ← go .statement
  mk lo .forStmt [start, test, step, body]

/-- The head of the loop goes on over properties or elements. -/
def atForEach : Parser Bool := do
  return (← isWord "of") || (← isWord "in")

/-- The rest of a loop whose head declares variables or resources, after the word for them. -/
def forDeclared (go : Rules) (lo slo : Nat) (isAwait : Bool) (kind : Kind) : Parser Ast := do
  let ds ← withContext (fun c => { c with allowIn := false }) (declarators go)
  let left ← mk slo kind ds
  if ← atForEach then forEach go lo isAwait left else forRest go lo left

/-- A `for` loop. -/
def forStatement (go : Rules) : Parser Ast := do
  let lo ← here
  expectWord "for"
  let isAwait ← eatWord "await"
  expect "("
  if ← isPunct ";" then return ← forRest go lo .absent
  let t ← current
  let slo := t.span.lo
  let words ← usingWords
  if words != 0 then
    advance
    if words == 2 then advance
    return ← forDeclared go lo slo isAwait (.usingDecl (words == 2))
  match varKind? t.kind with
  | some kind =>
    advance
    forDeclared go lo slo isAwait (.varDecl kind false)
  | none =>
    let e ← withContext (fun c => { c with allowIn := false }) (go .expr)
    if ← atForEach then
      let p ← target e
      forEach go lo isAwait p
    else forRest go lo e

/-! ### Branches -/

/-- The value of a case; the default case has none. -/
def caseTest (go : Rules) : Parser Ast := do
  if ← eatWord "default" then return .absent
  expectWord "case"
  go .expr

def switchCase (go : Rules) : Parser Ast := do
  let lo ← here
  let test ← caseTest go
  expect ":"
  let stmts ← many do
    if (← isPunct "\x7d") || (← isWord "case") || (← isWord "default") then return none
    else return some (← go .statement)
  mk lo .switchCase (test :: stmts)

def switchStatement (go : Rules) : Parser Ast := do
  let lo ← here
  expectWord "switch"
  expect "("
  let v ← go .expr
  expect ")"
  expect "\x7b"
  let cases ← many do
    if ← isPunct "\x7d" then return none else return some (← switchCase go)
  expect "\x7d"
  mk lo .switchStmt [v, .list cases]

/-- The parameter of a `catch` clause, if it has one. -/
def catchParam (go : Rules) : Parser Ast := do
  if ← eat "(" then
    let p ← go .target
    let ann ← typeAnnotation? go
    let p := annotate false ann (← get).lastEnd p
    expect ")"
    return p
  else return .absent

def catchClause? (go : Rules) : Parser Ast := do
  let lo ← here
  if ← eatWord "catch" then
    let param ← catchParam go
    let body ← go .block
    mk lo .catchClause [param, body]
  else return .absent

def tryStatement (go : Rules) : Parser Ast := do
  let lo ← here
  expectWord "try"
  let body ← go .block
  let handler ← catchClause? go
  let finalizer ← if ← eatWord "finally" then go .block else pure .absent
  if handler.isAbsent && finalizer.isAbsent then unexpected
  mk lo .tryStmt [body, handler, finalizer]

/-- An expression in parentheses after a word. -/
def head (go : Rules) (word : String) : Parser Ast := do
  expectWord word
  expect "("
  let e ← go .expr
  expect ")"
  return e

/-- A statement that leaves a loop or a label. -/
def jump (kind : Kind) : Parser Ast := do
  let lo ← here
  advance
  let label ←
    if (← atStatementEnd) then pure .absent else bindingName
  semicolon
  mk lo kind [label]

/-! ### Declarations of types -/

def interfaceDecl (go : Rules) (lo : Nat) (isDeclare : Bool) : Parser Ast := do
  expectWord "interface"
  let name ← anyIdent
  let tps ← typeParams? go
  let bases ← if ← eatWord "extends" then sepBy1 "," (heritage go) else pure []
  let ms ← typeMembers go
  mk lo (.interfaceDecl isDeclare) [name, tps, .list bases, .list ms]

def typeAlias (go : Rules) (lo : Nat) (isDeclare : Bool) : Parser Ast := do
  expectWord "type"
  let name ← anyIdent
  let tps ← typeParams? go
  expect "="
  let t ← go .type
  semicolon
  mk lo (.typeAlias isDeclare) [name, tps, t]

def enumMember (go : Rules) : Parser Ast := do
  let lo ← here
  let name ← match (← current).kind with
    | .str _ => stringLit
    | .punct "[" => do
      advance
      let s ← stringLit
      expect "]"
      pure s
    | _ => anyIdent
  let v ← if ← eat "=" then go .assign else pure .absent
  mk lo .enumMember [name, v]

/-- An enumeration from the word `enum` on. -/
def enumDecl (go : Rules) (lo : Nat) (isDeclare isConst : Bool) : Parser Ast := do
  expectWord "enum"
  let name ← anyIdent
  expect "\x7b"
  let ms ← sepUntil "\x7d" "," (enumMember go)
  mk lo (.enumDecl isDeclare isConst) [name, .list ms]

/-- The body of a namespace. -/
def moduleBlock (go : Rules) : Parser Ast := do
  let lo ← here
  expect "\x7b"
  let items ← withContext (fun _ => {}) <| many do
    if ← isPunct "\x7d" then return none else return some (← go .item)
  expect "\x7d"
  mk lo .moduleBlock items

/-- Names after the first dot of a namespace, innermost last, around its body. -/
def namespaceRest (go : Rules) : Nat → Parser Ast
  | 0 => moduleBlock go
  | fuel + 1 => do
    if ← eat "." then
      let lo ← here
      let name ← anyIdent
      let body ← namespaceRest go fuel
      mk lo .nestedNamespace [name, body]
    else moduleBlock go

/-- A namespace from its opening word on. -/
def namespaceDecl (go : Rules) (lo : Nat) (word : NamespaceWord) (isDeclare : Bool) :
    Parser Ast := do
  let t ← current
  advance
  match word with
  | .globalWord =>
    let body ← moduleBlock go
    mk lo (.namespaceDecl word isDeclare) [.node (.ident "global") t.span [], body]
  | _ =>
    match (← current).kind with
    | .str _ =>
      let name ← stringLit
      let body ← if ← isPunct "\x7b" then moduleBlock go else do semicolon; pure .absent
      mk lo (.namespaceDecl word isDeclare) [name, body]
    | _ =>
      let name ← anyIdent
      let body ← namespaceRest go (← get).limit
      mk lo (.namespaceDecl word isDeclare) [name, body]

/-- A declaration that only typed files have, if one begins here; `lo` is where it begins and
`isDeclare` tells of the word `declare` before it. -/
def typedDeclaration? (go : Rules) (lo : Nat) (isDeclare : Bool) : Parser (Option Ast) := do
  let t ← current
  let after ← next
  let sameLine := !after.afterBreak
  match t.kind with
  | .name "interface" false =>
    if after.kind.isName && sameLine then return some (← interfaceDecl go lo isDeclare)
    else return none
  | .name "type" false =>
    if after.kind.isName && sameLine then return some (← typeAlias go lo isDeclare)
    else return none
  | .name "enum" false => return some (← enumDecl go lo isDeclare false)
  | .name "const" false =>
    if after.kind.isWord "enum" then
      advance
      return some (← enumDecl go lo isDeclare true)
    else return none
  | .name "abstract" false =>
    if after.kind.isWord "class" && sameLine then
      advance
      return some (← classDecl go lo lo [] true isDeclare)
    else return none
  | .name "namespace" false =>
    if after.kind.isName && sameLine then
      return some (← namespaceDecl go lo .namespaceWord isDeclare)
    else return none
  | .name "module" false =>
    match after.kind with
    | .str _ =>
      if sameLine then return some (← namespaceDecl go lo .moduleWord isDeclare)
      else return none
    | k =>
      if k.isName && sameLine then
        return some (← namespaceDecl go lo .moduleWord isDeclare)
      else return none
  | .name "global" false =>
    if after.kind.isPunct "\x7b" && sameLine then
      return some (← namespaceDecl go lo .globalWord isDeclare)
    else return none
  | _ => return none

/-- A declaration after the word `declare`. -/
def declared (go : Rules) (lo : Nat) : Parser Ast := do
  if let some d ← typedDeclaration? go lo true then return d
  let t ← current
  match t.kind with
  | .name "function" false => functionDecl go lo true
  | .name "async" false => functionDecl go lo true
  | .name "class" false => classDecl go lo lo [] false true
  | k =>
    match varKind? k with
    | some kind => varStatement go lo kind true
    | none => unexpected

/-- The word `declare` opens a declaration here. -/
def opensDeclared : Parser Bool := do
  unless (← isTyped) && (← isWord "declare") do return false
  let after ← next
  if after.afterBreak then return false
  match after.kind with
  | .name w _ =>
    return ["function", "async", "class", "var", "let", "const", "interface", "type", "enum",
      "abstract", "namespace", "module", "global"].contains w
  | _ => return false

/-! ### The statement -/

/-- A statement that begins with an expression, or a label. -/
def expressionStatement (go : Rules) : Parser Ast := do
  let t ← current
  let lo := t.span.lo
  if t.kind.isBindable && (← next).kind.isPunct ":" then
    let label ← bindingName
    expect ":"
    let body ← go .statement
    mk lo .labeled [label, body]
  else
    let e ← go .expr
    semicolon
    mk lo .exprStmt [e]

/-- The word `let` opens a declaration here. -/
def opensLet : Parser Bool := do
  let after ← next
  match after.kind with
  | .name w _ => return w != "in" && w != "instanceof"
  | .punct p => return p == "[" || p == "\x7b"
  | _ => return false

/-- A statement or a declaration that any file may have, which begins with the token `t`. -/
def untypedStatement (go : Rules) (t : Token) : Parser Ast := do
  let lo := t.span.lo
  match t.kind with
  | .punct "\x7b" => go .block
  | .punct ";" =>
    advance
    mk lo .emptyStmt []
  | .punct "@" =>
    unless (← get).dialect.hasDecorators do unexpected
    let decs ← decorators go
    let isAbstract ← eatWord "abstract"
    classDecl go lo lo decs isAbstract false
  | .name "break" false => jump .breakStmt
  | .name "continue" false => jump .continueStmt
  | .name "debugger" false =>
    advance
    semicolon
    mk lo .debuggerStmt []
  | .name "do" false =>
    advance
    let body ← go .statement
    let test ← head go "while"
    let _ ← eat ";"
    mk lo .doWhileStmt [test, body]
  | .name "for" false => forStatement go
  | .name "function" false => functionDecl go lo false
  | .name "class" false => classDecl go lo lo [] false false
  | .name "if" false =>
    let test ← head go "if"
    let yes ← go .statement
    let no ← if ← eatWord "else" then go .statement else pure .absent
    mk lo .ifStmt [test, yes, no]
  | .name "return" false =>
    advance
    let v ← if ← atStatementEnd then pure .absent else go .expr
    semicolon
    mk lo .returnStmt [v]
  | .name "switch" false => switchStatement go
  | .name "throw" false =>
    advance
    if ← afterBreak then unexpected
    let v ← go .expr
    semicolon
    mk lo .throwStmt [v]
  | .name "try" false => tryStatement go
  | .name "while" false =>
    let test ← head go "while"
    let body ← go .statement
    mk lo .whileStmt [test, body]
  | .name "with" false =>
    let obj ← head go "with"
    let body ← go .statement
    mk lo .withStmt [obj, body]
  | .name "var" false => varStatement go lo .var false
  | .name "const" false => varStatement go lo .const false
  | .name "let" false =>
    if ← opensLet then varStatement go lo .let false else expressionStatement go
  | .name "async" false =>
    let after ← next
    if after.kind.isWord "function" && !after.afterBreak then functionDecl go lo false
    else expressionStatement go
  | _ => expressionStatement go

def statementRule (go : Rules) : Parser Ast := do
  let t ← current
  let lo := t.span.lo
  let words ← usingWords
  if words != 0 then return ← usingStatement go words
  if ← isTyped then
    if ← opensDeclared then
      advance
      return ← declared go lo
    if let some d ← typedDeclaration? go lo false then return d
  untypedStatement go t

end Worklet.Syntax
