import Worklet.Syntax.Parse.Statement

/-!
# Modules

* `readModule` — the items of a file.
-/

set_option autoImplicit false

namespace Worklet.Syntax

/-- Attributes of an import, if there are any. -/
def importAttributes (go : Rules) : Parser Ast := do
  if (← isWord "with") || ((← isWord "assert") && !(← afterBreak)) then
    advance
    objectLit go
  else return .absent

/-- The source of an import or export with its attributes, up to the end of the declaration. -/
def moduleSource (go : Rules) : Parser (Ast × Ast) := do
  let source ← stringLit
  let attrs ← importAttributes go
  semicolon
  return (source, attrs)

/-! ### Imports -/

/-- The word `type` marks the specifier at hand. -/
def marksType : Parser Bool := do
  unless (← isTyped) && (← isWord "type") do return false
  looksLike do
    advance
    match (← current).kind with
    | .name "as" _ =>
      advance
      if (← isPunct ",") || (← isPunct "\x7d") then return true
      if ← isWord "as" then
        advance
        return (← current).kind.isName
      return false
    | .name .. => return true
    | .str _ => return true
    | _ => return false

/-- A specifier between the braces of an import. -/
def importSpecifier : Parser Ast := do
  let lo ← here
  let isType ← marksType
  if isType then advance
  let t ← current
  let imported ← exportedName
  if ← eatWord "as" then
    let name ← bindingName
    mk lo (.importNamed isType) [name, imported]
  else if t.kind.isBindable then mk lo (.importNamed isType) [imported, .absent]
  else failAt t.span.lo (.unexpectedToken t.shown)

/-- All the bindings of a module under one name. -/
def importAll : Parser Ast := do
  let lo ← here
  expect "*"
  expectWord "as"
  let name ← bindingName
  mk lo .importStar [name]

/-- The specifiers between braces. -/
def importSpecifiers : Parser (List Ast) := do
  expect "\x7b"
  sepUntil "\x7d" "," importSpecifier

/-- What a name is given to: another module, or an entity. -/
def namedEntity : Parser Ast := do
  let lo ← here
  let after ← next
  if (← isWord "require") && after.kind.isPunct "(" then
    advance
    expect "("
    let s ← stringLit
    expect ")"
    mk lo .externalModule [s]
  else entityName

/-- A name given to another entity or module. -/
def importEquals (lo : Nat) (isExport isType : Bool) : Parser Ast := do
  let name ← bindingName
  expect "="
  let ref ← namedEntity
  semicolon
  mk lo (.importEquals isExport isType) [name, ref]

/-- The word `type` marks the whole import. -/
def importIsType : Parser Bool := do
  unless (← isTyped) && (← isWord "type") do return false
  looksLike do
    advance
    match (← current).kind with
    | .punct "\x7b" => return true
    | .punct "*" => return true
    | .name "from" false => return (← next).kind.isWord "from" || (← next).kind.isPunct "="
    | .name .. => return true
    | _ => return false

/-- What an import binds, up to the word `from`. -/
def importClause : Parser (List Ast) := do
  if ← isPunct "*" then return [← importAll]
  if ← isPunct "\x7b" then return ← importSpecifiers
  let lo ← here
  let name ← bindingName
  let first ← mk lo .importDefault [name]
  if ← eat "," then
    if ← isPunct "*" then return [first, ← importAll]
    else return first :: (← importSpecifiers)
  else return [first]

/-- The rest of an import that binds something; `isType` tells of the word `type` before it. -/
def importRest (go : Rules) (lo : Nat) (isType : Bool) : Parser Ast := do
  if (← isTyped) && (← current).kind.isBindable && (← next).kind.isPunct "=" then
    return ← importEquals lo false isType
  let specs ← importClause
  expectWord "from"
  let (source, attrs) ← moduleSource go
  mk lo (.importDecl isType) [.list specs, source, attrs]

def importDecl (go : Rules) : Parser Ast := do
  let lo ← here
  expectWord "import"
  match (← current).kind with
  | .str _ =>
    let (source, attrs) ← moduleSource go
    mk lo (.importDecl false) [.list [], source, attrs]
  | _ =>
    let isType ← importIsType
    if isType then advance
    importRest go lo isType

/-! ### Exports -/

def exportSpecifier : Parser Ast := do
  let lo ← here
  let isType ← marksType
  if isType then advance
  let name ← exportedName
  if ← eatWord "as" then
    let exported ← exportedName
    mk lo (.exportSpecifier isType) [name, exported]
  else mk lo (.exportSpecifier isType) [name, .absent]

/-- An export of names, from the brace on. -/
def exportNames (go : Rules) (lo : Nat) (isType : Bool) : Parser Ast := do
  expect "\x7b"
  let specs ← many do
    if ← isPunct "\x7d" then return none
    let spec ← exportSpecifier
    if ← isPunct "\x7d" then return some (spec, false)
    let before := (← get).comments.size
    expect ","
    return some (spec, (← isPunct "\x7d") && (← get).comments.size == before)
  expect "\x7d"
  let names := specs.map (·.1)
  if ← eatWord "from" then
    let (source, attrs) ← moduleSource go
    mk lo (.exportNamed isType false) [.list names, source, attrs]
  else
    let endsInComma := !(← isPunct ";") && specs.any (·.2)
    semicolon
    mk lo (.exportNamed isType endsInComma) [.list names, .absent, .absent]

/-- An export of all the names of a module. -/
def exportStar (go : Rules) (lo : Nat) (isType : Bool) : Parser Ast := do
  let slo ← here
  expect "*"
  if ← eatWord "as" then
    let name ← exportedName
    let spec ← mk slo .exportStarAs [name]
    expectWord "from"
    let (source, attrs) ← moduleSource go
    mk lo (.exportNamed isType false) [.list [spec], source, attrs]
  else
    expectWord "from"
    let (source, attrs) ← moduleSource go
    mk lo (.exportAll isType) [source, attrs]

/-- A default export, from the word `default` on. -/
def exportDefault (go : Rules) (lo : Nat) : Parser Ast := do
  expectWord "default"
  let t ← current
  let after ← next
  let dlo := t.span.lo
  if t.kind.isWord "function" ||
      (t.kind.isWord "async" && after.kind.isWord "function" && !after.afterBreak) then
    let f ← functionExpr go
    return ← mk lo .exportDefaultDecl [f]
  if t.kind.isWord "class" || (t.kind.isPunct "@" && (← get).dialect.hasDecorators) then
    let decs ← decorators go
    let c ← classExpr go dlo decs
    return ← mk lo .exportDefaultDecl [c]
  if ← isTyped then
    if t.kind.isWord "abstract" && after.kind.isWord "class" then
      advance
      let (name, body) ← classRest go dlo [] true
      let c ← mk dlo .classExpr [name, body]
      return ← mk lo .exportDefaultDecl [c]
    if t.kind.isWord "interface" && after.kind.isName && !after.afterBreak then
      let i ← interfaceDecl go dlo false
      return ← mk lo .exportDefaultDecl [i]
  let e ← go .assign
  semicolon
  mk lo .exportDefaultExpr [e]

/-- A declaration that any file may have, which begins with the token `t`. -/
def untypedDeclaration (go : Rules) (t : Token) : Parser Ast := do
  let lo := t.span.lo
  match t.kind with
  | .name "function" false => functionDecl go lo false
  | .name "async" false => functionDecl go lo false
  | .name "class" false => classDecl go lo lo [] false false
  | .punct "@" =>
    unless (← get).dialect.hasDecorators do unexpected
    let decs ← decorators go
    let isAbstract ← eatWord "abstract"
    classDecl go lo lo decs isAbstract false
  | k =>
    match varKind? k with
    | some kind => varStatement go lo kind false
    | none => unexpected

def declaration (go : Rules) : Parser Ast := do
  let t ← current
  if ← isTyped then
    if ← opensDeclared then
      advance
      return ← declared go t.span.lo
    if let some d ← typedDeclaration? go t.span.lo false then return d
  untypedDeclaration go t

def exportedDecl (go : Rules) (lo : Nat) : Parser Ast := do
  let d ← declaration go
  mk lo .exportDecl [d]

def exportDecl (go : Rules) : Parser Ast := do
  let lo ← here
  expectWord "export"
  if ← isPunct "*" then return ← exportStar go lo false
  if ← isPunct "\x7b" then return ← exportNames go lo false
  if ← isWord "default" then return ← exportDefault go lo
  if ← isTyped then
    let after ← next
    if ← eat "=" then
      let e ← go .expr
      semicolon
      return ← mk lo .exportAssign [e]
    if (← isWord "as") && after.kind.isWord "namespace" then
      advance; advance
      let name ← anyIdent
      semicolon
      return ← mk lo .exportAsNamespace [name]
    if ← isWord "import" then
      advance
      let isType ← importIsType
      if isType then advance
      return ← importEquals lo true isType
    if (← isWord "type") && after.kind.isPunct "\x7b" then
      advance
      return ← exportNames go lo true
    if (← isWord "type") && after.kind.isPunct "*" then
      advance
      return ← exportStar go lo true
  exportedDecl go lo

/-- An import, an export or a statement. -/
def itemRule (go : Rules) : Parser Ast := do
  let t ← current
  if t.kind.isWord "import" then
    let after ← next
    if after.kind.isPunct "(" || after.kind.isPunct "." then go .statement else importDecl go
  else if t.kind.isWord "export" then exportDecl go
  else go .statement

/-- All the items of a file. -/
def readItems (go : Rules) : Parser (List Ast) :=
  many do
    if (← current).kind == .endOfFile then return none else return some (← go .item)

end Worklet.Syntax
