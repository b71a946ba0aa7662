import Worklet.Syntax.Parse.TypeExpr

/-!
# Functions and classes

* `functionRest` — what follows the name of a function: parameters, types and body.
* `classRest` — what follows the word `class`.
-/

set_option autoImplicit false

namespace Worklet.Syntax

def functionBody (go : Rules) (isGenerator : Bool) : Parser Ast :=
  withContext (fun _ => { inGenerator := isGenerator }) (go .block)

/-- The body of a function; a typed file may leave it out. -/
def functionBody? (go : Rules) (isGenerator : Bool) : Parser Ast := do
  if ← isPunct "\x7b" then functionBody go isGenerator
  else if ← isTyped then
    semicolon
    return .absent
  else unexpected

/-- Parameters, types and body of a function that begins at byte `lo`. -/
def functionRest (go : Rules) (lo : Nat) (decs : List Ast) (isAsync isGenerator : Bool) :
    Parser Ast := do
  let tps ← typeParams? go
  let ps ← withContext (fun c => { c with inGenerator := isGenerator }) (formalParams go false)
  let ret ← returnType? go
  let body ← functionBody? go isGenerator
  mk lo (.function isAsync isGenerator) [.list ps, .list decs, body, tps, ret]

/-- The words `async` and `function` and the sign of a generator; where the function begins. -/
def functionHead : Parser (Nat × Bool × Bool) := do
  let lo ← here
  let isAsync ← eatWord "async"
  expectWord "function"
  let isGenerator ← eat "*"
  return (lo, isAsync, isGenerator)

def functionExpr (go : Rules) : Parser Ast := do
  let (lo, isAsync, isGenerator) ← functionHead
  let name ← if (← current).kind.isBindable then bindingName else pure .absent
  let f ← functionRest go lo [] isAsync isGenerator
  mk lo .funcExpr [name, f]

def functionDecl (go : Rules) (start : Nat) (isDeclare : Bool) : Parser Ast := do
  let (lo, isAsync, isGenerator) ← functionHead
  let name ← bindingName
  let f ← functionRest go lo [] isAsync isGenerator
  mk start (.funcDecl isDeclare) [name, f]

/-! ### Members of classes -/

/-- The words before the name of a member. -/
structure MemberHead where
  mods : Modifiers := {}
  isAsync : Bool := false
  isAccessor : Bool := false
  kind : MethodKind := .method

/-- The token after a word tells that the word is the name of the member and marks nothing. -/
def endsMemberName (k : TokenKind) : Bool :=
  match k with
  | .punct t => ["(", "<", "=", ";", "\x7d", ",", "?", "!", ":"].contains t
  | .endOfFile => true
  | _ => false

/-- Reads the words before the name of a member. -/
def memberHead : Nat → MemberHead → Parser MemberHead
  | 0, h => return h
  | fuel + 1, h => do
    let typed ← isTyped
    let t ← current
    let after ← next
    if endsMemberName after.kind then return h
    let mark (h : MemberHead) : Parser MemberHead := do
      advance
      memberHead fuel h
    let typedMark (h' : MemberHead) : Parser MemberHead := do
      if typed && !after.afterBreak then mark h' else return h
    match t.kind with
    | .name "declare" false => typedMark { h with mods.isDeclare := true }
    | .name "public" false => typedMark { h with mods.access := some .public }
    | .name "protected" false => typedMark { h with mods.access := some .protected }
    | .name "private" false => typedMark { h with mods.access := some .private }
    | .name "abstract" false => typedMark { h with mods.isAbstract := true }
    | .name "override" false => typedMark { h with mods.isOverride := true }
    | .name "readonly" false => typedMark { h with mods.isReadonly := true }
    | .name "accessor" false => typedMark { h with isAccessor := true }
    | .name "static" false =>
      if after.kind.isPunct "\x7b" then return h
      mark { h with mods.isStatic := true }
    | .name "async" false =>
      if after.afterBreak then return h
      advance
      return { h with isAsync := true }
    | .name "get" false =>
      if after.kind.isPunct "*" then return h
      advance
      return { h with kind := .getter }
    | .name "set" false =>
      if after.kind.isPunct "*" then return h
      advance
      return { h with kind := .setter }
    | _ => return h

/-- The key of a member; a private name has its sign. -/
def classKey (go : Rules) : Parser Ast := do
  let t ← current
  match t.kind with
  | .privateName w =>
    advance
    return .node (.privateName w) t.span []
  | _ => propertyKey go

def isConstructorKey : Ast → Bool
  | .node (.word w) _ _ => w == "constructor"
  | .node (.strLit us _) _ _ => us == Text.units "constructor"
  | _ => false

def classMember (go : Rules) : Parser Ast := do
  let lo ← here
  if ← eat ";" then return ← mk lo .emptyMember []
  let decs ← decorators go
  let head ← memberHead 12 {}
  if (← isWord "static") && (← next).kind.isPunct "\x7b" then
    advance
    let body ← functionBody go false
    return ← mk lo .staticBlock [body]
  if (← isTyped) && (← opensIndexSignature) then
    let sig ← indexSignature go lo head.mods.isReadonly head.mods.isStatic
    semicolon
    return sig
  let isGenerator ← eat "*"
  let key ← classKey go
  let typed ← isTyped
  let isOptional ← if typed then eat "?" else pure false
  let mods := { head.mods with isOptional }
  if (← isPunct "(") || (← isPunct "<") then
    if isConstructorKey key && !mods.isStatic && head.kind == .method && !isGenerator &&
        !head.isAsync then
      let ps ← formalParams go true
      let body ← functionBody? go false
      mk lo (.constructor mods.access isOptional) [key, .list ps, body]
    else
      let f ← functionRest go lo decs head.isAsync isGenerator
      mk lo (.classMethod head.kind mods) [key, f]
  else
    let isDefinite ← if typed && !isOptional then eat "!" else pure false
    let ann ← typeAnnotation? go
    let value ← if ← eat "=" then withContext (fun _ => {}) (go .assign) else pure .absent
    semicolon
    let mods := { mods with isDefinite }
    let kind := if head.isAccessor then Kind.accessorProp mods else Kind.classProp mods
    mk lo kind [key, value, ann, .list decs]

/-- An expression that a class is built on, apart from its type arguments. -/
def splitTypeArgs : Ast → Ast × Ast
  | .node .instantiation _ [e, .node .typeArgs s ts] => (e, .node .typeArgs s ts)
  | t => (t, .absent)

/-- A type that a class implements or an interface extends. -/
def heritage (go : Rules) : Parser Ast := do
  let lo ← here
  let (e, args) := splitTypeArgs (← go .operand)
  let args ← if args.isAbsent then typeArgs? go else pure args
  mk lo .heritage [e, args]

/-- The class that a class extends, with its type arguments; both may be absent. -/
def superclass (go : Rules) : Parser (Ast × Ast) := do
  if ← eatWord "extends" then
    let typed ← isTyped
    let (e, args) := splitTypeArgs (← go .operand)
    let args ← if typed && args.isAbsent then typeArgs? go else pure args
    return (e, args)
  else return (.absent, .absent)

/-- Name and body of a class, from the word `class` on. -/
def classRest (go : Rules) (lo : Nat) (decs : List Ast) (isAbstract : Bool) :
    Parser (Ast × Ast) := do
  expectWord "class"
  let typed ← isTyped
  let name ←
    if (← current).kind.isBindable &&
        !(typed && (← isWord "implements") && (← next).kind.isName) then bindingName
    else pure .absent
  let tps ← typeParams? go
  let (base, baseArgs) ← superclass go
  let implemented ←
    if typed && (← eatWord "implements") then sepBy1 "," (heritage go) else pure []
  expect "\x7b"
  let members ← withContext (fun _ => {}) <| many do
    if ← isPunct "\x7d" then return none else return some (← classMember go)
  expect "\x7d"
  let body ← mk lo (.class_ isAbstract)
    [.list decs, .list members, base, tps, baseArgs, .list implemented]
  return (name, body)

def classExpr (go : Rules) (lo : Nat) (decs : List Ast) : Parser Ast := do
  let (name, body) ← classRest go lo decs false
  mk lo .classExpr [name, body]

/-- A declared class, which has a name. -/
def classDecl (go : Rules) (start lo : Nat) (decs : List Ast) (isAbstract isDeclare : Bool) :
    Parser Ast := do
  unless (← next).kind.isBindable do
    advance
    unexpected
  let (name, body) ← classRest go lo decs isAbstract
  mk start (.classDecl isDeclare) [name, body]

end Worklet.Syntax
