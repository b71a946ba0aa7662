import Worklet.Syntax.Parse.Goal

/-!
# Patterns

What declarations and parameters bind, and expressions read as targets of an assignment.

* `formalParam`, `arrowParam` — a parameter.
-/

set_option autoImplicit false

namespace Worklet.Syntax

/-- A rest element: three dots and a target. -/
def restElement (go : Rules) : Parser Ast := do
  let lo ← here
  expect "..."
  let p ← go .target
  mk lo .restPat [p, .absent]

def patternProperty (go : Rules) : Parser Ast := do
  if ← isPunct "..." then restElement go
  else
    let lo ← here
    let k := (← current).kind
    let after ← next
    if k.isBindable && !after.kind.isPunct ":" then
      let name ← bindingName
      let bound := Ast.node (.bindName false) name.span [name, .absent]
      if ← eat "=" then
        let v ← withContext (fun c => { c with allowIn := true }) (go .assign)
        mk lo .patShorthand [bound, v]
      else mk lo .patShorthand [bound, .absent]
    else
      let key ← propertyKey go
      expect ":"
      let v ← go .element
      mk lo .patProp [key, v]

/-- A name, an array pattern or an object pattern. -/
def bindingTarget (go : Rules) : Parser Ast := do
  let t ← current
  let lo := t.span.lo
  if t.kind.isPunct "[" then
    advance
    let elements ← many do
      if ← isPunct "]" then return none
      if ← eat "," then return some .absent
      let e ← if ← isPunct "..." then restElement go else go .element
      unless ← isPunct "]" do expect ","
      return some e
    expect "]"
    mk lo (.arrayPat false) [.list elements, .absent]
  else if t.kind.isPunct "\x7b" then
    advance
    let props ← sepUntil "\x7d" "," (patternProperty go)
    mk lo (.objectPat false) [.list props, .absent]
  else if t.kind.isBindable || ((← isTyped) && t.kind.isWord "this") then
    let name ← anyIdent
    return .node (.bindName false) name.span [name, .absent]
  else fail (.unexpected t.shown "yield, an identifier, [ or \x7b")

/-- The target with a type annotation, or with the mark that it may be left out. -/
def annotate (isOptional : Bool) (ann : Ast) (hi : Nat) : Ast → Ast
  | .node (.bindName o) s [n, _] => .node (.bindName (o || isOptional)) s [n, ann]
  | .node (.arrayPat o) s [es, _] =>
    .node (.arrayPat (o || isOptional)) (if ann.isAbsent then s else ⟨s.lo, hi⟩) [es, ann]
  | .node (.objectPat o) s [ps, _] =>
    .node (.objectPat (o || isOptional)) (if ann.isAbsent then s else ⟨s.lo, hi⟩) [ps, ann]
  | .node .restPat s [p, _] =>
    .node .restPat (if ann.isAbsent then s else ⟨s.lo, hi⟩) [p, ann]
  | t => t

/-- A target with an optional default. -/
def bindingElement (go : Rules) : Parser Ast := do
  let lo ← here
  let p ← go .target
  if ← eat "=" then
    let v ← withContext (fun c => { c with allowIn := true }) (go .assign)
    mk lo .assignPat [p, v]
  else return p

/-- A parameter without decorators: a rest element, or a target with an optional mark, type and
default. -/
def paramPattern (go : Rules) : Parser Ast := do
  let lo ← here
  if ← isPunct "..." then
    let p ← restElement go
    let ann ← typeAnnotation? go
    return annotate false ann (← get).lastEnd p
  else
    let p ← go .target
    let isOptional ← if ← isTyped then eat "?" else pure false
    let ann ← typeAnnotation? go
    let p := annotate isOptional ann (← get).lastEnd p
    if ← eat "=" then
      let v ← withContext (fun c => { c with allowIn := true }) (go .assign)
      mk lo .assignPat [p, v]
    else return p

/-- Words that make a parameter of a constructor a property. -/
def paramModifiers : Nat → Modifiers → Parser Modifiers
  | 0, m => return m
  | fuel + 1, m => do
    let t ← current
    let after ← next
    if after.kind.isName || after.kind.isPunct "\x7b" || after.kind.isPunct "[" then
      match t.kind with
      | .name "public" false => advance; paramModifiers fuel { m with access := some .public }
      | .name "protected" false =>
        advance; paramModifiers fuel { m with access := some .protected }
      | .name "private" false => advance; paramModifiers fuel { m with access := some .private }
      | .name "readonly" false => advance; paramModifiers fuel { m with isReadonly := true }
      | .name "override" false => advance; paramModifiers fuel { m with isOverride := true }
      | _ => return m
    else return m

/-- A parameter of a function; one of a constructor may declare a property. -/
def formalParam (go : Rules) (ofConstructor : Bool) : Parser Ast := do
  let lo ← here
  let decs ← decorators go
  let mods ←
    if ofConstructor && (← isTyped) then paramModifiers 4 {} else pure {}
  let p ← paramPattern go
  if mods == {} then mk lo .param [.list decs, p]
  else mk lo (.paramProp mods) [.list decs, p]

/-- The parameters of a function between parentheses. -/
def formalParams (go : Rules) (ofConstructor : Bool) : Parser (List Ast) := do
  expect "("
  withContext (fun c => { c with allowIn := true, expectColon := false }) do
    sepUntil ")" "," (formalParam go ofConstructor)

/-- The parameters of an arrow function or of a function type. -/
def arrowParams (go : Rules) : Parser (List Ast) := do
  expect "("
  withContext (fun c => { c with allowIn := true, expectColon := false }) do
    sepUntil ")" "," (paramPattern go)

mutual

/-- The expression as a target of an assignment. What is neither a name nor a literal of an
array or object stays the expression it is, if it can be assigned to. -/
def toTarget? : Ast → Option Ast
  | .node (.ident n) s _ =>
    some (.node (.bindName false) s [.node (.ident n) s [], .absent])
  | .node .array s es => do
    let ps ← toElements? es
    return .node (.arrayPat false) s [.list ps, .absent]
  | .node .object s ps => do
    let ps ← toProperties? ps
    return .node (.objectPat false) s [.list ps, .absent]
  | .node (.assign .plain) s [l, r] => some (.node .assignPat s [l, r])
  | .node .spread s [e] => do
    let p ← toTarget? e
    return .node .restPat s [p, .absent]
  | .node .paren s cs => some (.node .paren s cs)
  | .node .member s cs => some (.node .member s cs)
  | .node .superMember s cs => some (.node .superMember s cs)
  | .node (.optMember o) s cs => some (.node (.optMember o) s cs)
  | .node .asType s cs => some (.node .asType s cs)
  | .node .satisfiesType s cs => some (.node .satisfiesType s cs)
  | .node .typeAssertion s cs => some (.node .typeAssertion s cs)
  | .node .nonNull s cs => some (.node .nonNull s cs)
  | _ => none

/-- The elements of an array as elements of a pattern. -/
def toElements? : List Ast → Option (List Ast)
  | [] => some []
  | .absent :: rest => do return .absent :: (← toElements? rest)
  | e :: rest => do
    let p ← toTarget? e
    return p :: (← toElements? rest)

/-- The properties of an object as properties of a pattern. -/
def toProperties? : List Ast → Option (List Ast)
  | [] => some []
  | .node .keyValue s [k, v] :: rest => do
    let p ← toTarget? v
    return .node .patProp s [k, p] :: (← toProperties? rest)
  | .node .nameWithDefault s [n, v] :: rest => do
    return .node .patShorthand s [.node (.bindName false) n.span [n, .absent], v] ::
      (← toProperties? rest)
  | .node (.ident n) s _ :: rest => do
    return .node .patShorthand s
      [.node (.bindName false) s [.node (.ident n) s [], .absent], .absent] ::
      (← toProperties? rest)
  | .node .spread s [e] :: rest => do
    let p ← toTarget? e
    return .node .restPat s [p, .absent] :: (← toProperties? rest)
  | _ => none

end

end Worklet.Syntax
