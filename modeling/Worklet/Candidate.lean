import Worklet.Number.Shortest
import Worklet.Syntax.Build

/-!
# Candidates

Functions come in ten forms. A candidate is any of them in one shape: a list of parameters and a
block. This is `FunctionCandidate`, made by `from_function`, `from_arrow`, `from_getter` and
`from_setter`, with the search of its `SuperFinder`.

* `FunctionKind` — the forms.
-/

set_option autoImplicit false

namespace Worklet

open Syntax

inductive FunctionKind where
  | declaration | expression | arrow | objectMethod | objectGetter | objectSetter | classMethod
  | classStaticMethod | classGetter | classSetter
  deriving DecidableEq, Repr, Inhabited

namespace FunctionKind

/-- The short name of a form. -/
def name : FunctionKind → String
  | .declaration => "fn-decl" | .expression => "fn-expr" | .arrow => "arrow"
  | .objectMethod => "object-method" | .objectGetter => "object-getter"
  | .objectSetter => "object-setter" | .classMethod => "class-method"
  | .classStaticMethod => "class-static-method" | .classGetter => "class-getter"
  | .classSetter => "class-setter"

/-- What a form is called. -/
def label : FunctionKind → String
  | .declaration => "function declaration" | .expression => "function expression"
  | .arrow => "arrow function" | .objectMethod => "object method"
  | .objectGetter => "object getter" | .objectSetter => "object setter"
  | .classMethod => "class method" | .classStaticMethod => "static class method"
  | .classGetter => "class getter" | .classSetter => "class setter"

/-- The form is a getter or setter. -/
def isAccessor : FunctionKind → Bool
  | .objectGetter | .objectSetter | .classGetter | .classSetter => true
  | _ => false

/-- The form of a class method. -/
def ofMethod (kind : MethodKind) (isStatic : Bool) : FunctionKind :=
  match kind with
  | .getter => .classGetter
  | .setter => .classSetter
  | .method => if isStatic then .classStaticMethod else .classMethod

end FunctionKind

/-- A function as a list of parameters and a block. -/
structure Candidate where
  kind : FunctionKind
  /-- The name of a declaration or expression, or the key of a method. -/
  name : Option String
  /-- The patterns of the parameters. -/
  params : List Ast
  /-- The block. -/
  body : Ast
  /-- Where the function stands; its scope is found by this span. -/
  span : Span
  isAsync : Bool
  isGenerator : Bool
  deriving Repr

/-- The patterns of parameters, if all are parameters of a function. -/
def paramPatterns? : List Ast → Option (List Ast)
  | [] => some []
  | .node .param _ [_, p] :: ts => (paramPatterns? ts).map (p :: ·)
  | _ :: _ => none

/-- The text of a key, if it does not have to be computed. -/
def keyText (key : Ast) : Option String :=
  keyText? Binary64.positional key

def functionBody : Ast → Ast
  | .node (.function _ _) _ (_ :: _ :: body :: _) => body
  | _ => .absent

namespace Candidate

/-- A function with a body. -/
def ofFunction (kind : FunctionKind) (name : Option String) : Ast → Option Candidate
  | .node (.function isAsync isGenerator) span (.list params :: _ :: body :: _) =>
    if body.isAbsent then none
    else
      (paramPatterns? params).map fun params =>
        { kind, name, params, body, span, isAsync, isGenerator }
  | _ => none

/-- The block of an arrow: an expression is what the block returns. -/
def arrowBody : Ast → Ast
  | .node .block s stmts => .node .block s stmts
  | e => .node .block e.span [.node .returnStmt e.span [e.unparen]]

def ofArrow : Ast → Option Candidate
  | .node (.arrow isAsync) span (.list params :: body :: _) =>
    some
      { kind := .arrow, name := none, params, body := arrowBody body, span, isAsync
        isGenerator := false }
  | _ => none

def ofGetter : Ast → Option Candidate
  | .node .getter span [key, _, body] =>
    if body.isAbsent then none
    else
      some
        { kind := .objectGetter, name := keyText key, params := [], body, span
          isAsync := false, isGenerator := false }
  | _ => none

def ofSetter : Ast → Option Candidate
  | .node .setter span [key, _, param, body] =>
    if body.isAbsent then none
    else
      some
        { kind := .objectSetter, name := keyText key, params := [param], body, span
          isAsync := false, isGenerator := false }
  | _ => none

/-- A function or arrow expression. -/
def ofExpr : Ast → Option Candidate
  | .node .funcExpr _ [name, f] => ofFunction .expression name.identName? f
  | t => ofArrow t

/-- The name that refers to the function itself. -/
def ownName? (c : Candidate) : Option String :=
  match c.kind with
  | .declaration | .expression => c.name
  | _ => none

/-- The parameters as a plain function has them. -/
def paramList (c : Candidate) : List Ast :=
  c.params.map madeParam

/-- A plain function with the candidate's parameters and body. -/
def toFunction (c : Candidate) : Ast :=
  madeFunction c.isAsync c.isGenerator c.paramList c.body

end Candidate

/-- The statement is the marker. -/
def isDirective (marker : String) : Ast → Bool
  | .node .exprStmt _ [.node (.strLit value _) _ []] => value == Text.units marker
  | _ => false

/-- The block begins with the marker. -/
def hasDirective (marker : String) (body : Ast) : Bool :=
  body.stmts.head?.any (isDirective marker)

/-- The block without a marker at its head. -/
def stripDirective (marker : String) : Ast → Ast
  | .node .block s (first :: rest) =>
    if isDirective marker first then .node .block s rest else .node .block s (first :: rest)
  | t => t

mutual

/-- The tree mentions the `super` of what stands around it. Functions have their own, and so has
a class; only what the class extends still belongs to the outside. -/
def usesSuper : Ast → Bool
  | .absent => false
  | .list ts => usesSuperAny ts
  | .node .superWord _ _ => true
  | .node (.function _ _) _ _ => false
  | .node .getter _ _ => false
  | .node .setter _ _ => false
  | .node (.class_ _) _ (_ :: _ :: base :: _) => usesSuper base
  | .node _ _ cs => usesSuperAny cs

/-- Some tree mentions the `super` of what stands around it. -/
def usesSuperAny : List Ast → Bool
  | [] => false
  | t :: ts => usesSuper t || usesSuperAny ts

end

namespace Candidate

/-- The function mentions the `super` of its own object or class. -/
def usesSuper (c : Candidate) : Bool :=
  usesSuperAny c.params || Worklet.usesSuper c.body

def isMarked (marker : String) (c : Candidate) : Bool :=
  hasDirective marker c.body

/-- The function without its marker. -/
def unmarked (marker : String) (c : Candidate) : Candidate :=
  { c with body := stripDirective marker c.body }

end Candidate

end Worklet
