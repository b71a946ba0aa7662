import Worklet.Scope.Binding
import Worklet.Syntax.Build

/-!
# The outline of a program

All that matters for names: which scopes a program opens, what each declares and what it refers
to, in the order in which `ScopeBuilder` visits. Its visits of functions, constructors, patterns,
loops and tags have an equation each; every other node is visited by its parts. Types are no part
of it, nor are bodies of namespaces and values of enumerations.

* `outline` — the outline of a tree.
-/

set_option autoImplicit false

namespace Worklet

open Syntax

/-- A fact about names. A scope that belongs to a function has the function's span. -/
inductive Outline where
  | reference (name : String)
  | declare (name : String) (kind : BindingKind)
  | scope (kind : ScopeKind) (function : Option Span) (body : List Outline)
  deriving Repr, Inhabited

mutual

/-- The names that a pattern binds, in order. -/
def boundNames : Ast → List String
  | .node (.bindName _) _ [.node (.ident n) _ _, _] => [n]
  | .node (.arrayPat _) _ [.list es, _] => boundNamesAll es
  | .node (.objectPat _) _ [.list ps, _] => boundNamesAll ps
  | .node .restPat _ [p, _] => boundNames p
  | .node .assignPat _ [p, _] => boundNames p
  | .node .patProp _ [_, p] => boundNames p
  | .node .patShorthand _ [p, _] => boundNames p
  | _ => []

/-- The names that patterns bind. -/
def boundNamesAll : List Ast → List String
  | [] => []
  | t :: ts => boundNames t ++ boundNamesAll ts

end

/-- A type, which says nothing about names. -/
def isTypeKind : Kind → Bool
  | .typeAnn | .typeParams | .typeArgs | .typeParam .. | .keywordType _ | .thisType | .fnType
  | .ctorType _ | .typeRef | .typeQuery | .typeLit | .arrayType | .tupleType
  | .tupleElement | .optionalType | .restType | .unionType | .intersectionType
  | .conditionalType | .inferType | .parenType | .typeOperator _ | .indexedType
  | .mappedType .. | .litType | .templateType | .typePredicate _ | .importType | .heritage
  | .interfaceDecl _ | .typeAlias _ | .namespaceDecl .. => true
  | _ => false

/-- How a declaration of variables binds. -/
def varBinding : VarKind → BindingKind
  | .var => .var
  | .let => .let
  | .const => .const

def declareAll (kind : BindingKind) (names : List String) : List Outline :=
  names.map fun n => .declare n kind

/-- The declaration of a name that may be absent. -/
def declareName (kind : BindingKind) (name : Ast) : List Outline :=
  declareAll kind name.identName?.toList

/-- The binding of an import specifier; one that imports a type binds nothing. -/
def importBinding : Ast → List Outline
  | .node (.importNamed false) _ (name :: _) => declareName .import name
  | .node .importDefault _ (name :: _) => declareName .import name
  | .node .importStar _ (name :: _) => declareName .import name
  | _ => []

/-- The reference that the name of an element makes: a name in small letters is no binding, and
of a name with dots the first part counts. -/
def elementReference : Ast → List Outline
  | .node (.ident n) _ _ => if n.front.isUpper then [.reference n] else []
  | .node .jsxMember _ (obj :: _) => root obj
  | _ => []
where
  root : Ast → List Outline
    | .node (.ident n) _ _ => [.reference n]
    | .node .jsxMember _ (obj :: _) => root obj
    | _ => []

/-- What becomes of the names in a pattern. -/
inductive Naming where
  /-- They refer, as those of an expression do. -/
  | refers
  /-- They are bound, and only the expressions in the pattern refer. -/
  | binds
  deriving DecidableEq, Repr

/-- The facts about a function's body: a block that is a body has the scope of the function. -/
def bodyFacts : Ast → List Outline → List Outline
  | .node .block _ _, [.scope _ _ facts] => facts
  | _, facts => facts

mutual

/-- The outline of a tree, whose patterns name things in the given way. -/
def outlineAs (naming : Naming) : Ast → List Outline
  | .absent => []
  | .list ts => outlineAll naming ts
  | .node (.ident n) _ _ => [.reference n]
  | .node (.bindName _) _ cs => if naming = .binds then [] else outlineAll .refers cs
  | .node (.arrayPat _) _ [es, _] => outlineAs naming es
  | .node (.objectPat _) _ [ps, _] => outlineAs naming ps
  | .node .restPat _ [p, _] => outlineAs naming p
  | .node .assignPat _ [p, v] => outlineAs naming p ++ outlineAs .refers v
  | .node .patProp _ [k, p] => outlineAs .refers k ++ outlineAs naming p
  | .node .patShorthand _ [p, v] => outlineAs naming p ++ outlineAs .refers v
  | .node (.importDecl isType) _ (.list specs :: _) =>
    if isType then [] else specs.flatMap importBinding
  | .node .exportDefaultDecl _ [.node .funcExpr _ [name, f]] =>
    declareName .function name ++ outlineAs .refers f
  | .node .exportDefaultDecl _ [.node .classExpr _ [name, c]] =>
    declareName .class name ++ outlineAs .refers c
  | .node (.funcDecl _) _ [name, f] => declareName .function name ++ outlineAs .refers f
  | .node .funcExpr _ [name, .node (.function _ _) s (params :: decorators :: body :: _)] =>
    outlineAs .refers decorators ++
      [.scope .function (some s)
        (declareName .function name ++ outlineAs .refers params ++
          bodyFacts body (outlineAs .refers body))]
  | .node (.function _ _) s (params :: decorators :: body :: _) =>
    outlineAs .refers decorators ++
      [.scope .function (some s)
        (outlineAs .refers params ++ bodyFacts body (outlineAs .refers body))]
  | .node .param _ [decorators, p] =>
    outlineAs .refers decorators ++ declareAll .param (boundNames p) ++ outlineAs .binds p
  | .node (.constructor _ _) s [key, .list params, body] =>
    outlineAs .refers key ++
      [.scope .function (some s)
        (outlineCtorParams params ++ bodyFacts body (outlineAs .refers body))]
  | .node (.arrow _) s (.list params :: body :: _) =>
    [.scope .function (some s)
      (outlinePatterns params ++ bodyFacts body (outlineAs .refers body))]
  | .node .getter s [key, _, body] =>
    outlineAs .refers key ++
      [.scope .function (some s) (bodyFacts body (outlineAs .refers body))]
  | .node .setter s [key, _, param, body] =>
    outlineAs .refers key ++
      [.scope .function (some s)
        (declareAll .param (boundNames param) ++ outlineAs .binds param ++
          bodyFacts body (outlineAs .refers body))]
  | .node .block _ ss => [.scope .block none (outlineAll .refers ss)]
  | .node .catchClause _ [param, body] =>
    [.scope .catch none
      (declareAll .catchParam (boundNames param) ++ outlineAs .binds param ++
        outlineAs .refers body)]
  | .node .forStmt _ cs => [.scope .block none (outlineAll .refers cs)]
  | .node .forIn _ cs => [.scope .block none (outlineAll .refers cs)]
  | .node (.forOf _) _ cs => [.scope .block none (outlineAll .refers cs)]
  | .node .switchStmt _ [v, cases] =>
    outlineAs .refers v ++ [.scope .block none (outlineAs .refers cases)]
  | .node (.varDecl kind _) _ ds => outlineDeclarators (varBinding kind) ds
  | .node (.classDecl _) _ [name, c] => declareName .class name ++ outlineAs .refers c
  | .node .classExpr _ [name, c] =>
    if name.isPresent then [.scope .class none (declareName .class name ++ outlineAs .refers c)]
    else outlineAs .refers c
  | .node .labeled _ [_, body] => outlineAs .refers body
  | .node .breakStmt _ _ => []
  | .node .continueStmt _ _ => []
  | .node (.jsxOpening _) _ (name :: rest) => elementReference name ++ outlineAll .refers rest
  | .node .jsxClosing _ (name :: _) => elementReference name
  | .node (.enumDecl _ _) _ (name :: _) => declareName .const name
  | .node k _ cs => if isTypeKind k then [] else outlineAll .refers cs

/-- The outlines of trees, one after the other. -/
def outlineAll (naming : Naming) : List Ast → List Outline
  | [] => []
  | t :: ts => outlineAs naming t ++ outlineAll naming ts

/-- The outline of the parameters of a constructor. Their decorators say nothing; of one that
declares a property only the default counts. -/
def outlineCtorParams : List Ast → List Outline
  | [] => []
  | .node .param _ [_, p] :: ts =>
    declareAll .param (boundNames p) ++ outlineAs .binds p ++ outlineCtorParams ts
  | .node (.paramProp _) _ [_, .node .assignPat _ [p, v]] :: ts =>
    declareAll .param (boundNames p) ++ outlineAs .refers v ++ outlineCtorParams ts
  | .node (.paramProp _) _ [_, p] :: ts =>
    declareAll .param (boundNames p) ++ outlineCtorParams ts
  | _ :: ts => outlineCtorParams ts

/-- The outline of parameters that are bare patterns. -/
def outlinePatterns : List Ast → List Outline
  | [] => []
  | p :: ts => declareAll .param (boundNames p) ++ outlineAs .binds p ++ outlinePatterns ts

/-- The outline of declared variables. -/
def outlineDeclarators (kind : BindingKind) : List Ast → List Outline
  | [] => []
  | .node (.declarator _) _ [p, v] :: ts =>
    declareAll kind (boundNames p) ++ outlineAs .binds p ++ outlineAs .refers v ++
      outlineDeclarators kind ts
  | _ :: ts => outlineDeclarators kind ts

end

def outline (t : Ast) : List Outline :=
  outlineAs .refers t

end Worklet
