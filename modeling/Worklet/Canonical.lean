import Worklet.Candidate
import Worklet.Syntax.Print
import Worklet.Text.Blank

/-!
# Canonical text

The text that `canonicalize` gives, with the visits of its `Normalizer`. A candidate is written as
one compact function of a fixed name, whatever its form. Places, the spelling of literals and types
are erased first, so that the text depends on parameters and body alone.
-/

set_option autoImplicit false

namespace Worklet

open Syntax

def canonicalName : String := "_f"

/-- The statement declares only types, or what exists elsewhere. -/
def isTypeOnly : Ast → Bool
  | .node (.interfaceDecl _) _ _ => true
  | .node (.typeAlias _) _ _ => true
  | .node (.funcDecl isDeclare) _ [_, f] => isDeclare || (f.child 2).isAbsent
  | .node (.varDecl _ isDeclare) _ _ => isDeclare
  | _ => false

/-- The kind without the spelling of a string or number. -/
def normalKind : Kind → Kind
  | .strLit v _ => .strLit v none
  | .numLit v _ => .numLit v none
  | k => k

def isTypeWrapper : Kind → Bool
  | .asType | .satisfiesType | .typeAssertion | .nonNull | .asConst | .instantiation => true
  | _ => false

mutual

/-- The tree without places, spellings and types. The target of an assignment keeps a type that
stands directly around it. -/
def normalize : Ast → Ast
  | .absent => .absent
  | .list ts => .list (normalizeAll ts)
  | .node (.bindName _) _ [name, _] => made (.bindName false) [normalize name, .absent]
  | .node (.arrayPat _) _ [es, _] => made (.arrayPat false) [normalize es, .absent]
  | .node (.objectPat _) _ [ps, _] => made (.objectPat false) [normalize ps, .absent]
  | .node .restPat _ [p, _] => made .restPat [normalize p, .absent]
  | .node (.function a g) _ [params, decorators, body, _, _] =>
    made (.function a g)
      [normalize params, normalize decorators, normalize body, .absent, .absent]
  | .node (.arrow a) _ [params, body, _, _] =>
    made (.arrow a) [normalize params, normalize body, .absent, .absent]
  | .node .call _ [callee, args, _] => made .call [normalize callee, normalize args, .absent]
  | .node .new_ _ [callee, args, _] => made .new_ [normalize callee, normalize args, .absent]
  | .node (.class_ abs) _ [decorators, members, base, _, _, _] =>
    made (.class_ abs)
      [normalize decorators, normalize members, normalize base, .absent, .absent, .list []]
  | .node (.classProp mods) _ [key, value, type, decorators] =>
    made (.classProp mods)
      [normalize key, normalize value, if key.isPrivateName then normalize type else .absent,
        normalize decorators]
  | .node (.assign op) _ [.node k s cs, value] =>
    made (.assign op)
      [if isTypeWrapper k then made k (normalizeAll cs) else normalize (.node k s cs),
        normalize value]
  | .node .block _ stmts => made .block (normalizeStmts stmts)
  | .node .switchCase _ (test :: stmts) =>
    made .switchCase (normalize test :: normalizeStmts stmts)
  | .node .asType _ (e :: _) => normalize e
  | .node .satisfiesType _ (e :: _) => normalize e
  | .node .typeAssertion _ (e :: _) => normalize e
  | .node .nonNull _ (e :: _) => normalize e
  | .node .asConst _ (e :: _) => normalize e
  | .node .instantiation _ (e :: _) => normalize e
  | .node k _ cs => made (normalKind k) (normalizeAll cs)

/-- The trees without places, spellings and types. -/
def normalizeAll : List Ast → List Ast
  | [] => []
  | t :: ts => normalize t :: normalizeAll ts

/-- The statements that matter at run time. -/
def normalizeStmts : List Ast → List Ast
  | [] => []
  | t :: ts => if isTypeOnly t then normalizeStmts ts else normalize t :: normalizeStmts ts

end

/-- The module that holds a candidate as a canonical function. -/
def canonicalModule (c : Candidate) : Ast :=
  made (.module none)
    [normalize (made (.funcDecl false) [madeIdent canonicalName, c.toFunction])]

/-- The canonical text of a candidate, which has lost its marker. -/
def canonicalText (target : Target) (c : Candidate) : String :=
  Text.trim (printTree ⟨true, target⟩ Comments.empty (canonicalModule c))

end Worklet
