import Worklet.Candidate

/-!
# The functions and calls of a tree

Both are listed by where they begin; of two that begin together the longer comes first.
-/

set_option autoImplicit false

namespace Worklet

open Syntax

/-- One span begins before another, or with it and ends no sooner. -/
def Syntax.Span.precedes (a b : Span) : Bool :=
  a.lo < b.lo || (a.lo == b.lo && b.hi ≤ a.hi)

/-- The candidate that a node is. Of classes, constructors and private methods are none. -/
def candidate? : Ast → Option Candidate
  | .node (.funcDecl _) _ [name, f] => Candidate.ofFunction .declaration name.identName? f
  | .node .funcExpr s cs => Candidate.ofExpr (.node .funcExpr s cs)
  | .node (.arrow a) s cs => Candidate.ofArrow (.node (.arrow a) s cs)
  | .node .method _ [key, f] => Candidate.ofFunction .objectMethod (keyText key) f
  | .node .getter s cs => Candidate.ofGetter (.node .getter s cs)
  | .node .setter s cs => Candidate.ofSetter (.node .setter s cs)
  | .node (.classMethod _ _) _ [.node (.privateName _) _ _, _] => none
  | .node (.classMethod kind mods) _ [key, f] =>
    Candidate.ofFunction (.ofMethod kind mods.isStatic) (keyText key) f
  | _ => none

mutual

/-- The candidates of a tree, parts after the whole. A default export is a declaration. -/
def findCandidates : Ast → List Candidate
  | .absent => []
  | .list ts => findAllCandidates ts
  | .node .exportDefaultDecl _ [.node .funcExpr _ [name, f]] =>
    (Candidate.ofFunction .declaration name.identName? f).toList ++ findCandidates f
  | .node k s cs => (candidate? (.node k s cs)).toList ++ findAllCandidates cs

def findAllCandidates : List Ast → List Candidate
  | [] => []
  | t :: ts => findCandidates t ++ findAllCandidates ts

end

/-- The candidates of a tree in order. -/
def candidates (t : Ast) : List Candidate :=
  (findCandidates t).mergeSort fun a b => a.span.precedes b.span

mutual

/-- The calls of a tree, parts after the whole. -/
def findCalls : Ast → List Ast
  | .absent => []
  | .list ts => findAllCalls ts
  | .node .call s cs => .node .call s cs :: findAllCalls cs
  | .node _ _ cs => findAllCalls cs

def findAllCalls : List Ast → List Ast
  | [] => []
  | t :: ts => findCalls t ++ findAllCalls ts

end

/-- The calls of a tree in order. -/
def calls (t : Ast) : List Ast :=
  (findCalls t).mergeSort fun a b => a.span.precedes b.span

end Worklet
