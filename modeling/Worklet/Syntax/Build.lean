import Worklet.Syntax.Ast
import Worklet.Text.Units

/-!
# Made syntax

Nodes that were made and not read, and small views of trees.

* `made` — a made node; `madeIdent`, `madeString` and others for common forms.
-/

set_option autoImplicit false

namespace Worklet.Syntax

def made (k : Kind) (children : List Ast) : Ast := .node k Span.made children

def madeIdent (name : String) : Ast := made (.ident name) []

def madeBinding (name : String) : Ast := made (.bindName false) [madeIdent name, .absent]

def madeString (s : String) : Ast := made (.strLit (Text.units s) none) []

def madeNumber (n : Nat) : Ast :=
  made (.numLit (Binary64.ofNat n) (some (toString n))) []

def madeMember (obj : Ast) (prop : String) : Ast := made .member [obj, made (.word prop) []]

/-- An expression in parentheses. -/
def madeParen (e : Ast) : Ast := made .paren [e]

/-- An assignment. -/
def madeAssign (target value : Ast) : Ast := made (.assign .plain) [target, value]

def madeStatement (e : Ast) : Ast := made .exprStmt [e]

def madeReturn (e : Ast) : Ast := made .returnStmt [e]

def madeBlock (stmts : List Ast) : Ast := made .block stmts

/-- A declaration of one variable. -/
def madeVar (kind : VarKind) (name : String) (value : Ast) : Ast :=
  made (.varDecl kind false) [made (.declarator false) [madeBinding name, value]]

def madeCall (callee : Ast) (args : List Ast) : Ast :=
  made .call [callee, .list args, .absent]

def madeParam (pattern : Ast) : Ast := made .param [.list [], pattern]

def madeFunction (isAsync isGenerator : Bool) (params : List Ast) (body : Ast) : Ast :=
  made (.function isAsync isGenerator) [.list params, .list [], body, .absent, .absent]

def madeFunctionExpr (name : Ast) (f : Ast) : Ast := made .funcExpr [name, f]

namespace Ast

/-- The expression without the parentheses around it. -/
def unparen : Ast → Ast
  | .node .paren _ [e] => e.unparen
  | t => t

/-- The statements of a block. -/
def stmts : Ast → List Ast
  | .node .block _ ss => ss
  | _ => []

/-- The name that an identifier spells. -/
def identName? : Ast → Option String
  | .node (.ident n) _ _ => some n
  | _ => none

def isPrivateName : Ast → Bool
  | .node (.privateName _) _ _ => true
  | _ => false

end Ast

/-- The text of a key, if it is a word, a string or a number. -/
def keyText? (positional : Binary64 → String) : Ast → Option String
  | .node (.word w) _ _ => some w
  | .node (.strLit us _) _ _ => Text.ofUnits? us
  | .node (.numLit v _) _ _ => some (positional v)
  | _ => none

end Worklet.Syntax
