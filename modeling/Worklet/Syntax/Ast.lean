import Worklet.Syntax.Kind
import Worklet.Syntax.Span

/-!
# Syntax trees

One type for all syntax: a node has a kind, a span and children in the fixed order that the
kind documents. A child that is not there is `absent`, so that a place keeps its index; children
of which there may be any number form a `list` among the others.
-/

set_option autoImplicit false

namespace Worklet.Syntax

/-- A piece of syntax, a missing piece, or a sequence of pieces. -/
inductive Ast where
  | absent
  | list (items : List Ast)
  | node (kind : Kind) (span : Span) (children : List Ast)
  deriving Repr, Inhabited

namespace Ast

def kind? : Ast → Option Kind
  | .node k _ _ => some k
  | _ => none

/-- The span of a node; what is no node has no place. -/
def span : Ast → Span
  | .node _ s _ => s
  | _ => Span.made

def children : Ast → List Ast
  | .node _ _ cs => cs
  | _ => []

def items : Ast → List Ast
  | .list ts => ts
  | _ => []

/-- The child at an index, or `absent`. -/
def child (t : Ast) (i : Nat) : Ast :=
  t.children.getD i .absent

/-- The piece is not there. -/
def isAbsent : Ast → Bool
  | .absent => true
  | _ => false

/-- The piece is there. -/
def isPresent (t : Ast) : Bool :=
  !t.isAbsent

end Ast

namespace Kind

/-- The node is an expression. -/
def isExpr : Kind → Bool
  | .ident _ | .privateName _ | .nullLit | .boolLit _ | .numLit .. | .strLit .. | .bigintLit ..
  | .regexLit .. | .template | .this | .superWord | .importWord | .newTarget
  | .importMeta | .array | .object
  | .funcExpr | .arrow _ | .classExpr | .unary _ | .update .. | .binary _ | .assign _
  | .conditional | .sequence | .paren | .member | .superMember | .call | .new_ | .optMember _
  | .optCall _ | .tagged | .yield_ _ | .await | .asType | .satisfiesType | .typeAssertion
  | .nonNull | .asConst | .instantiation | .jsxElement | .jsxFragment | .jsxMember
  | .jsxNamespaced | .jsxEmpty => true
  | _ => false

/-- The node is a declaration that may also be exported. -/
def isDeclaration : Kind → Bool
  | .varDecl .. | .usingDecl _ | .funcDecl _ | .classDecl _ | .interfaceDecl _ | .typeAlias _
  | .enumDecl .. | .namespaceDecl .. => true
  | _ => false

/-- The node is a statement. -/
def isStmt : Kind → Bool
  | .block | .emptyStmt | .debuggerStmt | .exprStmt | .returnStmt | .throwStmt | .ifStmt
  | .whileStmt | .doWhileStmt | .forStmt | .forIn | .forOf _ | .labeled | .breakStmt
  | .continueStmt | .switchStmt | .tryStmt | .withStmt => true
  | k => k.isDeclaration

/-- The node stands only at the top of a module or namespace. -/
def isModuleDecl : Kind → Bool
  | .importDecl _ | .exportDecl | .exportNamed .. | .exportAll _ | .exportDefaultDecl
  | .exportDefaultExpr | .importEquals .. | .exportAssign | .exportAsNamespace => true
  | _ => false

end Kind

end Worklet.Syntax
