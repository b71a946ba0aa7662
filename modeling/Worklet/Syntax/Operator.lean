/-!
# Operators and modifiers

The closed families of words and signs that kinds of syntax carry, each with its spelling.
-/

set_option autoImplicit false

namespace Worklet.Syntax

/-- Operators before one operand. -/
inductive UnaryOp where
  | minus | plus | not | complement | typeOf | void | delete
  deriving DecidableEq, Repr

def UnaryOp.text : UnaryOp → String
  | .minus => "-" | .plus => "+" | .not => "!" | .complement => "~"
  | .typeOf => "typeof" | .void => "void" | .delete => "delete"

def UnaryOp.isWord : UnaryOp → Bool
  | .typeOf | .void | .delete => true
  | _ => false

/-- Steps up and down. -/
inductive UpdateOp where
  | increment | decrement
  deriving DecidableEq, Repr

def UpdateOp.text : UpdateOp → String
  | .increment => "++" | .decrement => "--"

/-- Operators between two operands. -/
inductive BinaryOp where
  | eq | ne | eqStrict | neStrict | lt | le | gt | ge
  | shl | shr | shrUnsigned | add | sub | mul | div | mod
  | bitOr | bitXor | bitAnd | isIn | instanceOf | exp
  | logicalOr | logicalAnd | coalesce
  deriving DecidableEq, Repr

namespace BinaryOp

def text : BinaryOp → String
  | .eq => "==" | .ne => "!=" | .eqStrict => "===" | .neStrict => "!=="
  | .lt => "<" | .le => "<=" | .gt => ">" | .ge => ">="
  | .shl => "<<" | .shr => ">>" | .shrUnsigned => ">>>"
  | .add => "+" | .sub => "-" | .mul => "*" | .div => "/" | .mod => "%"
  | .bitOr => "|" | .bitXor => "^" | .bitAnd => "&" | .isIn => "in"
  | .instanceOf => "instanceof" | .exp => "**"
  | .logicalOr => "||" | .logicalAnd => "&&" | .coalesce => "??"

def all : List BinaryOp :=
  [.eq, .ne, .eqStrict, .neStrict, .lt, .le, .gt, .ge, .shl, .shr, .shrUnsigned, .add, .sub,
    .mul, .div, .mod, .bitOr, .bitXor, .bitAnd, .isIn, .instanceOf, .exp, .logicalOr,
    .logicalAnd, .coalesce]

def ofText? (s : String) : Option BinaryOp :=
  all.find? fun op => op.text == s

/-- How tightly the operator binds. -/
def precedence : BinaryOp → Nat
  | .coalesce => 1 | .logicalOr => 1 | .logicalAnd => 2
  | .bitOr => 3 | .bitXor => 4 | .bitAnd => 5
  | .eq | .ne | .eqStrict | .neStrict => 6
  | .lt | .le | .gt | .ge | .isIn | .instanceOf => 7
  | .shl | .shr | .shrUnsigned => 8
  | .add | .sub => 9
  | .mul | .div | .mod => 10
  | .exp => 11

def isWord : BinaryOp → Bool
  | .isIn | .instanceOf => true
  | _ => false

end BinaryOp

/-- Assignment, plain or combined with an operator. -/
inductive AssignOp where
  | plain
  | combined (op : BinaryOp)
  deriving DecidableEq, Repr

namespace AssignOp

def text : AssignOp → String
  | .plain => "="
  | .combined op => op.text ++ "="

/-- The operators that can be combined with an assignment. -/
def combinable : List BinaryOp :=
  [.add, .sub, .mul, .div, .mod, .shl, .shr, .shrUnsigned, .bitOr, .bitXor, .bitAnd, .exp,
    .logicalOr, .logicalAnd, .coalesce]

def ofText? (s : String) : Option AssignOp :=
  if s == "=" then some .plain
  else (combinable.find? fun op => op.text ++ "=" == s).map .combined

end AssignOp

/-- Words that open a declaration of variables. -/
inductive VarKind where
  | var | «let» | const
  deriving DecidableEq, Repr

/-- The spelling of the word. -/
def VarKind.text : VarKind → String
  | .var => "var" | .let => "let" | .const => "const"

/-- Who may use a class member. -/
inductive Access where
  | «public» | «protected» | «private»
  deriving DecidableEq, Repr

/-- The spelling of the word. -/
def Access.text : Access → String
  | .public => "public" | .protected => "protected" | .private => "private"

/-- The words and marks that qualify a class member. -/
structure Modifiers where
  access : Option Access := none
  isStatic : Bool := false
  isAbstract : Bool := false
  isOverride : Bool := false
  isReadonly : Bool := false
  isDeclare : Bool := false
  isOptional : Bool := false
  isDefinite : Bool := false
  deriving DecidableEq, Repr, Inhabited

inductive MethodKind where
  | method | getter | setter
  deriving DecidableEq, Repr

/-- A mark of a mapped type that is there, added or removed. -/
inductive MappedMark where
  | present | plus | minus
  deriving DecidableEq, Repr

inductive NamespaceWord where
  | namespaceWord | moduleWord | globalWord
  deriving DecidableEq, Repr

end Worklet.Syntax
