/-!
# Bindings and scopes

* `ScopeKind` — what opens a scope.
-/

set_option autoImplicit false

namespace Worklet

/-- How a name came to be bound. -/
inductive BindingKind where
  | var | «let» | const | function | «class» | param | «import» | catchParam
  deriving DecidableEq, Repr, Inhabited

namespace BindingKind

def name : BindingKind → String
  | .var => "var" | .let => "let" | .const => "const" | .function => "function"
  | .class => "class" | .param => "param" | .import => "import" | .catchParam => "catch-param"

def all : List BindingKind :=
  [.var, .let, .const, .function, .class, .param, .import, .catchParam]

def ofName? (s : String) : Option BindingKind :=
  all.find? fun k => k.name == s

/-- The complaint about a word that names no kind. -/
def complaint (word : String) : String :=
  "unknown variant `" ++ word ++ "`, expected one of " ++
    ", ".intercalate (all.map fun k => "`" ++ k.name ++ "`")

/-- The binding belongs to the function around it, not to the block. -/
def isFunctionScoped : BindingKind → Bool
  | .var => true
  | _ => false

end BindingKind

inductive ScopeKind where
  | module | function | block | «catch» | «class»
  deriving DecidableEq, Repr, Inhabited

namespace ScopeKind

def name : ScopeKind → String
  | .module => "module" | .function => "function" | .block => "block" | .catch => "catch"
  | .class => "class"

/-- Bindings of functions stop at such a scope. -/
def isFunctionBoundary : ScopeKind → Bool
  | .module | .function => true
  | _ => false

end ScopeKind

end Worklet
