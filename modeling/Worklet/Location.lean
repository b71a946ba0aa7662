import Worklet.Text.Position

/-!
# Locations and diagnostics

* `Location` — a place in a named file, with its text.
* `Refusal` — why a function stays as it is.
* `Diagnostic` — a refusal with the place of the function.
-/

set_option autoImplicit false

namespace Worklet

/-- A place in a named file: lines are counted from one, columns from zero. -/
structure Location where
  file : String
  line : Nat
  column : Nat
  deriving DecidableEq, Repr, Inhabited

namespace Location

def text (l : Location) : String :=
  l.file ++ " (" ++ toString l.line ++ ":" ++ toString l.column ++ ")"

def ofPosition (file : String) (p : Text.Position) : Location :=
  ⟨file, p.line, p.column⟩

end Location

/-- A form of function that cannot be made a worklet. -/
inductive Shape where
  | generator
  | usesSuper
  | constructor
  | privateMethod
  deriving DecidableEq, Repr, Inhabited

/-- What such a form is called. -/
def Shape.text : Shape → String
  | .generator => "generator function"
  | .usesSuper => "function using super"
  | .constructor => "class constructor"
  | .privateMethod => "private class method"

/-- Why a function stays as it is. -/
inductive Refusal where
  | unsupported (shape : Shape)
  | unresolvedScope
  deriving DecidableEq, Repr, Inhabited

/-- The reason in words. -/
def Refusal.message : Refusal → String
  | .unsupported shape => "unsupported worklet shape: " ++ shape.text
  | .unresolvedScope => "cannot resolve the enclosing scope of this worklet"

/-- A function that stays as it is. -/
structure Diagnostic where
  refusal : Refusal
  location : Location
  deriving DecidableEq, Repr, Inhabited

def Diagnostic.text (d : Diagnostic) : String :=
  d.location.text ++ ": " ++ d.refusal.message

end Worklet
