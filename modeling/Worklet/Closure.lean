import Worklet.Candidate
import Worklet.Location
import Worklet.Scope.Table

/-!
# Closures

What a function takes from around it, as `analyze` finds it.

* `capture` — the closure of a candidate.
-/

set_option autoImplicit false

namespace Worklet

/-- Captured names with their bindings, each name once. -/
structure Closure where
  entries : List (String × Resolution)
  deriving DecidableEq, Repr, Inhabited

namespace Closure

/-- Nothing captured. -/
def empty : Closure := ⟨[]⟩

def names (c : Closure) : List String :=
  c.entries.map (·.1)

/-- Captures a name that was not captured before. -/
def insert (c : Closure) (name : String) (r : Resolution) : Closure :=
  if c.names.contains name then c else ⟨c.entries ++ [(name, r)]⟩

/-- The number of names. -/
def size (c : Closure) : Nat :=
  c.entries.length

/-- Nothing is captured. -/
def isEmpty (c : Closure) : Bool :=
  c.entries.isEmpty

end Closure

/-- What a reference inside a function's scope captures: a binding outside, unless the name is
the function's own. -/
def captured? (t : ScopeTable) (own : Nat) (ownName : Option String) (r : Reference) :
    Option Resolution :=
  if t.isWithin r.scope own && ownName != some r.name then
    (t.resolve r.scope r.name).filter fun b => !t.isWithin b.scope own
  else none

def captureFrom (t : ScopeTable) (own : Nat) (ownName : Option String) : Closure :=
  t.references.foldl
    (fun c r =>
      match captured? t own ownName r with
      | some b => c.insert r.name b
      | none => c)
    .empty

def capture (t : ScopeTable) (c : Candidate) : Except Refusal Closure :=
  match t.functionScope? c.span with
  | some own => .ok (captureFrom t own c.ownName?)
  | none => .error .unresolvedScope

end Worklet
