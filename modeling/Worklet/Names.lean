import Worklet.Syntax.Build

/-!
# Names in use

* `UsedNames` — names in use, with `UsedNames.fresh` to find one that is not.
-/

set_option autoImplicit false

namespace Worklet

open Syntax

mutual

/-- The identifiers of a tree, in order. -/
def identNames : Ast → List String
  | .absent => []
  | .list ts => identNamesAll ts
  | .node (.ident n) _ _ => [n]
  | .node _ _ cs => identNamesAll cs

/-- The identifiers of trees, in order. -/
def identNamesAll : List Ast → List String
  | [] => []
  | t :: ts => identNames t ++ identNamesAll ts

end

structure UsedNames where
  names : List String
  deriving Repr, Inhabited

namespace UsedNames

def empty : UsedNames := ⟨[]⟩

def ofTree (t : Ast) : UsedNames := ⟨identNames t⟩

def contains (u : UsedNames) (name : String) : Bool :=
  u.names.contains name

/-- Takes a name into use. -/
def insert (u : UsedNames) (name : String) : UsedNames :=
  ⟨name :: u.names⟩

/-- The first of `base ++ n`, `base ++ (n + 1)`, … that is free, among `fuel` many. -/
def numbered (u : UsedNames) (base : String) : Nat → Nat → String
  | 0, n => base ++ toString n
  | fuel + 1, n =>
    let name := base ++ toString n
    if u.contains name then u.numbered base fuel (n + 1) else name

/-- The base if it is free, or else the base with the least number that makes it free. Of one
more name than there are in use, one is free. -/
def freshName (u : UsedNames) (base : String) : String :=
  if u.contains base then u.numbered base u.names.length 1 else base

/-- A free name, which is then in use. -/
def fresh (u : UsedNames) (base : String) : String × UsedNames :=
  let name := u.freshName base
  (name, u.insert name)

end UsedNames

end Worklet
