import Worklet.Scope.Outline

/-!
# Scope tables

The scopes of a module by number, in the order in which they open, with what each binds, the
scope of each function and all references.

* `Scope`, `ScopeTable` — a scope and the table.
* `ScopeTable.ofModule` — the table of a module.
* `ScopeTable.functionScope?` — the scope of a function, by the function's span.
-/

set_option autoImplicit false

namespace Worklet

open Syntax

structure Scope where
  kind : ScopeKind
  /-- The scopes around it, from the nearest to the module. -/
  around : List Nat
  /-- The bound names in order of first declaration; the first declaration counts. -/
  bindings : List (String × BindingKind)
  deriving DecidableEq, Repr, Inhabited

namespace Scope

/-- The scope directly around. -/
def parent? (s : Scope) : Option Nat :=
  s.around.head?

def binding? (s : Scope) (name : String) : Option BindingKind :=
  (s.bindings.find? fun b => b.1 == name).map (·.2)

/-- Binds a name that is not bound yet. -/
def bind (s : Scope) (name : String) (kind : BindingKind) : Scope :=
  if (s.binding? name).isSome then s else { s with bindings := s.bindings ++ [(name, kind)] }

end Scope

/-- A mention of a name in a scope. -/
structure Reference where
  name : String
  scope : Nat
  deriving DecidableEq, Repr, Inhabited

/-- A binding, by its scope. -/
structure Resolution where
  scope : Nat
  kind : BindingKind
  deriving DecidableEq, Repr, Inhabited

/-- The scopes, functions and references of a module. -/
structure ScopeTable where
  scopes : List Scope
  /-- The scopes of functions by the functions' spans, the last one first. -/
  functions : List (Span × Nat)
  references : List Reference
  deriving DecidableEq, Repr, Inhabited

namespace ScopeTable

/-- The number of a module's own scope. -/
def root : Nat := 0

def empty : ScopeTable := ⟨[⟨.module, [], []⟩], [], []⟩

def scope? (t : ScopeTable) (id : Nat) : Option Scope :=
  t.scopes[id]?

/-- A scope and those around it, from the inside out. An unknown scope has none. -/
def chain (t : ScopeTable) (id : Nat) : List Nat :=
  match t.scope? id with
  | some s => id :: s.around
  | none => []

/-- The binding that a name denotes in a scope: that of the nearest scope that binds it. -/
def resolve (t : ScopeTable) (id : Nat) (name : String) : Option Resolution :=
  (t.chain id).findSome? fun i =>
    ((t.scope? i).bind fun s => s.binding? name).map fun kind => ⟨i, kind⟩

/-- The first scope is the second or lies in it. -/
def isWithin (t : ScopeTable) (id ancestor : Nat) : Bool :=
  id == ancestor || (t.chain id).contains ancestor

def functionScope? (t : ScopeTable) (span : Span) : Option Nat :=
  (t.functions.find? fun e => e.1 == span).map (·.2)

/-- The scope is the module or a function. -/
def isBoundary (t : ScopeTable) (id : Nat) : Bool :=
  (t.scope? id).any fun s => s.kind.isFunctionBoundary

/-- The nearest function, or else the module. -/
def nearestFunction (t : ScopeTable) (id : Nat) : Nat :=
  ((t.chain id).find? t.isBoundary).getD root

/-- Declares a name in a scope. What belongs to functions is bound in the nearest one. -/
def declare (t : ScopeTable) (id : Nat) (name : String) (kind : BindingKind) : ScopeTable :=
  let home := if kind.isFunctionScoped then t.nearestFunction id else id
  { t with scopes := t.scopes.modify home fun s => s.bind name kind }

/-- Records a reference. -/
def refer (t : ScopeTable) (id : Nat) (name : String) : ScopeTable :=
  { t with references := t.references ++ [⟨name, id⟩] }

/-- Opens a scope inside another. A function that was made and not read is not found by its
span. -/
def openScope (t : ScopeTable) (id : Nat) (kind : ScopeKind) (function : Option Span) :
    ScopeTable :=
  { t with
    scopes := t.scopes ++ [⟨kind, t.chain id, []⟩]
    functions :=
      match function with
      | some span => if span.isMade then t.functions else (span, t.scopes.length) :: t.functions
      | none => t.functions }

mutual

/-- The table with a fact that holds in a scope. -/
def add (t : ScopeTable) (id : Nat) : Outline → ScopeTable
  | .reference name => t.refer id name
  | .declare name kind => t.declare id name kind
  | .scope kind function body => (t.openScope id kind function).addAll t.scopes.length body

def addAll (t : ScopeTable) (id : Nat) : List Outline → ScopeTable
  | [] => t
  | o :: os => (t.add id o).addAll id os

end

def ofModule (module : Ast) : ScopeTable :=
  empty.addAll root (outline module)

def isEmpty (t : ScopeTable) : Bool :=
  t.scopes.isEmpty

end ScopeTable

end Worklet
