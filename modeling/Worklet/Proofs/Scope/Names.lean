import Worklet.Scope.Table

/-!
# The names of an outline

What an outline says about names, without numbers of scopes.
-/

set_option autoImplicit false

namespace Worklet

open Syntax

variable {k : ScopeKind} {body : List Outline} {n : String}

/-- The second function joins what the first makes of each member of a list. -/
structure Joins {α β : Type} (f : α → List β) (F : List α → List β) : Prop where
  nil : F [] = []
  cons : ∀ a as, F (a :: as) = f a ++ F as

namespace Joins

variable {α β : Type} {f : α → List β} {F : List α → List β} (h : Joins f F) {as : List α}
include h

theorem eq_flatMap (as : List α) : F as = as.flatMap f := by
  induction as with
  | nil => exact h.nil
  | cons a as ih => rw [h.cons, ih, List.flatMap_cons]

theorem mem {b : β} : b ∈ F as ↔ ∃ a ∈ as, b ∈ f a := by
  rw [h.eq_flatMap, List.mem_flatMap]

theorem append (as bs : List α) : F (as ++ bs) = F as ++ F bs := by
  simp only [h.eq_flatMap, List.flatMap_append]

theorem eq_nil (hs : ∀ a ∈ as, f a = []) : F as = [] := by
  rw [h.eq_flatMap, List.flatMap_eq_nil_iff]
  exact hs

end Joins

namespace Outline

/-- The name that a fact declares in the scope where it stands. -/
def lexical : Outline → List String
  | .declare n k => if k.isFunctionScoped then [] else [n]
  | _ => []

def lexicalAll (os : List Outline) : List String :=
  os.flatMap lexical

mutual

/-- The names that a fact declares in the function around it. -/
def hoisted : Outline → List String
  | .reference _ => []
  | .declare n k => if k.isFunctionScoped then [n] else []
  | .scope k _ body => if k.isFunctionBoundary then [] else hoistedAll body

def hoistedAll : List Outline → List String
  | [] => []
  | o :: os => hoisted o ++ hoistedAll os

end

/-- The names that a scope with these facts binds. -/
def declared (k : ScopeKind) (body : List Outline) : List String :=
  lexicalAll body ++ if k.isFunctionBoundary then hoistedAll body else []

mutual

/-- The names that a fact mentions and no scope in it binds, in order. -/
def free (given : Option Span → List String) : Outline → List String
  | .reference n => [n]
  | .declare _ _ => []
  | .scope k f body =>
    (freeAll given body).filter fun n => !((declared k body).contains n || (given f).contains n)

def freeAll (given : Option Span → List String) : List Outline → List String
  | [] => []
  | o :: os => free given o ++ freeAll given os

end

/-- No function is given names. -/
def bare : Option Span → List String := fun _ => []

/-- A function: the facts of its scope, and the names of the scopes around it. -/
structure Site where
  span : Span
  kind : ScopeKind
  facts : List Outline
  around : List (List String)

/-- The names that a function takes from outside. -/
def Site.free (s : Site) : List String :=
  Outline.free bare (.scope s.kind (some s.span) s.facts)

mutual

/-- The functions of a fact that stands in scopes with these names. -/
def sites (around : List (List String)) : Outline → List Site
  | .reference _ => []
  | .declare _ _ => []
  | .scope k f body =>
    (f.toList.map fun span => ⟨span, k, body, around⟩) ++ sitesAll (declared k body :: around) body

def sitesAll (around : List (List String)) : List Outline → List Site
  | [] => []
  | o :: os => sites around o ++ sitesAll around os

end

/-! ### Lists of facts -/

@[simp] theorem lexicalAll_nil : lexicalAll [] = [] := rfl

@[simp] theorem lexicalAll_cons (o : Outline) (os : List Outline) :
    lexicalAll (o :: os) = lexical o ++ lexicalAll os := rfl

@[simp] theorem lexicalAll_append (os os' : List Outline) :
    lexicalAll (os ++ os') = lexicalAll os ++ lexicalAll os' := by
  simp [lexicalAll]

@[simp] theorem hoistedAll_append (os os' : List Outline) :
    hoistedAll (os ++ os') = hoistedAll os ++ hoistedAll os' :=
  Joins.append ⟨rfl, fun _ _ => rfl⟩ _ _

@[simp] theorem freeAll_append (given : Option Span → List String) (os os' : List Outline) :
    freeAll given (os ++ os') = freeAll given os ++ freeAll given os' :=
  Joins.append ⟨rfl, fun _ _ => rfl⟩ _ _

@[simp] theorem sitesAll_append (around : List (List String)) (os os' : List Outline) :
    sitesAll around (os ++ os') = sitesAll around os ++ sitesAll around os' :=
  Joins.append ⟨rfl, fun _ _ => rfl⟩ _ _

@[simp] theorem free_reference (given : Option Span → List String) (n : String) :
    free given (.reference n) = [n] := by
  simp [free]

@[simp] theorem free_declare (given : Option Span → List String) (n : String) (k : BindingKind) :
    free given (.declare n k) = [] := by
  simp [free]

theorem lexicalAll_references (names : List String) :
    lexicalAll (names.map .reference) = [] := by
  simp [lexicalAll, lexical, List.flatMap_map]

theorem hoistedAll_references (names : List String) :
    hoistedAll (names.map .reference) = [] :=
  Joins.eq_nil ⟨rfl, fun _ _ => rfl⟩ (by simp [hoisted])

theorem sitesAll_references (around : List (List String)) (names : List String) :
    sitesAll around (names.map .reference) = [] :=
  Joins.eq_nil ⟨rfl, fun _ _ => rfl⟩ (by simp [sites])

theorem freeAll_references (given : Option Span → List String) (names : List String) :
    freeAll given (names.map .reference) = names := by
  induction names with
  | nil => rfl
  | cons n ns ih => simp [freeAll, ih]

@[simp] theorem freeAll_declareAll (given : Option Span → List String) (kind : BindingKind)
    (names : List String) : freeAll given (declareAll kind names) = [] :=
  Joins.eq_nil ⟨rfl, fun _ _ => rfl⟩ (by simp [declareAll, free])

theorem mem_free_scope {given : Option Span → List String} {f : Option Span} :
    n ∈ free given (.scope k f body) ↔
      n ∈ freeAll given body ∧ n ∉ declared k body ∧ n ∉ given f := by
  simp [free]

theorem mem_declared :
    n ∈ declared k body ↔
      n ∈ lexicalAll body ∨ (k.isFunctionBoundary = true ∧ n ∈ hoistedAll body) := by
  unfold declared
  split <;> simp_all

/-- The names that parameters with a body beside them take from the body. -/
def taken (params body : List Outline) : List String :=
  (freeAll bare params).filter fun n =>
    (declared .function body).contains n && !(declared .function params).contains n

theorem mem_declared_append {os os' : List Outline} :
    n ∈ declared k (os ++ os') ↔ n ∈ declared k os ∨ n ∈ declared k os' := by
  simp only [mem_declared, lexicalAll_append, hoistedAll_append, List.mem_append]
  grind

theorem mem_taken {params : List Outline} :
    n ∈ taken params body ↔
      n ∈ freeAll bare params ∧ n ∈ declared .function body ∧ n ∉ declared .function params := by
  simp [taken]

end Outline

end Worklet
