import Mathlib.Data.List.Perm.Basic
import Worklet.Proofs.Scope.Names

/-!
# Scoping rules

Free names by recursion on syntax alone. A rule tells what a node brings into the scope where it
stands and into the scope that it opens; the analysis carries the declared names of each scope
around and has no table.

Principal results: `Scoping.freeIn_eq` and `Scoping.sitesIn_perm`, which read the analysis off that
outline.
-/

set_option autoImplicit false

namespace Worklet

open Syntax Outline

/-- How a tree is read. -/
inductive Role where
  /-- As an expression or a statement: its names refer. -/
  | refers
  /-- As a pattern whose names are bound. -/
  | binds
  /-- As the body of a function. -/
  | body
  deriving DecidableEq, Repr

/-- What a node brings into a scope. -/
inductive Item where
  | mention (name : String)
  | declare (name : String) (kind : BindingKind)
  | part (role : Role) (tree : Ast)

/-- A scope that a node opens. One that belongs to a function has the function's span. -/
structure Opening where
  kind : ScopeKind
  function : Option Span
  items : List Item

/-- What a node brings into the scope where it stands, and the scope that it opens. -/
structure Rule where
  here : List Item
  inner : Option Opening

namespace Rule

/-- The items of the scope that a rule opens. -/
def inside (r : Rule) : List Item :=
  (r.inner.map (·.items)).getD []

/-- All items of a rule, each with the kind of the scope if it stands in the one that is opened. -/
def entries (r : Rule) : List (Option ScopeKind × Item) :=
  r.here.map (none, ·) ++ (r.inner.map fun o => o.items.map (some o.kind, ·)).getD []

end Rule

/-- Rules for all nodes. The parts that a node brings are smaller than the node. -/
structure Scoping where
  rule : Role → Ast → Rule
  smaller : ∀ (m : Role) (t : Ast) (m' : Role) (u : Ast),
    .part m' u ∈ (rule m t).here ++ (rule m t).inside → sizeOf u < sizeOf t

namespace Scoping

/-- A name with the way it is declared. -/
abbrev Declaration := String × BindingKind

/-- The names of scopes, from the inside out. -/
abbrev Scopes := List (List String)

/-- A scope declares the name. -/
def Scopes.bind (scopes : Scopes) (n : String) : Bool :=
  scopes.any fun ns => ns.contains n

/-- Declarations that hold in the scope where they stand. -/
def inScope (ds : List Declaration) : List String :=
  (ds.filter fun d => !d.2.isFunctionScoped).map (·.1)

/-- Declarations that hold in the function or module around them. -/
def inFunction (ds : List Declaration) : List String :=
  (ds.filter fun d => d.2.isFunctionScoped).map (·.1)

/-- The names that a scope of a kind has by the declarations in it. -/
def kept (k : ScopeKind) (ds : List Declaration) : List String :=
  inScope ds ++ if k.isFunctionBoundary then inFunction ds else []

/-- The declarations that come out of a scope, if they stand in one. -/
def leaving : Option ScopeKind → List Declaration → List Declaration
  | none, ds => ds
  | some k, ds => if k.isFunctionBoundary then [] else ds.filter fun d => d.2.isFunctionScoped

variable (R : Scoping)

theorem smaller_entries {m m' : Role} {t u : Ast} {k : Option ScopeKind}
    (h : (k, .part m' u) ∈ (R.rule m t).entries) : sizeOf u < sizeOf t := by
  apply R.smaller m t m' u
  unfold Rule.entries at h
  unfold Rule.inside
  rw [List.mem_append] at h ⊢
  rcases h with h | h
  · obtain ⟨i, hi, heq⟩ := List.mem_map.1 h
    cases heq
    exact .inl hi
  · refine .inr ?_
    cases hr : (R.rule m t).inner with
    | none => simp [hr] at h
    | some o =>
      simp only [hr, Option.map_some, Option.getD_some, List.mem_map] at h ⊢
      obtain ⟨i, hi, heq⟩ := h
      cases heq
      exact hi

/-- The declarations of a tree that reach the scope where it stands. -/
def declares (m : Role) (t : Ast) : List Declaration :=
  (R.rule m t).entries.attach.flatMap fun
    | ⟨(_, .mention _), _⟩ => []
    | ⟨(k, .declare n b), _⟩ => leaving k [(n, b)]
    | ⟨(k, .part m' u), _⟩ => leaving k (declares m' u)
termination_by sizeOf t
decreasing_by exact R.smaller_entries ‹_›

def declaredBy : Item → List Declaration
  | .mention _ => []
  | .declare n b => [(n, b)]
  | .part m t => R.declares m t

def names (o : Opening) : List String :=
  kept o.kind (o.items.flatMap R.declaredBy)

def around (scopes : Scopes) (r : Rule) : Option ScopeKind → Scopes
  | none => scopes
  | some _ => (r.inner.map R.names).toList ++ scopes

/-- The names that a tree mentions and no scope declares: none in the tree, none of those
around. -/
def freeIn (scopes : Scopes) (m : Role) (t : Ast) : List String :=
  (R.rule m t).entries.attach.flatMap fun
    | ⟨(k, .mention n), _⟩ => if (R.around scopes (R.rule m t) k).bind n then [] else [n]
    | ⟨(_, .declare _ _), _⟩ => []
    | ⟨(k, .part m' u), _⟩ => freeIn (R.around scopes (R.rule m t) k) m' u
termination_by sizeOf t
decreasing_by exact R.smaller_entries ‹_›

def freeBy (scopes : Scopes) : Item → List String
  | .mention n => if scopes.bind n then [] else [n]
  | .declare _ _ => []
  | .part m t => R.freeIn scopes m t

/-- A function with its free names and the scopes around it. -/
structure Place where
  span : Span
  free : List String
  scopes : Scopes
  deriving DecidableEq, Repr

/-- The function whose scope a rule opens. -/
def functionAt (scopes : Scopes) (r : Rule) : List Place :=
  match r.inner with
  | some ⟨k, some span, items⟩ =>
    [⟨span, items.flatMap (R.freeBy [R.names ⟨k, some span, items⟩]), scopes⟩]
  | _ => []

/-- The functions of a tree with the scopes around each. -/
def sitesIn (scopes : Scopes) (m : Role) (t : Ast) : List Place :=
  R.functionAt scopes (R.rule m t) ++ (R.rule m t).entries.attach.flatMap fun
    | ⟨(_, .mention _), _⟩ => []
    | ⟨(_, .declare _ _), _⟩ => []
    | ⟨(k, .part m' u), _⟩ => sitesIn (R.around scopes (R.rule m t) k) m' u
termination_by sizeOf t
decreasing_by exact R.smaller_entries ‹_›

def sitesBy (scopes : Scopes) : Item → List Place
  | .mention _ => []
  | .declare _ _ => []
  | .part m t => R.sitesIn scopes m t

def moduleNames (module : Ast) : List String :=
  kept .module (R.declares .refers module)

def places (module : Ast) : List Place :=
  R.sitesIn [R.moduleNames module] .refers module

/-- The outline that the rules give. -/
def facts (m : Role) (t : Ast) : List Outline :=
  ((R.rule m t).here.attach.flatMap fun
    | ⟨.mention n, _⟩ => [.reference n]
    | ⟨.declare n b, _⟩ => [.declare n b]
    | ⟨.part m' u, _⟩ => facts m' u) ++
  ((R.rule m t).inner.map fun o => Outline.scope o.kind o.function
    ((R.rule m t).inside.attach.flatMap fun
      | ⟨.mention n, _⟩ => [.reference n]
      | ⟨.declare n b, _⟩ => [.declare n b]
      | ⟨.part m' u, _⟩ => facts m' u)).toList
termination_by sizeOf t
decreasing_by
  · exact R.smaller m t m' u (List.mem_append_left _ ‹_›)
  · exact R.smaller m t m' u (List.mem_append_right _ ‹_›)

def factsBy : Item → List Outline
  | .mention n => [.reference n]
  | .declare n b => [.declare n b]
  | .part m t => R.facts m t

/-! ### Equations -/

theorem attach_flatMap {α β : Type} (l : List α) (f : {x // x ∈ l} → List β) (g : α → List β)
    (h : ∀ x, f x = g x.1) : l.attach.flatMap f = l.flatMap g := by
  have hf : f = fun x => g x.1 := funext h
  rw [hf, List.flatMap_subtype fun _ _ => rfl, List.unattach_attach]

theorem declares_eq (m : Role) (t : Ast) :
    R.declares m t = (R.rule m t).entries.flatMap fun e => leaving e.1 (R.declaredBy e.2) := by
  rw [declares]
  apply attach_flatMap
  rintro ⟨⟨k, n | ⟨n, b⟩ | ⟨m', u⟩⟩, _⟩
  · cases k <;> simp [declaredBy, leaving]
  · rfl
  · rfl

theorem freeIn_rule (scopes : Scopes) (m : Role) (t : Ast) :
    R.freeIn scopes m t = (R.rule m t).entries.flatMap fun e =>
      R.freeBy (R.around scopes (R.rule m t) e.1) e.2 := by
  rw [freeIn]
  apply attach_flatMap
  rintro ⟨⟨k, n | ⟨n, b⟩ | ⟨m', u⟩⟩, _⟩ <;> rfl

theorem sitesIn_rule (scopes : Scopes) (m : Role) (t : Ast) :
    R.sitesIn scopes m t = R.functionAt scopes (R.rule m t) ++
      (R.rule m t).entries.flatMap fun e =>
        R.sitesBy (R.around scopes (R.rule m t) e.1) e.2 := by
  rw [sitesIn]
  congr 1
  apply attach_flatMap
  rintro ⟨⟨k, n | ⟨n, b⟩ | ⟨m', u⟩⟩, _⟩ <;> rfl

theorem facts_rule (m : Role) (t : Ast) :
    R.facts m t = (R.rule m t).here.flatMap R.factsBy ++
      ((R.rule m t).inner.map fun o =>
        Outline.scope o.kind o.function (o.items.flatMap R.factsBy)).toList := by
  rw [facts]
  congr 1
  · apply attach_flatMap
    rintro ⟨n | ⟨n, b⟩ | ⟨m', u⟩, _⟩ <;> rfl
  · cases hi : (R.rule m t).inner with
    | none => rfl
    | some o =>
      have : (R.rule m t).inside = o.items := by simp [Rule.inside, hi]
      simp only [Option.map_some, Option.toList_some]
      congr 2
      rw [attach_flatMap _ _ R.factsBy, this]
      rintro ⟨n | ⟨n, b⟩ | ⟨m', u⟩, _⟩ <;> rfl

/-! ### Declarations -/

@[simp] theorem inScope_append (ds ds' : List Declaration) :
    inScope (ds ++ ds') = inScope ds ++ inScope ds' := by
  simp [inScope]

@[simp] theorem inFunction_append (ds ds' : List Declaration) :
    inFunction (ds ++ ds') = inFunction ds ++ inFunction ds' := by
  simp [inFunction]

theorem inScope_leaving (k : ScopeKind) (ds : List Declaration) :
    inScope (leaving (some k) ds) = [] := by
  simp only [leaving, inScope]
  split <;> simp

theorem inFunction_leaving (k : ScopeKind) (ds : List Declaration) :
    inFunction (leaving (some k) ds) = if k.isFunctionBoundary then [] else inFunction ds := by
  simp only [leaving, inFunction]
  split <;> simp

theorem flatMap_entries {β : Type} (r : Rule) (f : Option ScopeKind × Item → List β) :
    r.entries.flatMap f =
      r.here.flatMap (fun i => f (none, i)) ++
        (r.inner.toList.flatMap fun o => o.items.flatMap fun i => f (some o.kind, i)) := by
  unfold Rule.entries
  cases r.inner <;> simp [List.flatMap_map]

/-- Induction along the rules: what holds of a tree if it holds of its parts holds of all. -/
theorem rule_induction {P : Role → Ast → Prop}
    (step : ∀ m t, (∀ m' u, .part m' u ∈ (R.rule m t).here ++ (R.rule m t).inside → P m' u) →
      P m t) (m : Role) (t : Ast) : P m t :=
  step m t fun m' u h =>
    have := R.smaller m t m' u h
    rule_induction step m' u
termination_by sizeOf t

theorem lexicalAll_flatMap (items : List Item) (f : Item → List Outline) :
    lexicalAll (items.flatMap f) = items.flatMap fun i => lexicalAll (f i) := by
  induction items with
  | nil => rfl
  | cons i is ih => simp [ih]

theorem hoistedAll_flatMap (items : List Item) (f : Item → List Outline) :
    hoistedAll (items.flatMap f) = items.flatMap fun i => hoistedAll (f i) := by
  induction items with
  | nil => rfl
  | cons i is ih => simp [ih]

theorem inScope_flatMap {α : Type} (l : List α) (f : α → List Declaration) :
    inScope (l.flatMap f) = l.flatMap fun a => inScope (f a) := by
  induction l with
  | nil => rfl
  | cons a l ih => simp [ih]

theorem inFunction_flatMap {α : Type} (l : List α) (f : α → List Declaration) :
    inFunction (l.flatMap f) = l.flatMap fun a => inFunction (f a) := by
  induction l with
  | nil => rfl
  | cons a l ih => simp [ih]

/-- An item declares the same names, here and in the function around, as its outline does. -/
structure Declares (i : Item) : Prop where
  lexical : lexicalAll (R.factsBy i) = inScope (R.declaredBy i)
  hoisted : hoistedAll (R.factsBy i) = inFunction (R.declaredBy i)

theorem declares_item {items : List Item}
    (h : ∀ m u, .part m u ∈ items → R.Declares (.part m u)) : ∀ i ∈ items, R.Declares i := by
  rintro (n | ⟨n, b⟩ | ⟨m, u⟩) hi
  · exact ⟨rfl, rfl⟩
  · constructor
    · simp [factsBy, declaredBy, lexical, inScope]
      split <;> simp_all
    · simp [factsBy, declaredBy, hoistedAll, hoisted, inFunction]
      split <;> simp_all
  · exact h m u hi

theorem lexicalAll_items {items : List Item} (h : ∀ i ∈ items, R.Declares i) :
    lexicalAll (items.flatMap R.factsBy) = inScope (items.flatMap R.declaredBy) := by
  rw [lexicalAll_flatMap, inScope_flatMap]
  exact List.flatMap_congr fun i hi => (h i hi).lexical

theorem hoistedAll_items {items : List Item} (h : ∀ i ∈ items, R.Declares i) :
    hoistedAll (items.flatMap R.factsBy) = inFunction (items.flatMap R.declaredBy) := by
  rw [hoistedAll_flatMap, inFunction_flatMap]
  exact List.flatMap_congr fun i hi => (h i hi).hoisted

/-- A tree declares the same names as its outline does. -/
theorem declares_part (m : Role) (t : Ast) : R.Declares (.part m t) := by
  refine R.rule_induction (P := fun m t => R.Declares (.part m t)) (fun m t ih => ?_) m t
  have hhere : ∀ i ∈ (R.rule m t).here, R.Declares i :=
    R.declares_item fun m u h => ih m u (List.mem_append_left _ h)
  have hinside : ∀ i ∈ (R.rule m t).inside, R.Declares i :=
    R.declares_item fun m u h => ih m u (List.mem_append_right _ h)
  constructor
  · change lexicalAll (R.facts m t) = inScope (R.declares m t)
    rw [facts_rule, declares_eq, flatMap_entries, lexicalAll_append, inScope_append,
      lexicalAll_items R hhere]
    simp only [inScope_flatMap, inScope_leaving]
    cases (R.rule m t).inner <;> simp [leaving, lexical]
  · change hoistedAll (R.facts m t) = inFunction (R.declares m t)
    rw [facts_rule, declares_eq, flatMap_entries, hoistedAll_append, inFunction_append,
      hoistedAll_items R hhere]
    simp only [inFunction_flatMap, inFunction_leaving]
    congr 1
    unfold Rule.inside at hinside
    cases hi : (R.rule m t).inner with
    | none => rfl
    | some o =>
      simp only [hi, Option.map_some, Option.getD_some] at hinside
      simp only [Option.map_some, Option.toList_some, hoistedAll, hoisted, List.append_nil,
        List.flatMap_singleton]
      rw [hoistedAll_items R hinside, inFunction_flatMap]
      split <;> simp

/-- The names that the outline declares where it stands are those of the declarations. -/
theorem lexicalAll_facts (m : Role) (t : Ast) :
    lexicalAll (R.facts m t) = inScope (R.declares m t) :=
  (R.declares_part m t).lexical

theorem hoistedAll_facts (m : Role) (t : Ast) :
    hoistedAll (R.facts m t) = inFunction (R.declares m t) :=
  (R.declares_part m t).hoisted

theorem declared_items (o : Opening) :
    declared o.kind (o.items.flatMap R.factsBy) = R.names o := by
  have h : ∀ i ∈ o.items, R.Declares i := R.declares_item fun m u _ => R.declares_part m u
  unfold declared names kept
  rw [R.lexicalAll_items h, R.hoistedAll_items h]

/-! ### Free names and functions -/

theorem freeAll_flatMap (given : Option Span → List String) (items : List Item)
    (f : Item → List Outline) :
    freeAll given (items.flatMap f) = items.flatMap fun i => freeAll given (f i) := by
  induction items with
  | nil => rfl
  | cons i is ih => simp [ih]

theorem freeIn_items {scopes : Scopes} {items : List Item}
    (h : ∀ m u, .part m u ∈ items → R.freeIn scopes m u =
      (freeAll bare (R.facts m u)).filter fun n => !scopes.bind n) :
    items.flatMap (R.freeBy scopes) =
      (freeAll bare (items.flatMap R.factsBy)).filter fun n => !scopes.bind n := by
  rw [freeAll_flatMap, List.filter_flatMap]
  apply List.flatMap_congr
  rintro (n | ⟨n, b⟩ | ⟨m, u⟩) hi
  · simp [freeBy, factsBy, freeAll, free]
    split <;> simp_all
  · rfl
  · exact h m u hi

/-- **The free names of a tree** are those of its outline that no scope around declares. -/
theorem freeIn_eq (scopes : Scopes) (m : Role) (t : Ast) :
    R.freeIn scopes m t = (freeAll bare (R.facts m t)).filter fun n => !scopes.bind n := by
  refine R.rule_induction (P := fun m t => ∀ scopes : Scopes, R.freeIn scopes m t =
    (freeAll bare (R.facts m t)).filter fun n => !scopes.bind n) (fun m t ih => ?_) m t scopes
  intro scopes
  rw [freeIn_rule, flatMap_entries, facts_rule, freeAll_append, List.filter_append]
  congr 1
  · exact R.freeIn_items fun m u h => ih m u (List.mem_append_left _ h) scopes
  · unfold Rule.inside at ih
    cases hi : (R.rule m t).inner with
    | none => rfl
    | some o =>
      simp only [hi, Option.map_some, Option.getD_some] at ih
      have hitems : o.items.flatMap (R.freeBy (R.names o :: scopes)) = _ :=
        R.freeIn_items fun m u h => ih m u (List.mem_append_right _ h) _
      simp only [around, hi, Option.map_some, Option.toList_some, List.flatMap_singleton, freeAll,
        List.append_nil, List.singleton_append, free, List.filter_filter]
      rw [hitems]
      apply List.filter_congr
      intro n _
      rw [← R.declared_items o]
      simp [Scopes.bind, bare, Bool.and_comm]

/-- The place of a function of an outline. -/
def placeOf (s : Site) : Place :=
  ⟨s.span, s.free, s.around⟩

theorem sitesAll_flatMap (names : Scopes) (items : List Item) (f : Item → List Outline) :
    sitesAll names (items.flatMap f) = items.flatMap fun i => sitesAll names (f i) := by
  induction items with
  | nil => rfl
  | cons i is ih => simp [ih]

theorem sitesIn_items {scopes : Scopes} {items : List Item}
    (h : ∀ m u, .part m u ∈ items → (R.sitesIn scopes m u).Perm
      ((sitesAll scopes (R.facts m u)).map placeOf)) :
    (items.flatMap (R.sitesBy scopes)).Perm
      ((sitesAll scopes (items.flatMap R.factsBy)).map placeOf) := by
  rw [sitesAll_flatMap, List.map_flatMap]
  apply List.Perm.flatMap_left
  rintro (n | ⟨n, b⟩ | ⟨m, u⟩) hi
  · exact .refl _
  · exact .refl _
  · exact h m u hi

theorem free_opening (k : ScopeKind) (f : Option Span) (items : List Item) :
    items.flatMap (R.freeBy [R.names ⟨k, f, items⟩]) =
      free bare (.scope k f (items.flatMap R.factsBy)) := by
  rw [R.freeIn_items fun m u _ => R.freeIn_eq _ m u, free]
  apply List.filter_congr
  intro n _
  rw [← R.declared_items ⟨k, f, items⟩]
  simp [Scopes.bind, bare]

/-- **The functions of a tree** are those of its outline. -/
theorem sitesIn_perm (scopes : Scopes) (m : Role) (t : Ast) :
    (R.sitesIn scopes m t).Perm ((sitesAll scopes (R.facts m t)).map placeOf) := by
  refine R.rule_induction (P := fun m t => ∀ scopes : Scopes, (R.sitesIn scopes m t).Perm
    ((sitesAll scopes (R.facts m t)).map placeOf)) (fun m t ih => ?_) m t scopes
  intro scopes
  have hhere : ((R.rule m t).here.flatMap (R.sitesBy scopes)).Perm _ :=
    R.sitesIn_items fun m u h => ih m u (List.mem_append_left _ h) scopes
  rw [sitesIn_rule, flatMap_entries, facts_rule, sitesAll_append, List.map_append,
    ← List.append_assoc]
  -- The analysis lists the function of a scope before all else, the outline at its scope.
  refine (List.perm_append_comm.append_right _).trans ?_
  rw [List.append_assoc]
  refine hhere.append ?_
  unfold Rule.inside at ih
  cases hi : (R.rule m t).inner with
  | none => simp [functionAt, hi, sitesAll]
  | some o =>
    obtain ⟨k, f, items⟩ := o
    simp only [hi, Option.map_some, Option.getD_some] at ih
    have hitems : (items.flatMap (R.sitesBy (R.names ⟨k, f, items⟩ :: scopes))).Perm _ :=
      R.sitesIn_items fun m u h => ih m u (List.mem_append_right _ h) _
    simp only [around, hi, Option.map_some, Option.toList_some, List.flatMap_singleton, sitesAll,
      List.append_nil, List.singleton_append, sites, List.map_append]
    rw [R.declared_items ⟨k, f, items⟩]
    refine .append ?_ hitems
    cases f with
    | none => simp [functionAt, hi]
    | some span => simp [functionAt, hi, placeOf, Site.free, R.free_opening]

end Scoping

end Worklet
