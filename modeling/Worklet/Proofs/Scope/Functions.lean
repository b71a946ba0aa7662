import Worklet.Proofs.Scope.Plain

/-!
# The functions of a tree

Principal result: `understood_of_mem` — if no two functions of a module have one span, the module's
table understands each of them.
-/

set_option autoImplicit false

namespace Worklet

open Syntax Outline Scoping

/-- A function: its span and the facts of its scope. -/
structure FunctionFacts where
  span : Span
  facts : List Outline

/-- The names that a function takes from outside. -/
def FunctionFacts.free (f : FunctionFacts) : List String :=
  Outline.free bare (.scope .function (some f.span) f.facts)

def ownFunction (t : Ast) : List FunctionFacts :=
  match (plainRule .refers t).inner with
  | some ⟨_, some span, items⟩ => [⟨span, items.flatMap outlineOf⟩]
  | _ => []

mutual

/-- The functions of a tree. The function of a function expression is the expression's; that of a
default export has no name inside itself. -/
def functionsOf : Ast → List FunctionFacts
  | .absent => []
  | .list ts => functionsOfAll ts
  | .node .exportDefaultDecl _ [.node .funcExpr _ [name, f]] => functionsOf name ++ functionsOf f
  | .node .funcExpr s [name, .node (.function a g) fs (params :: decorators :: body :: rest)] =>
    ownFunction (.node .funcExpr s
        [name, .node (.function a g) fs (params :: decorators :: body :: rest)]) ++
      functionsOf name ++ functionsOf params ++ functionsOf decorators ++ functionsOf body ++
      functionsOfAll rest
  | .node k s cs => ownFunction (.node k s cs) ++ functionsOfAll cs

def functionsOfAll : List Ast → List FunctionFacts
  | [] => []
  | t :: ts => functionsOf t ++ functionsOfAll ts

end

variable {f : FunctionFacts} {t u : Ast} {m : Role} {naming : Naming} {s : Site}

theorem mem_functionsOfAll {ts : List Ast} :
    f ∈ functionsOfAll ts ↔ ∃ t ∈ ts, f ∈ functionsOf t :=
  Joins.mem ⟨rfl, fun _ _ => rfl⟩

/-- What a node opens does not depend on how its names are read. -/
theorem inner_plainRule (naming : Naming) (t : Ast) :
    (plainRule naming t).inner = (plainRule .refers t).inner := by
  fun_cases plainRule naming t
  all_goals simp [plainRule, Rule.flat, Rule.block, Rule.function]
  case case30 h => simp [h]
  case case31 h => simp [h]

theorem mem_functionsOf_ofCtorParam (h : .part m u ∈ Item.ofCtorParam t) (hf : f ∈ functionsOf u) :
    f ∈ functionsOf t := by
  unfold Item.ofCtorParam at h
  split at h <;> simp [functionsOf, functionsOfAll] at h ⊢ <;> grind

theorem mem_functionsOf_ofDeclarator {kind : BindingKind} (h : .part m u ∈ Item.ofDeclarator kind t)
    (hf : f ∈ functionsOf u) :
    f ∈ functionsOf t := by
  unfold Item.ofDeclarator at h
  split at h
  · simp only [List.mem_append, Item.part_mem_bound, List.mem_singleton, Item.part.injEq] at h
    simp only [functionsOf, functionsOfAll, List.append_nil, List.mem_append]
    rcases h with ⟨_, rfl⟩ | ⟨_, rfl⟩ <;> simp [hf]
  · simp at h

theorem mem_functionsOf_part
    (h : .part m u ∈ (plainRule naming t).here ++ (plainRule naming t).inside)
    (hf : f ∈ functionsOf u) : f ∈ functionsOf t := by
  revert h
  fun_cases plainRule naming t
  all_goals simp [Rule.flat, Rule.block, Rule.function, Rule.inside, functionsOf, functionsOfAll]
  all_goals grind [mem_functionsOfAll, → Item.part_eq_ofBody, → mem_functionsOf_ofCtorParam,
    → mem_functionsOf_ofDeclarator]

theorem mem_functionsOf_own (hf : f ∈ ownFunction t) :
    f ∈ functionsOf t := by
  unfold functionsOf
  split
  · simp [ownFunction, plainRule, Rule.flat] at hf
  · simp [ownFunction, plainRule, Rule.flat] at hf
  · simp [ownFunction, plainRule, Rule.flat] at hf
  · simp [hf]
  · simp [hf]

/-! ### Functions and sites -/

/-- The facts that a rule brings open functions with the facts of a function. -/
theorem kind_eq_function {o : Opening} {span : Span} (h : (plainRule naming t).inner = some o)
    (hf : o.function = some span) :
    o.kind = .function := by
  revert h
  fun_cases plainRule naming t
  all_goals simp [Rule.flat, Rule.block, Rule.function]
  all_goals (rintro rfl; simp at hf ⊢)

/-- What the outline of a tree opens with a function are functions of the tree. -/
def SitesListed (m : Role) (t : Ast) : Prop :=
  ∀ around, ∀ s ∈ sitesAll around (outlineIn m t), s.kind = .function ∧ ⟨s.span, s.facts⟩ ∈ functionsOf t

theorem mem_functionsOf_rule {around : List (List String)}
    (hs : s ∈ sitesAll around (outlineBy (plainRule naming t)))
    (ih : ∀ m u, .part m u ∈ (plainRule naming t).here ++ (plainRule naming t).inside → SitesListed m u) :
    s.kind = .function ∧ ⟨s.span, s.facts⟩ ∈ functionsOf t := by
  have hitem : ∀ i ∈ (plainRule naming t).here ++ (plainRule naming t).inside, ∀ around,
      s ∈ sitesAll around (outlineOf i) →
        s.kind = .function ∧ ⟨s.span, s.facts⟩ ∈ functionsOf t := by
    rintro (n | ⟨n, b⟩ | ⟨m, u⟩) hi around hs
    · simp [outlineOf, sitesAll, sites] at hs
    · simp [outlineOf, sitesAll, sites] at hs
    · obtain ⟨hk, hf⟩ := ih m u hi around s hs
      exact ⟨hk, mem_functionsOf_part hi hf⟩
  rw [outlineBy, sitesAll_append, List.mem_append, sitesAll_flatMap, List.mem_flatMap] at hs
  rcases hs with ⟨i, hi, hs⟩ | hs
  · exact hitem i (List.mem_append_left _ hi) around hs
  · cases hr : (plainRule naming t).inner with
    | none => simp [hr, sitesAll] at hs
    | some o =>
      have hinside : (plainRule naming t).inside = o.items := by simp [Rule.inside, hr]
      simp only [hr, Option.map_some, Option.toList_some, sitesAll, sites, List.append_nil,
        List.mem_append, List.mem_map, Option.mem_toList, sitesAll_flatMap,
        List.mem_flatMap] at hs
      rcases hs with ⟨span, hspan, rfl⟩ | ⟨i, hi, hs⟩
      · refine ⟨kind_eq_function hr hspan, mem_functionsOf_own ?_⟩
        rw [ownFunction, ← inner_plainRule naming, hr]
        obtain ⟨k, f, items⟩ := o
        simp only at hspan
        simp [hspan]
      · exact hitem i (List.mem_append_right _ (hinside ▸ hi)) _ hs

theorem mem_functionsOf_of_mem_sites (m : Role) (t : Ast) (around : List (List String))
    (hs : s ∈ sitesAll around (outlineIn m t)) :
    s.kind = .function ∧ ⟨s.span, s.facts⟩ ∈ functionsOf t := by
  refine plain.rule_induction (P := SitesListed) (fun m t ih => ?_) m t around s hs
  intro around s hs
  rw [← outlineBy_plain] at hs
  change s ∈ sitesAll around (outlineBy (plainRuleAs m t)) at hs
  change ∀ m' u, .part m' u ∈ (plainRuleAs m t).here ++ (plainRuleAs m t).inside → _ at ih
  revert hs ih
  fun_cases plainRuleAs m t with
  | case1 => exact fun hs ih => mem_functionsOf_rule hs ih
  | case2 => exact fun hs ih => mem_functionsOf_rule hs ih
  | case3 span ss =>
    intro hs ih
    simp only [outlineBy, Rule.flat, Option.map_none, Option.toList_none, List.append_nil,
      sitesAll_flatMap, List.mem_flatMap, Item.parts, List.mem_map] at hs
    obtain ⟨_, ⟨u, hu, rfl⟩, hs⟩ := hs
    obtain ⟨hk, hf⟩ := ih .refers u (by simp [Rule.flat, hu]) around s hs
    refine ⟨hk, ?_⟩
    simp only [functionsOf, List.mem_append, mem_functionsOfAll]
    exact .inr ⟨u, hu, hf⟩
  | case4 t h => exact fun hs ih => mem_functionsOf_rule hs ih

/-! ### What a table knows of the functions -/

/-- A table captures for a function, if it has a scope for it, what is free in it and declared
around it. -/
def Understood (t : ScopeTable) (f : FunctionFacts) : Prop :=
  ∀ own, t.functionScope? f.span = some own →
    ∃ around, ScopeTable.Captures t own ⟨f.span, .function, f.facts, around⟩

/-- **The table of a module understands the module's functions**, if no two of them have one
span. -/
theorem understood_of_mem (module : Ast) (hd : ((functionsOf module).map (·.span)).Nodup)
    (hf : f ∈ functionsOf module) : Understood (.ofModule module) f := by
  intro own hown
  rw [ScopeTable.ofModule_eq] at hown ⊢
  obtain ⟨⟨span, kind, facts, around⟩, hs, rfl, hc⟩ := ScopeTable.captures_of_functionScope? _ hown
  obtain ⟨rfl, hmem⟩ := mem_functionsOf_of_mem_sites .refers module _ hs
  have heq : (⟨f.span, facts⟩ : FunctionFacts) = f := List.inj_on_of_nodup_map hd hmem hf rfl
  refine ⟨around, ?_⟩
  rw [← heq]
  exact hc

/-- A name is global from a scope: a reference to it inside resolves to nothing. -/
def GlobalIn (t : ScopeTable) (own : Nat) (n : String) : Prop :=
  ∃ r ∈ t.references, r.name = n ∧ t.isWithin r.scope own = true ∧ t.resolve r.scope n = none

section Understood

variable {t : ScopeTable} {f : FunctionFacts} (h : Understood t f) {own : Nat}
  (hown : t.functionScope? f.span = some own) {ownName : Option String} {n : String}
include h hown

theorem Understood.free_of_captured (hn : n ∈ (captureFrom t own ownName).names) : n ∈ f.free := by
  obtain ⟨around, hc⟩ := h own hown
  rw [hc.names, mem_firstMentions, List.mem_filter] at hn
  exact hn.1

/-- A free name is captured, or the function's own, or global. -/
theorem Understood.cases_of_free (hn : n ∈ f.free) :
    n ∈ (captureFrom t own ownName).names ∨ ownName = some n ∨ GlobalIn t own n := by
  obtain ⟨around, hc⟩ := h own hown
  rw [hc.names, mem_firstMentions, List.mem_filter]
  by_cases hn' : ownName = some n
  · exact .inr (.inl hn')
  · cases hany : around.any fun ns => ns.contains n with
    | true => exact .inl ⟨hn, by simp [hn']⟩
    | false => exact .inr (.inr (hc.global n hn hany))

end Understood

end Worklet
