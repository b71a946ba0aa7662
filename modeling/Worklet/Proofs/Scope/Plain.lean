import Worklet.Proofs.Scope.Rules
import Worklet.Proofs.Scope.Capture

/-!
# Captured names by recursion on syntax

The rules of the scope table, said node by node, and the names that a function captures by them.

A `var` binds in the nearest function or module. Parameters, `let`, `const`, classes, functions
and enumerations bind in the scope where they stand, and imports in the module. Functions, loops,
`switch`, `catch` and blocks open scopes; the parameters and the body of a function share one. A
named function or class expression binds its name inside itself.

Principal results: `Scoping.facts_plain` — the outline of a tree is the one that the rules give;
`mem_capture_iff` — the table captures for a function the names that are free in it by the direct
analysis and declared in a scope around it.
-/

set_option autoImplicit false

namespace Worklet

open Syntax Outline

/-! ### Parts are smaller -/

section Smaller

variable {u : Ast} {ts : List Ast}

theorem sizeOf_lt_of_mem_node {k : Kind} {s : Span} (h : u ∈ ts) :
    sizeOf u < sizeOf (Ast.node k s ts) := by
  have := List.sizeOf_lt_of_mem h
  simp
  omega

theorem sizeOf_lt_of_mem_list (h : u ∈ ts) : sizeOf u < sizeOf (Ast.list ts) := by
  have := List.sizeOf_lt_of_mem h
  simp
  omega

theorem sizeOf_lt_of_mem_items {t : Ast} (h : u ∈ t.items) : sizeOf u < sizeOf t := by
  unfold Ast.items at h
  split at h
  · exact sizeOf_lt_of_mem_list h
  · cases h

end Smaller

/-- The role of a pattern whose names refer or are bound. -/
def Naming.role : Naming → Role
  | .refers => .refers
  | .binds => .binds

namespace Item

/-- Trees that are read one after the other. -/
def parts (m : Role) (ts : List Ast) : List Item :=
  ts.map (.part m)

def declareEach (kind : BindingKind) (names : List String) : List Item :=
  names.map (.declare · kind)

def declareIdent (kind : BindingKind) (name : Ast) : List Item :=
  declareEach kind name.identName?.toList

/-- A pattern that is bound: its names, and the expressions in it. -/
def bound (kind : BindingKind) (p : Ast) : List Item :=
  declareEach kind (boundNames p) ++ [.part .binds p]

/-- The body of a function: a block, or the expression of an arrow function. -/
def ofBody : Ast → Item
  | .node .block s ss => .part .body (.node .block s ss)
  | t => .part .refers t

/-- A parameter of a constructor. One that declares a property brings its default only, and no
decorator counts. -/
def ofCtorParam : Ast → List Item
  | .node .param _ [_, p] => bound .param p
  | .node (.paramProp _) _ [_, .node .assignPat _ [p, v]] =>
    declareEach .param (boundNames p) ++ [.part .refers v]
  | .node (.paramProp _) _ [_, p] => declareEach .param (boundNames p)
  | _ => []

/-- A declared variable. -/
def ofDeclarator (kind : BindingKind) : Ast → List Item
  | .node (.declarator _) _ [p, v] => bound kind p ++ [.part .refers v]
  | _ => []

/-- The name that an import specifier binds. -/
def ofImport : Ast → List Item
  | .node (.importNamed false) _ (name :: _) => declareIdent .import name
  | .node .importDefault _ (name :: _) => declareIdent .import name
  | .node .importStar _ (name :: _) => declareIdent .import name
  | _ => []

/-- The first name of a member chain in a tag. -/
def ofTagObject : Ast → List Item
  | .node (.ident n) _ _ => [.mention n]
  | .node .jsxMember _ (obj :: _) => ofTagObject obj
  | _ => []

/-- A tag refers if it is a chain of members or starts with a capital letter. -/
def ofTag : Ast → List Item
  | .node (.ident n) _ _ => if n.front.isUpper then [.mention n] else []
  | .node .jsxMember _ (obj :: _) => ofTagObject obj
  | _ => []

section Parts

variable {m m' : Role} {u t : Ast}

@[simp] theorem part_mem_parts {ts : List Ast} :
    Item.part m' u ∈ parts m ts ↔ m' = m ∧ u ∈ ts := by
  simp only [parts, List.mem_map, Item.part.injEq]
  constructor
  · rintro ⟨t, ht, rfl, rfl⟩
    exact ⟨rfl, ht⟩
  · rintro ⟨rfl, hu⟩
    exact ⟨u, hu, rfl, rfl⟩

@[simp] theorem part_notMem_declareEach {kind : BindingKind} {names : List String} :
    Item.part m u ∉ declareEach kind names := by
  simp [declareEach]

@[simp] theorem part_notMem_declareIdent {kind : BindingKind} {name : Ast} :
    Item.part m u ∉ declareIdent kind name :=
  part_notMem_declareEach

@[simp] theorem part_mem_bound {kind : BindingKind} {p : Ast} :
    Item.part m u ∈ bound kind p ↔ m = .binds ∧ u = p := by
  simp [bound]

@[simp] theorem part_notMem_ofImport : Item.part m u ∉ ofImport t := by
  unfold ofImport
  split <;> simp

@[simp] theorem part_notMem_ofTagObject : Item.part m u ∉ ofTagObject t := by
  fun_induction ofTagObject t <;> simp_all

@[simp] theorem part_notMem_ofTag : Item.part m u ∉ ofTag t := by
  unfold ofTag
  split
  · split <;> simp
  · simp
  · simp

theorem sizeOf_lt_of_mem {ts : List Ast} (h : u ∈ ts) : sizeOf u < sizeOf ts :=
  List.sizeOf_lt_of_mem h

theorem part_eq_ofBody (h : Item.part m u = ofBody t) : u = t := by
  unfold ofBody at h
  split at h <;> exact (Item.part.inj h).2

theorem sizeOf_lt_of_mem_ofCtorParam (h : Item.part m u ∈ ofCtorParam t) :
    sizeOf u < sizeOf t := by
  unfold ofCtorParam at h
  split at h
  · simp only [part_mem_bound] at h
    simp [h.2]
    omega
  · simp only [List.mem_append, part_notMem_declareEach, List.mem_singleton, false_or,
      Item.part.injEq] at h
    simp [h.2]
    omega
  · simp at h
  · simp at h

theorem sizeOf_lt_of_mem_ofDeclarator {kind : BindingKind}
    (h : Item.part m u ∈ ofDeclarator kind t) : sizeOf u < sizeOf t := by
  unfold ofDeclarator at h
  split at h
  · simp only [List.mem_append, part_mem_bound, List.mem_singleton, Item.part.injEq] at h
    rcases h with ⟨_, rfl⟩ | ⟨_, rfl⟩
    · simp
      omega
    · simp
      omega
  · simp at h

end Parts

end Item

namespace Rule

/-- Items that stand where the node stands. -/
def flat (items : List Item) : Rule :=
  ⟨items, none⟩

/-- Items in a block of their own, after items outside. -/
def block (outside items : List Item) : Rule :=
  ⟨outside, some ⟨.block, none, items⟩⟩

/-- The items of a function with a span, after items outside. -/
def function (outside : List Item) (span : Span) (items : List Item) : Rule :=
  ⟨outside, some ⟨.function, some span, items⟩⟩

end Rule

namespace Scoping

open Item Rule

/-- What a node brings. -/
def plainRule (naming : Naming) : Ast → Rule
  | .absent => flat []
  | .list ts => flat (parts naming.role ts)
  | .node (.ident n) _ _ => flat [.mention n]
  | .node (.bindName _) _ cs => flat (if naming = .binds then [] else parts .refers cs)
  | .node (.arrayPat _) _ [es, _] => flat [.part naming.role es]
  | .node (.objectPat _) _ [ps, _] => flat [.part naming.role ps]
  | .node .restPat _ [p, _] => flat [.part naming.role p]
  | .node .assignPat _ [p, v] => flat [.part naming.role p, .part .refers v]
  | .node .patProp _ [k, p] => flat [.part .refers k, .part naming.role p]
  | .node .patShorthand _ [p, v] => flat [.part naming.role p, .part .refers v]
  | .node (.importDecl isType) _ (.list specs :: _) =>
    flat (if isType then [] else specs.flatMap ofImport)
  | .node .exportDefaultDecl _ [.node .funcExpr _ [name, f]] =>
    flat (declareIdent .function name ++ [.part .refers f])
  | .node .exportDefaultDecl _ [.node .classExpr _ [name, c]] =>
    flat (declareIdent .class name ++ [.part .refers c])
  | .node (.funcDecl _) _ [name, f] => flat (declareIdent .function name ++ [.part .refers f])
  | .node .funcExpr _ [name, .node (.function _ _) s (params :: decorators :: body :: _)] =>
    function [.part .refers decorators] s
      (declareIdent .function name ++ [.part .refers params, ofBody body])
  | .node (.function _ _) s (params :: decorators :: body :: _) =>
    function [.part .refers decorators] s [.part .refers params, ofBody body]
  | .node .param _ [decorators, p] => flat (.part .refers decorators :: bound .param p)
  | .node (.constructor _ _) s [key, .list params, body] =>
    function [.part .refers key] s (params.flatMap ofCtorParam ++ [ofBody body])
  | .node (.arrow _) s (.list params :: body :: _) =>
    function [] s (params.flatMap (bound .param) ++ [ofBody body])
  | .node .getter s [key, _, body] => function [.part .refers key] s [ofBody body]
  | .node .setter s [key, _, param, body] =>
    function [.part .refers key] s (bound .param param ++ [ofBody body])
  | .node .block _ ss => block [] (parts .refers ss)
  | .node .catchClause _ [param, body] =>
    ⟨[], some ⟨.catch, none, bound .catchParam param ++ [.part .refers body]⟩⟩
  | .node .forStmt _ cs => block [] (parts .refers cs)
  | .node .forIn _ cs => block [] (parts .refers cs)
  | .node (.forOf _) _ cs => block [] (parts .refers cs)
  | .node .switchStmt _ [v, cases] => block [.part .refers v] [.part .refers cases]
  | .node (.varDecl kind _) _ ds => flat (ds.flatMap (ofDeclarator (varBinding kind)))
  | .node (.classDecl _) _ [name, c] => flat (declareIdent .class name ++ [.part .refers c])
  | .node .classExpr _ [name, c] =>
    if name.isPresent then ⟨[], some ⟨.class, none, declareIdent .class name ++ [.part .refers c]⟩⟩
    else flat [.part .refers c]
  | .node .labeled _ [_, body] => flat [.part .refers body]
  | .node .breakStmt _ _ => flat []
  | .node .continueStmt _ _ => flat []
  | .node (.jsxOpening _) _ (name :: rest) => flat (ofTag name ++ parts .refers rest)
  | .node .jsxClosing _ (name :: _) => flat (ofTag name)
  | .node (.enumDecl _ _) _ (name :: _) => flat (declareIdent .const name)
  | .node k _ cs => flat (if isTypeKind k then [] else parts .refers cs)

theorem sizeOf_lt_of_mem_plainRule (naming : Naming) (t : Ast) (m' : Role) (u : Ast)
    (h : .part m' u ∈ (plainRule naming t).here ++ (plainRule naming t).inside) :
    sizeOf u < sizeOf t := by
  revert h
  fun_cases plainRule naming t
  all_goals simp [flat, block, function, Rule.inside]
  all_goals grind [→ sizeOf_lt_of_mem, → part_eq_ofBody, → sizeOf_lt_of_mem_ofCtorParam,
    → sizeOf_lt_of_mem_ofDeclarator]

/-- What a tree brings, by its role. -/
def plainRuleAs : Role → Ast → Rule
  | .refers, t => plainRule .refers t
  | .binds, t => plainRule .binds t
  | .body, .node .block _ ss => flat (parts .refers ss)
  | .body, t => plainRule .refers t

/-- The rules by which parameters and body share one scope. -/
def plain : Scoping where
  rule := plainRuleAs
  smaller m t m' u h := by
    revert h
    fun_cases plainRuleAs m t
    · exact sizeOf_lt_of_mem_plainRule _ t m' u
    · exact sizeOf_lt_of_mem_plainRule _ t m' u
    · intro h
      simp only [flat, Rule.inside, Option.map_none, Option.getD_none, List.append_nil,
        part_mem_parts] at h
      exact sizeOf_lt_of_mem_node h.2
    · exact sizeOf_lt_of_mem_plainRule _ _ m' u

/-! ### The outline of a tree -/

/-- The outline of a tree in a role. -/
def outlineIn : Role → Ast → List Outline
  | .refers, t => outlineAs .refers t
  | .binds, t => outlineAs .binds t
  | .body, t => bodyFacts t (outlineAs .refers t)

def outlineOf : Item → List Outline
  | .mention n => [.reference n]
  | .declare n b => [.declare n b]
  | .part m t => outlineIn m t

def outlineBy (r : Rule) : List Outline :=
  r.here.flatMap outlineOf ++
    (r.inner.map fun o => Outline.scope o.kind o.function (o.items.flatMap outlineOf)).toList

@[simp] theorem outlineOf_mention (n : String) : outlineOf (.mention n) = [.reference n] := rfl

@[simp] theorem outlineOf_refers (t : Ast) : outlineOf (.part .refers t) = outlineAs .refers t :=
  rfl

@[simp] theorem outlineOf_role (naming : Naming) (t : Ast) :
    outlineOf (.part naming.role t) = outlineAs naming t := by
  cases naming <;> rfl

@[simp] theorem outlineOf_parts (naming : Naming) (ts : List Ast) :
    (parts naming.role ts).flatMap outlineOf = outlineAll naming ts := by
  induction ts with
  | nil => rfl
  | cons t ts ih =>
    simp only [parts, List.map_cons, List.flatMap_cons, outlineAll] at ih ⊢
    rw [ih, outlineOf_role]

@[simp] theorem outlineOf_parts_refers (ts : List Ast) :
    (parts .refers ts).flatMap outlineOf = outlineAll .refers ts :=
  outlineOf_parts .refers ts

@[simp] theorem outlineOf_declareEach (kind : BindingKind) (names : List String) :
    (declareEach kind names).flatMap outlineOf = declareAll kind names := by
  induction names with
  | nil => rfl
  | cons n ns ih => simp_all [declareEach, declareAll, outlineOf]

@[simp] theorem outlineOf_declareIdent (kind : BindingKind) (name : Ast) :
    (declareIdent kind name).flatMap outlineOf = declareName kind name :=
  outlineOf_declareEach kind _

@[simp] theorem outlineOf_bound (kind : BindingKind) (p : Ast) :
    (bound kind p).flatMap outlineOf = declareAll kind (boundNames p) ++ outlineAs .binds p := by
  simp [bound, outlineOf, outlineIn]

theorem bodyFacts_eq {t : Ast} (ht : ∀ s ss, t ≠ .node .block s ss) (os : List Outline) :
    bodyFacts t os = os := by
  unfold bodyFacts
  split
  · exact absurd rfl (ht _ _)
  · rfl

@[simp] theorem outlineOf_ofBody (t : Ast) :
    outlineOf (ofBody t) = bodyFacts t (outlineAs .refers t) := by
  fun_cases ofBody t with
  | case1 s ss => rfl
  | case2 t h => rw [bodyFacts_eq fun s ss => h s ss, outlineOf_refers]

@[simp] theorem outlineOf_ctorParams (params : List Ast) :
    (params.flatMap ofCtorParam).flatMap outlineOf = outlineCtorParams params := by
  induction params with
  | nil => simp [outlineCtorParams]
  | cons p ps ih =>
    rw [List.flatMap_cons, List.flatMap_append, ih]
    fun_cases ofCtorParam p <;> simp_all [outlineCtorParams, outlineOf, outlineIn]

@[simp] theorem outlineOf_patterns (params : List Ast) :
    (params.flatMap (bound .param)).flatMap outlineOf = outlinePatterns params := by
  induction params with
  | nil => simp [outlinePatterns]
  | cons p ps ih =>
    rw [List.flatMap_cons, List.flatMap_append, ih, outlineOf_bound, outlinePatterns]

@[simp] theorem outlineOf_declarators (kind : BindingKind) (ds : List Ast) :
    (ds.flatMap (ofDeclarator kind)).flatMap outlineOf = outlineDeclarators kind ds := by
  induction ds with
  | nil => simp [outlineDeclarators]
  | cons d ds ih =>
    rw [List.flatMap_cons, List.flatMap_append, ih]
    fun_cases ofDeclarator kind d <;> simp_all [outlineDeclarators, outlineOf, outlineIn]

@[simp] theorem outlineOf_ofImport (t : Ast) :
    (ofImport t).flatMap outlineOf = importBinding t := by
  fun_cases importBinding t <;> simp_all [ofImport]

theorem outlineOf_ofTagObject (t : Ast) :
    (ofTagObject t).flatMap outlineOf = elementReference.root t := by
  fun_induction elementReference.root t <;> simp_all [ofTagObject, outlineOf]

@[simp] theorem outlineOf_ofTag (t : Ast) :
    (ofTag t).flatMap outlineOf = elementReference t := by
  fun_cases elementReference t <;> simp_all [ofTag, outlineOf, outlineOf_ofTagObject]

theorem outlineBy_plainRule (naming : Naming) (t : Ast) :
    outlineBy (plainRule naming t) = outlineAs naming t := by
  fun_cases plainRule naming t
  all_goals simp [outlineBy, flat, block, function, outlineAs]
  case case4 | case38 => split <;> simp
  case case11 =>
    split
    · rfl
    · simp [List.flatMap_assoc]
  case case30 h | case31 h => simp [h]

theorem outlineBy_plain (m : Role) (t : Ast) : outlineBy (plain.rule m t) = outlineIn m t := by
  change outlineBy (plainRuleAs m t) = outlineIn m t
  fun_cases plainRuleAs m t with
  | case1 => exact outlineBy_plainRule .refers t
  | case2 => exact outlineBy_plainRule .binds t
  | case3 s ss => simp [outlineBy, flat, outlineIn, outlineAs, bodyFacts]
  | case4 t h => rw [outlineBy_plainRule, outlineIn, bodyFacts_eq fun s ss => h s ss]

/-- **The outline of a tree is the one that the rules give.** -/
theorem facts_plain (m : Role) (t : Ast) : plain.facts m t = outlineIn m t := by
  refine plain.rule_induction (P := fun m t => plain.facts m t = outlineIn m t)
    (fun m t ih => ?_) m t
  have hitem : ∀ i ∈ (plain.rule m t).here ++ (plain.rule m t).inside,
      plain.factsBy i = outlineOf i := by
    rintro (n | ⟨n, b⟩ | ⟨m', u⟩) hi
    · rfl
    · rfl
    · exact ih m' u hi
  rw [facts_rule, ← outlineBy_plain, outlineBy]
  congr 1
  · exact List.flatMap_congr fun i hi => hitem i (List.mem_append_left _ hi)
  · unfold Rule.inside at hitem
    cases hr : (plain.rule m t).inner with
    | none => rfl
    | some o =>
      simp only [hr, Option.map_some, Option.getD_some] at hitem ⊢
      rw [List.flatMap_congr fun i hi => hitem i (List.mem_append_right _ hi)]

theorem moduleNames_plain (module : Ast) :
    plain.moduleNames module = declared .module (outline module) := by
  unfold moduleNames kept Outline.declared
  rw [← lexicalAll_facts, ← hoistedAll_facts, facts_plain]
  rfl

/-- The functions of a module by the rules are those of its outline. -/
theorem places_perm (module : Ast) :
    (plain.places module).Perm ((ScopeTable.moduleSites (outline module)).map placeOf) := by
  have h := plain.sitesIn_perm [plain.moduleNames module] .refers module
  rw [moduleNames_plain, facts_plain] at h
  rw [places, moduleNames_plain]
  exact h

end Scoping

/-- **A function captures what is free in it and declared around it.** The scope table of a module
gives every function the names that the direct analysis finds free in it and that a scope around
it declares, its own name aside. -/
theorem mem_capture_iff (module : Ast)
    (hd : ((Scoping.plain.places module).map (·.span)).Nodup)
    (p : Scoping.Place) (hp : p ∈ Scoping.plain.places module) (hm : p.span.isMade = false)
    (c : Candidate) (hc : c.span = p.span) :
    ∃ closure, capture (ScopeTable.ofModule module) c = .ok closure ∧
      ∀ n, n ∈ closure.names ↔
        n ∈ p.free ∧ (∃ names ∈ p.scopes, n ∈ names) ∧ c.ownName? ≠ some n := by
  have hperm := Scoping.places_perm module
  obtain ⟨s, hs, rfl⟩ := List.mem_map.1 (hperm.mem_iff.1 hp)
  have hspans : ((ScopeTable.moduleSites (outline module)).map (·.span)).Nodup := by
    have h := (hperm.map (·.span)).nodup_iff.1 hd
    rw [List.map_map] at h
    exact h
  obtain ⟨own, hown, hcap⟩ :=
    ScopeTable.captures_of_mem_sites (outline module) hspans hs hm
  refine ⟨captureFrom (ScopeTable.ofModule module) own c.ownName?, ?_, fun n => ?_⟩
  · have : c.span = s.span := hc
    simp only [capture, this, ScopeTable.ofModule_eq, hown]
  · rw [ScopeTable.ofModule_eq, hcap.names, mem_firstMentions, List.mem_filter]
    simp [Scoping.placeOf]

/-- `const x = 1; function f(a = x) { { var y = a; } return [y, f, g]; }` -/
def sampleModule : Ast :=
  made (.module none)
    [made (.varDecl .const false) [made (.declarator false) [madeBinding "x", madeNumber 1]],
     made (.funcDecl false) [madeIdent "f",
       .node (.function false false) ⟨14, 68⟩
         [.list [made .param [.list [], made .assignPat [madeBinding "a", madeIdent "x"]]], .list [],
          made .block
            [made .block
              [made (.varDecl .var false)
                [made (.declarator false) [madeBinding "y", madeIdent "a"]]],
             made .returnStmt
              [made .array [.list [madeIdent "y", madeIdent "f", madeIdent "g"]]]],
          .absent, .absent]]]

/-- The function of `sampleModule`. -/
def sampleCandidate : Candidate :=
  { kind := .declaration, name := some "f", params := [], body := .absent, span := ⟨14, 68⟩
    isAsync := false, isGenerator := false }

theorem mem_capture_sample_iff :
    ∃ closure, capture (ScopeTable.ofModule sampleModule) sampleCandidate = .ok closure ∧
      ∀ n, n ∈ closure.names ↔
        n ∈ ["x", "f", "g"] ∧ (∃ names ∈ [["x", "f"]], n ∈ names) ∧ some "f" ≠ some n :=
  have hperm : (Scoping.plain.places sampleModule).Perm [⟨⟨14, 68⟩, ["x", "f", "g"], [["x", "f"]]⟩] :=
    Scoping.places_perm sampleModule
  mem_capture_iff sampleModule ((hperm.map (·.span)).nodup_iff.2 (by decide))
    ⟨⟨14, 68⟩, ["x", "f", "g"], [["x", "f"]]⟩ (hperm.mem_iff.2 (by simp)) rfl sampleCandidate rfl

end Worklet
