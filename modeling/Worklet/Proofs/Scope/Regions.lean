import Worklet.Proofs.Scope.Functions
import Worklet.Proofs.Scope.Recast

/-!
# Which functions a scope table knows

A table has scopes for the functions that stand in code. Types are not read for it, nor are the bodies of
namespaces, the values of enumerations, the decorators of a constructor's parameters, the patterns of those
that declare properties, and the first parameter of a setter that has two.

Principal results: `functionScope?_isSome_of_code` — a function in code has a scope;
`functionScope?_eq_none_of_hidden` — one in a hidden region has none, if no other function has its span;
`functionScope?_injective` — no two functions have one scope.
-/

set_option autoImplicit false

namespace Worklet

open Syntax Outline Scoping Item Rule

/-! ### Regions -/

/-- What the place of a piece of a tree is to a scope table. -/
inductive Region where
  /-- Code, which is read. -/
  | code
  /-- The parameters of a constructor. -/
  | ctorParams
  /-- A parameter of a constructor. -/
  | ctorParam
  /-- The pattern of a parameter that declares a property. -/
  | property
  /-- In a type. -/
  | type
  /-- In a namespace. -/
  | space
  /-- In the members of an enumeration. -/
  | enumeration
  /-- In a decorator of a constructor's parameter. -/
  | decorator
  /-- In the pattern of a parameter that declares a property, but not in its default. -/
  | pattern
  /-- In the first parameter of a setter that has two. -/
  | receiver
  /-- In an import. -/
  | importing
  /-- Where only a name or a type can stand. -/
  | aside
  deriving DecidableEq, Repr

namespace Region

/-- What stands in the region is not read. -/
def isHidden : Region → Bool
  | .type | .space | .enumeration | .decorator | .pattern | .receiver | .importing => true
  | _ => false

/-- The region of all parts of a type or a namespace. -/
def ofKind? : Ast → Option Region
  | .node (.namespaceDecl ..) _ _ => some .space
  | .node k _ _ => if isTypeKind k then some .type else none
  | _ => none

/-- At the index stands a name or a type. -/
def isAside : Kind → Nat → Bool
  | .ident _, _ => true
  | .bindName _, _ => true
  | .breakStmt, _ => true
  | .continueStmt, _ => true
  | .jsxClosing, _ => true
  | .funcDecl _, 0 => true
  | .funcExpr, 0 => true
  | .classDecl _, 0 => true
  | .classExpr, 0 => true
  | .enumDecl .., 0 => true
  | .labeled, 0 => true
  | .jsxOpening _, 0 => true
  | .arrayPat _, 1 => true
  | .objectPat _, 1 => true
  | .restPat, 1 => true
  | .getter, 1 => true
  | .arrow _, i => 2 ≤ i
  | .function .., i => 3 ≤ i
  | _, _ => false

/-- The tree is a declared variable. -/
def isDeclarator : Ast → Bool
  | .node (.declarator _) _ [_, _] => true
  | _ => false

/-- The region of the part at an index of a node that stands in code. -/
def inCode : Ast → Nat → Region
  | .node (.constructor ..) _ [_, .list _, _], 1 => .ctorParams
  | .node (.enumDecl ..) _ _, _ + 1 => .enumeration
  | .node .setter _ [_, _, _, _], 1 => .receiver
  | .node (.importDecl _) _ (.list _ :: _), _ => .importing
  | .node (.varDecl ..) _ ds, i => if ds[i]?.any isDeclarator then .code else .aside
  | .node k _ _, i => if isAside k i then .aside else .code
  | _, _ => .code

/-- The region of the part at an index of a constructor's parameter. -/
def inCtorParam : Ast → Nat → Region
  | .node .param _ [_, _], 0 => .decorator
  | .node .param _ [_, _], 1 => .code
  | .node (.paramProp _) _ [_, _], 0 => .decorator
  | .node (.paramProp _) _ [_, _], 1 => .property
  | _, _ => .aside

/-- The region of the part at an index of the pattern of a parameter that declares a property: of such a
parameter only the default is read. -/
def inProperty : Ast → Nat → Region
  | .node .assignPat _ [_, _], 1 => .code
  | _, _ => .pattern

def ofPart (q : Region) (t : Ast) (i : Nat) : Region :=
  match q with
  | .code => (ofKind? t).getD (inCode t i)
  | .ctorParams => .ctorParam
  | .ctorParam => (ofKind? t).getD (inCtorParam t i)
  | .property => (ofKind? t).getD (inProperty t i)
  | .aside => (ofKind? t).getD .aside
  | q => q

end Region

/-- Where the function stands that a node is. -/
def functionSpan? : Ast → Option Span
  | .node (.function ..) s (_ :: _ :: _ :: _) => some s
  | .node (.constructor ..) s [_, .list _, _] => some s
  | .node (.arrow _) s (.list _ :: _ :: _) => some s
  | .node .getter s [_, _, _] => some s
  | .node .setter s [_, _, _, _] => some s
  | _ => none

mutual

/-- The functions of a tree in a region, each with its span and its own region. -/
def regionsOf (q : Region) : Ast → List (Span × Region)
  | .absent => []
  | .list ts => regionsOfAll (q.ofPart (.list ts)) ts
  | .node k s cs =>
    (functionSpan? (.node k s cs)).toList.map (·, q) ++ regionsOfAll (q.ofPart (.node k s cs)) cs

def regionsOfAll (qs : Nat → Region) : List Ast → List (Span × Region)
  | [] => []
  | t :: ts => regionsOf (qs 0) t ++ regionsOfAll (fun i => qs (i + 1)) ts

end

theorem mem_regionsOfAll {qs : Nat → Region} {ts : List Ast} {e : Span × Region} :
    e ∈ regionsOfAll qs ts ↔ ∃ i t, ts[i]? = some t ∧ e ∈ regionsOf (qs i) t := by
  induction ts generalizing qs with
  | nil => simp [regionsOfAll]
  | cons t ts ih =>
    rw [regionsOfAll, List.mem_append, ih]
    constructor
    · rintro (h | ⟨i, u, hu, h⟩)
      · exact ⟨0, t, rfl, h⟩
      · exact ⟨i + 1, u, hu, h⟩
    · rintro ⟨i, u, hu, h⟩
      cases i with
      | zero =>
        cases hu
        exact .inl h
      | succ i => exact .inr ⟨i, u, hu, h⟩

/-! ### Spans -/

variable {k : Kind} {s sp : Span} {cs : List Ast}

theorem functionSpan?_eq_some {s' : Span} (h : functionSpan? (.node k s cs) = some s') :
    s' = s ∧ opensFunction k = true := by
  unfold functionSpan? at h
  split at h
  case h_6 => cases h
  all_goals
    rename_i heq
    cases heq
    cases h
    exact ⟨rfl, rfl⟩

mutual

theorem map_fst_regionsOf (q : Region) : ∀ t, ((regionsOf q t).map (·.1)).Sublist (functionSpans t)
  | .absent => by simp [regionsOf]
  | .list ts => by
    rw [regionsOf, functionSpans]
    exact map_fst_regionsOfAll _ ts
  | .node k s cs => by
    rw [regionsOf, functionSpans, List.map_append]
    refine List.Sublist.append ?_ (map_fst_regionsOfAll _ cs)
    cases h : functionSpan? (.node k s cs) with
    | none => simp
    | some s' =>
      obtain ⟨rfl, hk⟩ := functionSpan?_eq_some h
      simp [hk]

theorem map_fst_regionsOfAll (qs : Nat → Region) :
    ∀ ts, ((regionsOfAll qs ts).map (·.1)).Sublist (functionSpansAll ts)
  | [] => by simp [regionsOfAll]
  | t :: ts => by
    rw [regionsOfAll, functionSpansAll, List.map_append]
    exact (map_fst_regionsOf _ t).append (map_fst_regionsOfAll _ ts)

end

theorem map_span_ownFunction {t : Ast}
    (h : ∀ sp name a g fs params decorators body rest, t ≠ .node .funcExpr sp
      [name, .node (.function a g) fs (params :: decorators :: body :: rest)]) :
    (ownFunction t).map (·.span) = (functionSpan? t).toList := by
  unfold ownFunction
  fun_cases plainRule .refers t
  case case15 => exact absurd rfl (h _ _ _ _ _ _ _ _ _)
  case case38 =>
    simp only [Rule.flat, List.map_nil]
    unfold functionSpan?
    split <;> grind
  all_goals simp [Rule.flat, Rule.block, Rule.function, functionSpan?]

theorem map_span_functionsOf (t : Ast) (q : Region) :
    ((functionsOf t).map (·.span)).Perm ((regionsOf q t).map (·.1)) := by
  induction hn : sizeOf t using Nat.strongRecOn generalizing t q with
  | ind n ih =>
  have hall : ∀ (ts : List Ast) (qs : Nat → Region), sizeOf ts < n →
      ((functionsOfAll ts).map (·.span)).Perm ((regionsOfAll qs ts).map (·.1)) := by
    intro ts
    induction ts with
    | nil => simp [functionsOfAll, regionsOfAll]
    | cons t ts ihs =>
      intro qs hsize
      simp only [List.cons.sizeOf_spec] at hsize
      rw [functionsOfAll, regionsOfAll, List.map_append, List.map_append]
      exact (ih _ (by omega) t _ rfl).append (ihs _ (by omega))
  subst hn
  unfold functionsOf
  split
  · simp [regionsOf]
  · rw [regionsOf]
    exact hall _ _ (by simp)
  · rename_i sp fs name f
    simp only [regionsOf, regionsOfAll, functionSpan?, Option.toList_none, List.map_nil, List.nil_append,
      List.append_nil, List.map_append]
    exact (ih _ (by simp; omega) name _ rfl).append (ih _ (by simp; omega) f _ rfl)
  · rename_i sp name a g fs params decorators body rest
    -- the function's span is listed after what its name holds
    have hname := fun q => ih _ (by simp; omega) name q rfl
    have hparts := fun qs => hall (params :: decorators :: body :: rest) qs (by simp; omega)
    simp only [functionsOfAll, List.map_append] at hparts
    simp only [ownFunction, plainRule, regionsOf, functionSpan?, List.map_append, List.append_assoc]
    rw [regionsOfAll, regionsOfAll, regionsOfAll, regionsOf, functionSpan?]
    simp only [Option.toList_some, Option.toList_none, List.map_cons, List.map_nil, List.nil_append,
      List.append_nil, List.map_append, List.singleton_append]
    exact List.Perm.trans (List.Perm.cons _ ((hname _).append (hparts _))) List.perm_middle.symm
  · rename_i k s cs _ hne
    rw [regionsOf, List.map_append, List.map_append, map_span_ownFunction (by grind)]
    refine List.Perm.append ?_ (hall _ _ (by simp only [Ast.node.sizeOf_spec]; omega))
    simp [Function.comp_def]

/-! ### Regions that are left -/

namespace Region

/-- No code can stand in the region. -/
def isClosed : Region → Bool
  | .aside => true
  | q => q.isHidden

theorem ofKind?_eq_some {t : Ast} {r : Region} (h : ofKind? t = some r) :
    r.isHidden = true ∧ ∃ k s cs, t = .node k s cs ∧ isTypeKind k = true := by
  unfold ofKind? at h
  split at h
  · cases h
    exact ⟨rfl, _, _, _, rfl, rfl⟩
  · split at h
    · rename_i hk
      cases h
      exact ⟨rfl, _, _, _, rfl, hk⟩
    · cases h
  · cases h

theorem ofKind?_isSome (k : Kind) (s : Span) (cs : List Ast) :
    (ofKind? (.node k s cs)).isSome = isTypeKind k := by
  unfold ofKind?
  split
  · rename_i heq
    cases heq
    rfl
  · rename_i heq
    cases heq
    split <;> simp_all
  · rename_i hother
    exact absurd rfl (hother k s cs)

theorem isClosed_of_isHidden {q : Region} (hq : q.isHidden = true) : q.isClosed = true := by
  cases q <;> first | rfl | cases hq

theorem isClosed_ofPart {q : Region} (hq : q.isClosed = true) (t : Ast) (i : Nat) :
    (q.ofPart t i).isClosed = true := by
  cases q with
  | aside =>
    cases h : ofKind? t with
    | none => simp [ofPart, h, isClosed]
    | some r => simpa [ofPart, h] using isClosed_of_isHidden (ofKind?_eq_some h).1
  | type | space | enumeration | decorator | pattern | receiver | importing => rfl
  | _ => cases hq

end Region

mutual

/-- Where no code can stand, no function stands in code. -/
theorem isClosed_of_mem {q : Region} (hq : q.isClosed = true) :
    ∀ (t : Ast) {e : Span × Region}, e ∈ regionsOf q t → e.2.isClosed = true
  | .absent, _, h => by cases h
  | .list ts, _, h => isClosed_of_memAll (q.isClosed_ofPart hq _) ts h
  | .node k s cs, e, h => by
    rw [regionsOf, List.mem_append, List.mem_map] at h
    rcases h with ⟨_, _, rfl⟩ | h
    · exact hq
    · exact isClosed_of_memAll (q.isClosed_ofPart hq _) cs h

theorem isClosed_of_memAll {qs : Nat → Region} (hqs : ∀ i, (qs i).isClosed = true) :
    ∀ (ts : List Ast) {e : Span × Region}, e ∈ regionsOfAll qs ts → e.2.isClosed = true
  | [], _, h => by cases h
  | t :: ts, e, h => by
    rw [regionsOfAll, List.mem_append] at h
    rcases h with h | h
    · exact isClosed_of_mem (hqs 0) t h
    · exact isClosed_of_memAll (fun i => hqs (i + 1)) ts h

end

/-! ### Rules -/

/-- A function is opened by a node, or in a part that its rule brings. -/
theorem mem_openedAll_outlineBy {r : Rule} :
    s ∈ openedAll (outlineBy r) ↔
      (∃ o, r.inner = some o ∧ o.function = some s) ∨
        ∃ m u, .part m u ∈ r.here ++ r.inside ∧ s ∈ openedAll (outlineIn m u) := by
  have hitems : ∀ items : List Item, s ∈ openedAll (items.flatMap outlineOf) ↔
      ∃ m u, .part m u ∈ items ∧ s ∈ openedAll (outlineIn m u) := by
    intro items
    induction items with
    | nil => simp [openedAll]
    | cons i items ih =>
      rw [List.flatMap_cons, openedAll_append, List.mem_append, ih]
      rcases i with n | ⟨n, b⟩ | ⟨m, u⟩
      · simp [outlineOf, openedAll, opened]
      · simp [outlineOf, openedAll, opened]
      · simp only [outlineOf, List.mem_cons, Item.part.injEq]
        constructor
        · rintro (h | ⟨m', u', hu, h⟩)
          · exact ⟨m, u, .inl ⟨rfl, rfl⟩, h⟩
          · exact ⟨m', u', .inr hu, h⟩
        · rintro ⟨m', u', ⟨rfl, rfl⟩ | hu, h⟩
          · exact .inl h
          · exact .inr ⟨m', u', hu, h⟩
  rw [outlineBy, openedAll_append, List.mem_append, hitems]
  cases hr : r.inner with
  | none => simp [Rule.inside, hr, openedAll]
  | some o =>
    simp only [Rule.inside, hr, Option.map_some, Option.toList_some, openedAll, opened, List.append_nil,
      List.mem_append, Option.mem_toList, hitems, Option.getD_some, Option.some.injEq, exists_eq_left']
    grind

section Parts

variable {naming : Naming} {q : Region} {qs : Nat → Region} {t u : Ast} {ts : List Ast} {m : Role}

/-! ### Functions in code -/

theorem code_notMem (hq : q.isClosed = true) (t : Ast) : (s, .code) ∉ regionsOf q t := by
  intro h
  cases isClosed_of_mem hq t h

theorem code_notMemAll (hqs : ∀ i, (qs i).isClosed = true) (ts : List Ast) :
    (s, .code) ∉ regionsOfAll qs ts := by
  intro h
  cases isClosed_of_memAll hqs ts h

/-- No function in code stands in a tree that is none and of which all parts are left. -/
theorem code_notMem_of_parts (hq : q ≠ .code) (hparts : ∀ i, (q.ofPart t i).isClosed = true) :
    (s, .code) ∉ regionsOf q t := by
  intro h
  cases t with
  | absent => cases h
  | list ts => exact code_notMemAll hparts ts h
  | node k sp cs =>
    simp only [regionsOf, List.mem_append, List.mem_map, Prod.mk.injEq] at h
    rcases h with ⟨_, _, _, h⟩ | h
    · exact hq h
    · exact code_notMemAll hparts cs h

theorem isClosed_getD {r : Region} (hr : r.isClosed = true) : ((Region.ofKind? t).getD r).isClosed = true := by
  cases h : Region.ofKind? t with
  | none => exact hr
  | some r => exact Region.isClosed_of_isHidden (Region.ofKind?_eq_some h).1

@[simp] theorem code_notMem_aside (t : Ast) : (s, .code) ∉ regionsOf .aside t :=
  code_notMem rfl t

@[simp] theorem code_notMem_receiver (t : Ast) : (s, .code) ∉ regionsOf .receiver t :=
  code_notMem rfl t

@[simp] theorem code_notMem_asideAll (ts : List Ast) : (s, .code) ∉ regionsOfAll (fun _ => .aside) ts :=
  code_notMemAll (fun _ => rfl) ts

/-- A function in code among trees of which none stands in a region of its own kind. -/
theorem code_of_memAll (hqs : ∀ i, qs i = .code ∨ (qs i).isClosed = true)
    (h : (s, .code) ∈ regionsOfAll qs ts) : ∃ u ∈ ts, (s, .code) ∈ regionsOf .code u := by
  obtain ⟨i, u, hu, h⟩ := mem_regionsOfAll.1 h
  rcases hqs i with hcode | hclosed
  · exact ⟨u, List.mem_of_getElem? hu, hcode ▸ h⟩
  · exact absurd h (code_notMem hclosed u)

theorem inCode_eq (i : Nat)
    (hctor : ∀ a o key ps body, k = .constructor a o → cs ≠ [key, .list ps, body]) :
    Region.inCode (.node k s cs) i = .code ∨ (Region.inCode (.node k s cs) i).isClosed = true := by
  unfold Region.inCode
  split
  case h_1 heq =>
    cases heq
    exact absurd rfl (hctor _ _ _ _ _ rfl)
  case h_2 | h_3 | h_4 => exact .inr rfl
  case h_5 | h_6 => split <;> simp [Region.isClosed]
  case h_7 => exact .inl rfl

/-- The parts of a node stand in code or are left, but for the parameters of a constructor. -/
theorem ofPart_code_eq
    (hctor : ∀ a o key ps body, k = .constructor a o → cs ≠ [key, .list ps, body]) (i : Nat) :
    Region.ofPart .code (.node k s cs) i = .code ∨
      (Region.ofPart .code (.node k s cs) i).isClosed = true := by
  unfold Region.ofPart
  cases h : Region.ofKind? (.node k s cs) with
  | none => exact inCode_eq i hctor
  | some r => exact .inr (Region.isClosed_of_isHidden (Region.ofKind?_eq_some h).1)

theorem isClosed_ofPart_type (hk : isTypeKind k = true) (i : Nat) :
    (Region.ofPart .code (.node k s cs) i).isClosed = true := by
  obtain ⟨r, hr⟩ := Option.isSome_iff_exists.1 ((Region.ofKind?_isSome k s cs).trans hk)
  simpa [Region.ofPart, hr] using Region.isClosed_of_isHidden (Region.ofKind?_eq_some hr).1

/-- A function in code among the parameters of a constructor stands in a pattern or a default. -/
theorem code_of_ctorParams (h : (s, .code) ∈ regionsOf .ctorParams (.list ts)) :
    ∃ t ∈ ts, ∃ m u, .part m u ∈ ofCtorParam t ∧ (s, .code) ∈ regionsOf .code u := by
  obtain ⟨i, t, ht, h⟩ := mem_regionsOfAll.1 h
  refine ⟨t, List.mem_of_getElem? ht, ?_⟩
  change (s, .code) ∈ regionsOf .ctorParam t at h
  fun_cases ofCtorParam t with
  | case1 sp d p =>
    have hd := code_notMem (s := s) (q := .decorator) rfl d
    simp only [regionsOf, regionsOfAll, functionSpan?, Region.ofPart, Region.ofKind?, isTypeKind,
      Region.inCtorParam] at h
    exact ⟨.binds, p, by simp, by simpa [hd] using h⟩
  | case2 mods sp d sp' p v =>
    have hd := code_notMem (s := s) (q := .decorator) rfl d
    simp only [regionsOf, regionsOfAll, functionSpan?, Region.ofPart, Region.ofKind?, isTypeKind,
      Region.inCtorParam, Region.inProperty] at h
    have hp := code_notMem (s := s) (q := .pattern) rfl p
    exact ⟨.refers, v, by simp, by simpa [hd, hp] using h⟩
  | case3 mods sp d p hp =>
    have hd := code_notMem (s := s) (q := .decorator) rfl d
    have hpattern : (s, .code) ∈ regionsOf .property p := by
      simp only [regionsOf, regionsOfAll, functionSpan?, Region.ofPart, Region.ofKind?, isTypeKind,
        Region.inCtorParam] at h
      simpa [hd] using h
    refine absurd hpattern (code_notMem_of_parts (by simp) fun i => isClosed_getD ?_)
    unfold Region.inProperty
    split
    · exact (hp _ _ _ rfl).elim
    · rfl
  | case4 t hparam hprop hprop' =>
    refine absurd h (code_notMem_of_parts (by simp) fun i => isClosed_getD ?_)
    unfold Region.inCtorParam
    split <;> grind [Region.isClosed]

/-- A function in code among declared variables stands in a pattern or a value. -/
theorem code_of_declarators {k : VarKind} {d : Bool}
    (h : (s, .code) ∈ regionsOfAll (Region.ofPart .code (.node (.varDecl k d) sp ts)) ts) :
    ∃ t ∈ ts, ∃ m u, .part m u ∈ ofDeclarator (varBinding k) t ∧ (s, .code) ∈ regionsOf .code u := by
  obtain ⟨i, t, ht, h⟩ := mem_regionsOfAll.1 h
  refine ⟨t, List.mem_of_getElem? ht, ?_⟩
  simp only [Region.ofPart, Region.ofKind?, isTypeKind, Region.inCode, ht, Option.any_some] at h
  fun_cases ofDeclarator (varBinding k) t with
  | case1 d sp p v =>
    simp [Region.isDeclarator, regionsOf, regionsOfAll, functionSpan?, Region.ofPart, Region.ofKind?,
      isTypeKind, Region.inCode, Region.isAside] at h
    rcases h with h | h
    · exact ⟨.binds, p, by simp, h⟩
    · exact ⟨.refers, v, by simp, h⟩
  | case2 t hd =>
    have hnone : Region.isDeclarator t = false := by
      unfold Region.isDeclarator
      split
      · exact absurd rfl (hd _ _ _ _)
      · rfl
    simp [hnone] at h

/-- How the body of a function is read. -/
def bodyRole : Ast → Role
  | .node .block _ _ => .body
  | _ => .refers

theorem ofBody_eq_part (t : Ast) : ofBody t = .part (bodyRole t) t := by
  fun_cases ofBody t <;> simp_all [bodyRole]

/-- A function in code is the node itself, or stands in a part that the node brings. -/
theorem code_of_mem (h : (s, .code) ∈ regionsOf .code t) :
    (∃ o, (plainRule naming t).inner = some o ∧ o.function = some s) ∨
      ∃ m u, .part m u ∈ (plainRule naming t).here ++ (plainRule naming t).inside ∧
        (s, .code) ∈ regionsOf .code u := by
  revert h
  fun_cases plainRule naming t
  case case28 k d sp ds =>
    intro h
    simp only [regionsOf, functionSpan?, Option.toList_none, List.map_nil, List.nil_append] at h
    obtain ⟨t, ht, m, u, hu, h⟩ := code_of_declarators h
    exact .inr ⟨m, u, by simpa [Rule.flat, Rule.inside] using ⟨t, ht, hu⟩, h⟩
  case case38 k sp cs _ _ _ _ _ _ _ _ _ _ _ _ _ hfunction _ hctor harrow hgetter hsetter _ _ _ _ _ _ _ _ _ _ _
      _ _ _ _ =>
    intro h
    have hspan : functionSpan? (.node k sp cs) = none := by
      unfold functionSpan?
      split <;> grind
    simp only [regionsOf, hspan, Option.toList_none, List.map_nil, List.nil_append] at h
    cases hk : isTypeKind k with
    | true => exact absurd h (code_notMemAll (isClosed_ofPart_type hk) cs)
    | false =>
      obtain ⟨u, hu, h⟩ := code_of_memAll (ofPart_code_eq hctor) h
      exact .inr ⟨.refers, u, by simp [Rule.flat, Rule.inside, hu], h⟩
  all_goals simp [Rule.flat, Rule.block, Rule.function, Rule.inside, ofBody_eq_part, regionsOf, regionsOfAll,
    functionSpan?, Region.ofPart, Region.ofKind?, isTypeKind, Region.inCode, Region.isAside]
  case case2 => exact code_of_memAll fun _ => .inl rfl
  case case3 | case33 | case34 | case37 => exact code_notMemAll (fun _ => rfl) _
  case case4 => exact fun h => absurd h (code_notMemAll (fun _ => rfl) _)
  case case11 => exact ⟨code_notMemAll (fun _ => rfl) _, code_notMemAll (fun _ => rfl) _⟩
  case case18 =>
    rintro (h | h | h | h)
    · exact .inl h.symm
    · exact .inr ⟨_, _, .inl ⟨rfl, rfl⟩, h⟩
    · obtain ⟨t, ht, m, u, hu, h⟩ := code_of_ctorParams h
      exact .inr ⟨m, u, .inr (.inl ⟨t, ht, hu⟩), h⟩
    · exact .inr ⟨_, _, .inr (.inr ⟨rfl, rfl⟩), h⟩
  case case19 =>
    rintro (h | h | h)
    · exact .inl h.symm
    · obtain ⟨u, hu, h⟩ := code_of_memAll (fun _ => .inl rfl) h
      exact .inr ⟨_, u, .inl ⟨hu, rfl⟩, h⟩
    · exact .inr ⟨_, _, .inr ⟨rfl, rfl⟩, h⟩
  case case22 | case24 | case25 | case26 | case35 => exact code_of_memAll fun _ => .inl rfl
  all_goals grind

/-! ### Functions that are read -/

/-- The region is code, or aside. -/
def Region.isRead : Region → Bool
  | .code | .aside => true
  | _ => false

/-- The tree has a function with the span, which is not hidden if the tree is not. -/
def Known (s : Span) (t : Ast) : Prop :=
  ∀ q : Region, q.isRead = true → ∃ r : Region, r.isHidden = false ∧ (s, r) ∈ regionsOf q t

namespace Known

theorem of_parts {c : Ast}
    (hparts : ∀ (q : Region) (i : Nat), q.isRead = true → cs[i]? = some c →
      (q.ofPart (.node k sp cs) i).isRead = true)
    (hc : c ∈ cs) (h : Known s c) : Known s (.node k sp cs) := by
  intro q hq
  obtain ⟨i, hi⟩ := List.mem_iff_getElem?.1 hc
  obtain ⟨r, hr, hmem⟩ := h _ (hparts q i hq hi)
  refine ⟨r, hr, ?_⟩
  rw [regionsOf, List.mem_append]
  exact .inr (mem_regionsOfAll.2 ⟨i, c, hi, hmem⟩)

theorem item {c : Ast} (hc : c ∈ ts) (h : Known s c) : Known s (.list ts) := by
  intro q hq
  obtain ⟨i, hi⟩ := List.mem_iff_getElem?.1 hc
  have hpart : (q.ofPart (.list ts) i).isRead = true := by
    cases q <;> first | rfl | cases hq
  obtain ⟨r, hr, hmem⟩ := h _ hpart
  exact ⟨r, hr, mem_regionsOfAll.2 ⟨i, c, hi, hmem⟩⟩

theorem own (h : functionSpan? t = some s) : Known s t := by
  intro q hq
  refine ⟨q, (by cases q <;> first | rfl | cases hq), ?_⟩
  cases t with
  | node => simp [regionsOf, h]
  | _ => cases h

end Known

theorem isRead_inCode (i : Nat)
    (hctor : ∀ a o key ps body, k = .constructor a o → cs ≠ [key, .list ps, body])
    (henum : ∀ d c, k = .enumDecl d c → cs = [])
    (hsetter : ∀ key r p body, k = .setter → cs ≠ [key, r, p, body])
    (himport : ∀ t ps rest, k = .importDecl t → cs ≠ .list ps :: rest) (hi : i < cs.length) :
    (Region.inCode (.node k sp cs) i).isRead = true := by
  unfold Region.inCode
  split
  case h_1 heq =>
    cases heq
    exact absurd rfl (hctor _ _ _ _ _ rfl)
  case h_2 heq =>
    cases heq
    rw [henum _ _ rfl] at hi
    cases hi
  case h_3 heq =>
    cases heq
    exact absurd rfl (hsetter _ _ _ _ rfl)
  case h_4 heq =>
    cases heq
    exact absurd rfl (himport _ _ _ rfl)
  case h_5 | h_6 => split <;> rfl
  case h_7 => rfl

/-- Children of most nodes are read where the node is. -/
theorem Known.child {c : Ast} (hk : isTypeKind k = false)
    (hc : c ∈ cs) (h : Known s c)
    (hctor : ∀ a o key ps body, k = .constructor a o → cs ≠ [key, .list ps, body] := by simp)
    (henum : ∀ d c, k = .enumDecl d c → cs = [] := by simp)
    (hsetter : ∀ key r p body, k = .setter → cs ≠ [key, r, p, body] := by simp)
    (himport : ∀ t ps rest, k = .importDecl t → cs ≠ .list ps :: rest := by simp) :
    Known s (.node k sp cs) := by
  refine .of_parts (fun q i hq hi => ?_) hc h
  have hnone : Region.ofKind? (.node k sp cs) = none :=
    Option.isSome_eq_false_iff.1 ((Region.ofKind?_isSome k sp cs).trans hk) |> Option.isNone_iff_eq_none.1
  cases q with
  | code =>
    simpa [Region.ofPart, hnone] using
      isRead_inCode i hctor henum hsetter himport (List.getElem?_eq_some_iff.1 hi).1
  | aside => simp [Region.ofPart, hnone, Region.isRead]
  | _ => cases hq

/-- What stands at an index that is read where the node is. -/
theorem Known.at {c : Ast} (i : Nat) (hi : cs[i]? = some c) (h : Known s c)
    (hread : ∀ q : Region, q.isRead = true → (q.ofPart (.node k sp cs) i).isRead = true := by
      intro q hq
      cases q <;> first | rfl | cases hq) :
    Known s (.node k sp cs) := by
  intro q hq
  obtain ⟨r, hr, hmem⟩ := h _ (hread q hq)
  refine ⟨r, hr, ?_⟩
  rw [regionsOf, List.mem_append]
  exact .inr (mem_regionsOfAll.2 ⟨i, c, hi, hmem⟩)

/-- What stands in a part that a parameter of a constructor brings. -/
theorem Known.ctorParam {a : Option Access} {o : Bool} {key body : Ast} (ht : t ∈ ts)
    (h : .part m u ∈ ofCtorParam t) (hu : Known s u) :
    Known s (.node (.constructor a o) sp [key, .list ts, body]) := by
  intro q hq
  cases q with
  | code =>
    obtain ⟨r, hr, hmem⟩ := hu .code rfl
    refine ⟨r, hr, ?_⟩
    have hparam : (s, r) ∈ regionsOf .ctorParam t := by
      unfold ofCtorParam at h
      split at h
      · simp only [part_mem_bound] at h
        simp [regionsOf, regionsOfAll, functionSpan?, Region.ofPart, Region.ofKind?, isTypeKind,
          Region.inCtorParam, ← h.2, hmem]
      · simp only [List.mem_append, part_notMem_declareEach, List.mem_singleton, Item.part.injEq, false_or] at h
        simp [regionsOf, regionsOfAll, functionSpan?, Region.ofPart, Region.ofKind?, isTypeKind,
          Region.inCtorParam, Region.inProperty, ← h.2, hmem]
      · simp at h
      · simp at h
    obtain ⟨i, hi⟩ := List.mem_iff_getElem?.1 ht
    rw [regionsOf, List.mem_append]
    exact .inr (mem_regionsOfAll.2 ⟨1, _, rfl, mem_regionsOfAll.2 ⟨i, t, hi, hparam⟩⟩)
  | aside =>
    have hparam : Known s t := by
      unfold ofCtorParam at h
      split at h
      · exact .child rfl (by simp at h ⊢; exact .inr h.2) hu
      · exact .child rfl (List.mem_cons_of_mem _ (List.mem_singleton_self _))
          (.child rfl (by simp at h ⊢; exact .inr h.2) hu)
      · simp at h
      · simp at h
    obtain ⟨r, hr, hmem⟩ := Known.item ht hparam .aside rfl
    refine ⟨r, hr, ?_⟩
    rw [regionsOf, List.mem_append]
    exact .inr (mem_regionsOfAll.2 ⟨1, _, rfl, hmem⟩)
  | _ => cases hq

/-- What stands in a part that a node brings stands in the node. -/
theorem Known.of_part (h : .part m u ∈ (plainRule naming t).here ++ (plainRule naming t).inside)
    (hu : Known s u) : Known s t := by
  revert h
  fun_cases plainRule naming t
  case case12 sp fs name f | case13 sp fs name f =>
    simp [Rule.flat, Rule.inside]
    rintro - rfl
    exact .child rfl (List.mem_singleton_self _) (.child rfl (by simp) hu)
  case case15 sp name a g fs params decorators body rest =>
    simp [Rule.function, Rule.inside, ofBody_eq_part]
    intro h
    exact .child rfl (List.mem_cons_of_mem _ (List.mem_singleton_self _))
      (.child rfl (by grind) hu)
  case case18 a o sp key ps body =>
    simp [Rule.function, Rule.inside, ofBody_eq_part]
    rintro (⟨-, rfl⟩ | ⟨t, ht, hpart⟩ | ⟨-, rfl⟩)
    · exact .at 0 rfl hu
    · exact .ctorParam ht hpart hu
    · exact .at 2 rfl hu
  case case19 a sp ps body rest =>
    simp [Rule.function, Rule.inside, ofBody_eq_part]
    rintro (⟨hp, -⟩ | ⟨-, rfl⟩)
    · exact .child rfl List.mem_cons_self (.item hp hu)
    · exact .child rfl (by simp) hu
  case case21 sp key receiver p body =>
    simp [Rule.function, Rule.inside, ofBody_eq_part]
    rintro (⟨-, rfl⟩ | ⟨-, rfl⟩ | ⟨-, rfl⟩)
    · exact .at 0 rfl hu
    · exact .at 2 rfl hu
    · exact .at 3 rfl hu
  case case28 k d sp ds =>
    simp [Rule.flat, Rule.inside]
    intro t ht hpart
    refine .child rfl ht ?_
    unfold ofDeclarator at hpart
    split at hpart
    · exact .child rfl (by simp at hpart ⊢; grind) hu
    · simp at hpart
  case case38 k sp cs _ _ _ _ _ _ _ _ himport _ _ _ _ _ _ hctor _ _ hsetter _ _ _ _ _ _ _ _ _ _ _ _ _ _ henum =>
    cases hk : isTypeKind k with
    | true => simp [Rule.flat, Rule.inside]
    | false =>
      simp [Rule.flat, Rule.inside]
      rintro - hmem
      refine .child hk hmem hu hctor (fun d c hd => ?_) hsetter himport
      cases cs with
      | nil => rfl
      | cons c cs => exact (henum _ _ _ _ hd rfl).elim
  all_goals simp [Rule.flat, Rule.block, Rule.function, Rule.inside, ofBody_eq_part]
  all_goals intros
  case case2 => exact .item ‹_› hu
  all_goals exact .child rfl (by grind) hu

theorem Known.of_inner {o : Opening} (h : (plainRule naming t).inner = some o) (hs : o.function = some s) :
    Known s t := by
  revert h
  fun_cases plainRule naming t
  all_goals simp only [Rule.flat, Rule.block, Rule.function, reduceCtorEq, Option.some.injEq,
    IsEmpty.forall_iff]
  all_goals
    rintro rfl
    cases hs
  case case15 => exact .child rfl (List.mem_cons_of_mem _ (List.mem_singleton_self _)) (.own rfl)
  all_goals exact .own rfl

end Parts

/-! ### Tables -/

/-- A function in code is opened by the outline. -/
theorem mem_openedAll_of_code (m : Role) (t : Ast) (h : (s, .code) ∈ regionsOf .code t) :
    s ∈ openedAll (outlineIn m t) := by
  refine plain.rule_induction (P := fun m t => ∀ {s : Span}, (s, .code) ∈ regionsOf .code t →
    s ∈ openedAll (outlineIn m t)) (fun m t ih s h => ?_) m t h
  rw [← outlineBy_plain, mem_openedAll_outlineBy]
  have hstep : (∃ o, (plainRuleAs m t).inner = some o ∧ o.function = some s) ∨
      ∃ m' u, .part m' u ∈ (plainRuleAs m t).here ++ (plainRuleAs m t).inside ∧
        (s, .code) ∈ regionsOf .code u := by
    fun_cases plainRuleAs m t with
    | case1 => exact code_of_mem h
    | case2 => exact code_of_mem h
    | case3 sp ss =>
      obtain ⟨u, hu, h⟩ := code_of_memAll (fun _ => .inl rfl) h
      exact .inr ⟨.refers, u, by simp [Rule.flat, Rule.inside, hu], h⟩
    | case4 => exact code_of_mem h
  exact hstep.imp_right fun ⟨m', u, hu, h⟩ => ⟨m', u, hu, ih m' u hu h⟩

/-- A function that the outline opens is not hidden. -/
theorem known_of_mem_openedAll (m : Role) (t : Ast) (h : s ∈ openedAll (outlineIn m t)) :
    Known s t := by
  refine plain.rule_induction (P := fun m t => ∀ {s : Span}, s ∈ openedAll (outlineIn m t) → Known s t)
    (fun m t ih s h => ?_) m t h
  rw [← outlineBy_plain, mem_openedAll_outlineBy] at h
  change (∃ o, (plainRuleAs m t).inner = some o ∧ o.function = some s) ∨
    ∃ m' u, .part m' u ∈ (plainRuleAs m t).here ++ (plainRuleAs m t).inside ∧ _ at h
  change ∀ m' u, .part m' u ∈ (plainRuleAs m t).here ++ (plainRuleAs m t).inside → _ at ih
  revert h ih
  fun_cases plainRuleAs m t with
  | case3 sp ss =>
    rintro (⟨o, ho, -⟩ | ⟨m', u, hu, h⟩) ih
    · cases ho
    · have hmem : m' = .refers ∧ u ∈ ss := by simpa [Rule.flat, Rule.inside] using hu
      exact .child rfl hmem.2 (ih m' u hu h)
  | _ =>
    rintro (⟨o, ho, hs⟩ | ⟨m', u, hu, h⟩) ih
    · exact .of_inner ho hs
    · exact .of_part hu (ih m' u hu h)

theorem map_snd_functionIdsAll (os : List Outline) (next : Nat) :
    ((functionIdsAll next os).map (·.2)).Sublist (List.range' next (scopeCountAll os)) := by
  rw [ScopeTable.functionIdsAll_eq, ← ScopeTable.map_fst_spanIdsAll]
  induction spanIdsAll next os with
  | nil => exact .refl _
  | cons e es ih =>
    have hentry : ((functionEntry e.2 e.1).map (·.2)).Sublist [e.1] := by
      fun_cases functionEntry e.2 e.1 <;> simp
    rw [List.flatMap_cons, List.map_append]
    exact hentry.append ih

section Table

variable {module : Ast}

/-- **A function in code has a scope.** -/
theorem functionScope?_isSome_of_code (h : (s, .code) ∈ regionsOf .code module) (hs : s.isMade = false) :
    ((ScopeTable.ofModule module).functionScope? s).isSome = true :=
  (functionScope?_isSome_iff module s).2 ⟨hs, mem_openedAll_of_code .refers module h⟩

/-- **A function that is hidden has no scope**, if no other function has its span. -/
theorem functionScope?_eq_none_of_hidden (hd : (functionSpans module).Nodup) {r : Region}
    (h : (s, r) ∈ regionsOf .code module) (hr : r.isHidden = true) :
    (ScopeTable.ofModule module).functionScope? s = none := by
  by_contra hne
  obtain ⟨-, hopened⟩ := (functionScope?_isSome_iff module s).1 (Option.isSome_iff_ne_none.2 hne)
  obtain ⟨r', hr', h'⟩ := known_of_mem_openedAll .refers module hopened .code rfl
  have hnodup := hd.sublist (map_fst_regionsOf .code module)
  have heq : (s, r) = (s, r') := List.inj_on_of_nodup_map hnodup h h' rfl
  cases heq
  rw [hr] at hr'
  cases hr'

/-- **No two functions have one scope.** -/
theorem functionScope?_injective {s' : Span} {own : Nat}
    (h : (ScopeTable.ofModule module).functionScope? s = some own)
    (h' : (ScopeTable.ofModule module).functionScope? s' = some own) : s = s' := by
  have hnodup : ((functionIdsAll 1 (outline module)).map (·.2)).Nodup :=
    (map_snd_functionIdsAll (outline module) 1).nodup List.nodup_range'
  have hmem : ∀ {s : Span}, (ScopeTable.ofModule module).functionScope? s = some own →
      (s, own) ∈ functionIdsAll 1 (outline module) := by
    intro s h
    obtain ⟨e, he, rfl⟩ := Option.map_eq_some_iff.1 h
    obtain rfl : e.1 = s := by simpa using List.find?_some he
    have hin := List.mem_of_find?_eq_some he
    rw [ScopeTable.ofModule, (ScopeTable.addAll_empty _).functions] at hin
    simpa [ScopeTable.empty] using hin
  exact congrArg Prod.fst (List.inj_on_of_nodup_map hnodup (hmem h) (hmem h') rfl)

end Table

end Worklet
