import Mathlib.Data.List.Forall2
import Worklet.Proofs.Scope.Plain

/-!
# Trees that are read alike

The rules look at little of a node's parts: at names, patterns, parameters, lists and blocks. A
relation that keeps these is not seen by the rules.

* `ItemAlike`, `OpeningAlike`, `RuleAlike` — what two nodes bring, part by part.

Principal results: `Likeness.rule` — nodes with related children bring related parts;
`RuleAlike.outlines` — what is congruent of the parts of two nodes is so of their outlines.
-/

set_option autoImplicit false

namespace Worklet

open Syntax Outline Scoping

/-! ### Kinds -/

def opensFunction : Kind → Bool
  | .function .. | .constructor .. | .arrow _ | .getter | .setter => true
  | _ => false

/-- A form that binds names. -/
def isPatternKind : Kind → Bool
  | .bindName _ | .arrayPat _ | .objectPat _ | .restPat | .assignPat | .patProp
  | .patShorthand => true
  | _ => false

/-- The kinds of nodes that the rules look for among the parts of a node. -/
def isLookedFor : Kind → Bool
  | .ident _ | .importNamed _ | .importDefault | .importStar | .jsxMember | .function .. | .param
  | .paramProp _ | .declarator _ | .classExpr => true
  | k => isPatternKind k

def isLookedForTree : Ast → Bool
  | .node k _ _ => isLookedFor k
  | _ => false

def hasOwnRule : Kind → Bool
  | .ident _ | .bindName _ | .arrayPat _ | .objectPat _ | .restPat | .assignPat | .patProp
  | .patShorthand | .importDecl _ | .exportDefaultDecl | .funcDecl _ | .funcExpr | .function ..
  | .param | .constructor .. | .arrow _ | .getter | .setter | .block | .catchClause | .forStmt
  | .forIn | .forOf _ | .switchStmt | .varDecl .. | .classDecl _ | .classExpr | .labeled
  | .breakStmt | .continueStmt | .jsxOpening _ | .jsxClosing | .enumDecl .. => true
  | _ => false

/-- The kinds with a rule of their own for two children. -/
def hasPairRule : Kind → Bool
  | .arrayPat _ | .objectPat _ | .restPat | .assignPat | .patProp | .patShorthand | .funcDecl _
  | .param | .catchClause | .switchStmt | .classDecl _ | .classExpr | .labeled => true
  | _ => false

variable {s : Span} {cs : List Ast} {t t' : Ast} {items : List Item}

theorem plainRule_eq_parts {naming : Naming} {k : Kind} (h : hasOwnRule k = false) :
    plainRule naming (.node k s cs) =
      .flat (if isTypeKind k then [] else Item.parts .refers cs) := by
  cases k <;> first | rfl | cases h

theorem plainRule_pair_eq_parts {naming : Naming} {k : Kind} (h : hasPairRule k = true)
    (hl : cs.length ≠ 2) :
    plainRule naming (.node k s cs) = .flat (Item.parts .refers cs) := by
  revert h
  fun_cases hasPairRule k
  case case14 => exact fun h => nomatch h
  all_goals
    rcases cs with _ | ⟨_, _ | ⟨_, _ | ⟨_, _⟩⟩⟩
    case cons.cons.nil => exact absurd rfl hl
    all_goals exact fun _ => rfl

/-! ### What is read of parts -/

theorem boundNames_eq_nil {k : Kind} (h : isPatternKind k = false) :
    boundNames (.node k s cs) = [] := by
  cases k <;> first | rfl | cases h

theorem boundNames_bindName (o : Bool) (s : Span) (a b : Ast) :
    boundNames (.node (.bindName o) s [a, b]) = a.identName?.toList := by
  rcases a with _ | _ | ⟨k, _, _⟩ <;> try rfl
  cases k <;> rfl

theorem boundNames_arrayPat (o : Bool) (s : Span) (a b : Ast) :
    boundNames (.node (.arrayPat o) s [a, b]) = boundNamesAll a.items := by
  cases a <;> rfl

theorem boundNames_objectPat (o : Bool) (s : Span) (a b : Ast) :
    boundNames (.node (.objectPat o) s [a, b]) = boundNamesAll a.items := by
  cases a <;> rfl

theorem boundNames_of_length {k : Kind} (h : cs.length ≠ 2) :
    boundNames (.node k s cs) = [] := by
  rcases cs with _ | ⟨_, _ | ⟨_, _ | ⟨_, _⟩⟩⟩
  case cons.cons.nil => exact absurd rfl h
  all_goals cases k <;> first | rfl | simp [boundNames]

section NotLookedFor

variable {t : Ast} (h : isLookedForTree t = false)
include h

theorem boundNames_of_not_lookedFor : boundNames t = [] := by
  rcases t with _ | _ | ⟨k, _, _⟩ <;> try rfl
  cases k <;> first | rfl | cases h

theorem ofTagObject_of_not_lookedFor : Item.ofTagObject t = [] := by
  rcases t with _ | _ | ⟨k, _, _⟩ <;> try rfl
  cases k <;> first | rfl | cases h

theorem ofTag_of_not_lookedFor : Item.ofTag t = [] := by
  rcases t with _ | _ | ⟨k, _, _⟩ <;> try rfl
  cases k <;> first | rfl | cases h

theorem ofImport_of_not_lookedFor : Item.ofImport t = [] := by
  rcases t with _ | _ | ⟨k, _, _⟩ <;> try rfl
  cases k <;> first | rfl | cases h

theorem ofDeclarator_of_not_lookedFor {kind : BindingKind} : Item.ofDeclarator kind t = [] := by
  rcases t with _ | _ | ⟨k, _, _⟩ <;> try rfl
  cases k <;> first | rfl | cases h

theorem ofCtorParam_of_not_lookedFor : Item.ofCtorParam t = [] := by
  rcases t with _ | _ | ⟨k, _, _⟩ <;> try rfl
  cases k <;> first | rfl | cases h

end NotLookedFor

theorem ofBody_eq (ht : ∀ s ss, t ≠ .node .block s ss) :
    Item.ofBody t = .part .refers t := by
  unfold Item.ofBody
  split
  · exact absurd rfl (ht _ _)
  · rfl

/-! ### Relations -/

/-- A relation between trees that keeps what the rules look for. The functions of the second tree
stand where `φ` says. -/
structure Likeness (φ : Span → Span) (E : Ast → Ast → Prop) : Prop where
  present : ∀ {t t' : Ast}, E t t' → t'.isPresent = t.isPresent
  list : ∀ {t t' : Ast}, E t t' →
    (∃ ts ts', t = .list ts ∧ t' = .list ts' ∧ List.Forall₂ E ts ts') ∨
      (∀ ts, t ≠ .list ts) ∧ ∀ ts, t' ≠ .list ts
  block : ∀ {t t' : Ast}, E t t' →
    ((∃ s ss, t = .node .block s ss) ↔ ∃ s ss, t' = .node .block s ss)
  node : ∀ {t t' : Ast} {k : Kind}, E t t' → isLookedFor k = true →
    (∃ s s' cs cs', t = .node k s cs ∧ t' = .node k s' cs' ∧ (opensFunction k = true → s' = φ s) ∧
      List.Forall₂ E cs cs') ∨
      (∀ s cs, t ≠ .node k s cs) ∧ ∀ s cs, t' ≠ .node k s cs

/-- The parts of a default export are related function expressions, or neither is one. -/
def DefaultsAlike (E : Ast → Ast → Prop) (t t' : Ast) : Prop :=
  (∃ s s' cs cs', t = .node .funcExpr s cs ∧ t' = .node .funcExpr s' cs' ∧ List.Forall₂ E cs cs') ∨
    (∀ s cs, t ≠ .node .funcExpr s cs) ∧ ∀ s cs, t' ≠ .node .funcExpr s cs

/-- An item and one like it. -/
inductive ItemAlike (E : Ast → Ast → Prop) : Item → Item → Prop
  | mention (n : String) : ItemAlike E (.mention n) (.mention n)
  | declare (n : String) (k : BindingKind) : ItemAlike E (.declare n k) (.declare n k)
  | part (m : Role) {t t' : Ast} : E t t' → ItemAlike E (.part m t) (.part m t')

abbrev ItemsAlike (E : Ast → Ast → Prop) : List Item → List Item → Prop :=
  List.Forall₂ (ItemAlike E)

inductive OpeningAlike (φ : Span → Span) (E : Ast → Ast → Prop) :
    Option Opening → Option Opening → Prop
  | none : OpeningAlike φ E none none
  | some (k : ScopeKind) (f : Option Span) {items items' : List Item} :
    ItemsAlike E items items' →
    OpeningAlike φ E (some ⟨k, f, items⟩) (some ⟨k, f.map φ, items'⟩)

/-- What a node brings, and what one like it brings. -/
structure RuleAlike (φ : Span → Span) (E : Ast → Ast → Prop) (r r' : Rule) : Prop where
  here : ItemsAlike E r.here r'.here
  inner : OpeningAlike φ E r.inner r'.inner

section Alike

variable {φ : Span → Span} {E : Ast → Ast → Prop}

theorem RuleAlike.flat {items' : List Item} (h : ItemsAlike E items items') :
    RuleAlike φ E (.flat items) (.flat items') :=
  ⟨h, .none⟩

theorem RuleAlike.opens {outside outside' items' : List Item} {k : ScopeKind}
    (ho : ItemsAlike E outside outside') (h : ItemsAlike E items items') :
    RuleAlike φ E ⟨outside, some ⟨k, none, items⟩⟩ ⟨outside', some ⟨k, none, items'⟩⟩ :=
  ⟨ho, .some k none h⟩

theorem RuleAlike.function {outside outside' items' : List Item} {s' : Span} (hs : s' = φ s)
    (ho : ItemsAlike E outside outside') (h : ItemsAlike E items items') :
    RuleAlike φ E (.function outside s items) (.function outside' s' items') := by
  subst hs
  exact ⟨ho, .some .function (some s) h⟩

/-- Items without parts are like themselves. -/
theorem itemsAlike_refl (h : ∀ m u, .part m u ∉ items) :
    ItemsAlike E items items := by
  induction items with
  | nil => exact .nil
  | cons i is ih =>
    refine .cons ?_ (ih fun m u hu => h m u (List.mem_cons_of_mem _ hu))
    cases i with
    | mention n => exact .mention n
    | declare n k => exact .declare n k
    | part m u => exact absurd List.mem_cons_self (h m u)

theorem itemsAlike_declareEach (k : BindingKind) (names : List String) :
    ItemsAlike E (Item.declareEach k names) (Item.declareEach k names) :=
  itemsAlike_refl (by simp)

theorem itemsAlike_parts (m : Role) {ts ts' : List Ast} (h : List.Forall₂ E ts ts') :
    ItemsAlike E (Item.parts m ts) (Item.parts m ts') := by
  induction h with
  | nil => exact .nil
  | cons h _ ih => exact .cons (.part m h) ih

theorem itemsAlike_flatMap {f : Ast → List Item}
    (hf : ∀ {t t' : Ast}, E t t' → ItemsAlike E (f t) (f t')) {ts ts' : List Ast}
    (h : List.Forall₂ E ts ts') : ItemsAlike E (ts.flatMap f) (ts'.flatMap f) := by
  induction h with
  | nil => exact .nil
  | cons h _ ih =>
    rw [List.flatMap_cons, List.flatMap_cons]
    exact List.rel_append (hf h) ih

theorem identName?_eq_some {n : String} :
    t.identName? = some n ↔ ∃ s cs, t = .node (.ident n) s cs := by
  constructor
  · intro h
    unfold Ast.identName? at h
    split at h
    · cases h
      exact ⟨_, _, rfl⟩
    · cases h
  · rintro ⟨s, cs, rfl⟩
    rfl

end Alike

namespace Likeness

variable {φ : Span → Span} {E : Ast → Ast → Prop} (L : Likeness φ E)
include L

/-! ### Names -/

theorem identName?_eq (h : E t t') : t'.identName? = t.identName? := by
  refine Option.ext fun n => ?_
  rw [identName?_eq_some, identName?_eq_some]
  rcases L.node (k := .ident n) h rfl with ⟨s, s', cs, cs', rfl, rfl, -, -⟩ | ⟨ht, ht'⟩
  · exact ⟨fun _ => ⟨_, _, rfl⟩, fun _ => ⟨_, _, rfl⟩⟩
  · exact ⟨fun ⟨s, cs, heq⟩ => absurd heq (ht' s cs), fun ⟨s, cs, heq⟩ => absurd heq (ht s cs)⟩

/-- Related trees are nodes that the rules look for, with related parts, or the rules look for
neither. -/
theorem lookedFor_or (h : E t t') :
    (∃ k s s' cs cs', isLookedFor k = true ∧ t = .node k s cs ∧ t' = .node k s' cs' ∧
      List.Forall₂ E cs cs') ∨
      isLookedForTree t = false ∧ isLookedForTree t' = false := by
  by_cases ht : ∃ k s cs, isLookedFor k = true ∧ (t = .node k s cs ∨ t' = .node k s cs)
  · obtain ⟨k, s, cs, hk, heq⟩ := ht
    rcases L.node (k := k) h hk with ⟨s₁, s₂, cs₁, cs₂, rfl, rfl, -, hcs⟩ | ⟨ht, ht'⟩
    · exact .inl ⟨k, s₁, s₂, cs₁, cs₂, hk, rfl, rfl, hcs⟩
    · rcases heq with heq | heq
      · exact absurd heq (ht s cs)
      · exact absurd heq (ht' s cs)
  · refine .inr ⟨?_, ?_⟩
    · cases t with
      | node k s cs => exact Bool.eq_false_iff.2 fun hk => ht ⟨k, s, cs, hk, .inl rfl⟩
      | _ => rfl
    · cases t' with
      | node k s cs => exact Bool.eq_false_iff.2 fun hk => ht ⟨k, s, cs, hk, .inr rfl⟩
      | _ => rfl

omit L in
theorem boundNamesAll_eq {ts ts' : List Ast} (h : List.Forall₂ E ts ts')
    (ih : ∀ t ∈ ts, ∀ t', E t t' → boundNames t' = boundNames t) :
    boundNamesAll ts' = boundNamesAll ts := by
  induction h with
  | nil => rfl
  | cons h _ ihs =>
    rw [boundNamesAll, boundNamesAll, ih _ List.mem_cons_self _ h,
      ihs fun t ht => ih t (List.mem_cons_of_mem _ ht)]

theorem boundNamesAll_items (h : E t t')
    (ih : ∀ u ∈ t.items, ∀ u', E u u' → boundNames u' = boundNames u) :
    boundNamesAll t'.items = boundNamesAll t.items := by
  rcases L.list h with ⟨ts, ts', rfl, rfl, hts⟩ | ⟨ht, ht'⟩
  · exact boundNamesAll_eq hts ih
  · have hitems {t : Ast} (ht : ∀ ts, t ≠ .list ts) : t.items = [] := by
      unfold Ast.items
      split
      · exact absurd rfl (ht _)
      · rfl
    rw [hitems ht, hitems ht']

theorem boundNames_eq (t : Ast) {t' : Ast} (h : E t t') : boundNames t' = boundNames t := by
  rcases L.lookedFor_or h with ⟨k, s, s', cs, cs', -, rfl, rfl, hcs⟩ | ⟨ht, ht'⟩
  · rcases hcs with _ | ⟨h₁, _ | ⟨h₂, _ | ⟨h₃, hcs⟩⟩⟩
    case cons.cons.nil a a' b b' =>
      have ha := boundNames_eq a h₁
      have hb := boundNames_eq b h₂
      have hn := L.identName?_eq h₁
      have hi := L.boundNamesAll_items h₁ fun u hu u' => boundNames_eq u
      cases hk : isPatternKind k with
      | false => rw [boundNames_eq_nil hk, boundNames_eq_nil hk]
      | true =>
        revert hk
        fun_cases isPatternKind k <;>
          simp [boundNames_bindName, boundNames_arrayPat, boundNames_objectPat, boundNames, ha, hb,
            hi, hn]
    all_goals rw [boundNames_of_length (by simp), boundNames_of_length (by simp)]
  · rw [boundNames_of_not_lookedFor ht, boundNames_of_not_lookedFor ht']
termination_by sizeOf t
decreasing_by
  all_goals subst_vars
  · simp
    omega
  · simp
    omega
  · have := sizeOf_lt_of_mem_items hu
    simp
    omega

/-! ### Tags and imports -/

/-- The first part of a tag stays. -/
theorem ofTagObject_eq (t : Ast) {t' : Ast} (h : E t t') :
    Item.ofTagObject t' = Item.ofTagObject t := by
  rcases L.lookedFor_or h with ⟨k, s, s', cs, cs', -, rfl, rfl, hcs⟩ | ⟨ht, ht'⟩
  · rcases hcs with _ | ⟨h₁, hcs⟩
    · cases k <;> rfl
    · have ih := ofTagObject_eq _ h₁
      cases k <;> simp [Item.ofTagObject, ih]
  · rw [ofTagObject_of_not_lookedFor ht, ofTagObject_of_not_lookedFor ht']
termination_by sizeOf t

theorem ofTag_eq (h : E t t') : Item.ofTag t' = Item.ofTag t := by
  rcases L.lookedFor_or h with ⟨k, s, s', cs, cs', -, rfl, rfl, hcs⟩ | ⟨ht, ht'⟩
  · rcases hcs with _ | ⟨h₁, hcs⟩
    · cases k <;> rfl
    · have ih := L.ofTagObject_eq _ h₁
      cases k <;> simp [Item.ofTag, ih]
  · rw [ofTag_of_not_lookedFor ht, ofTag_of_not_lookedFor ht']

theorem ofImport_eq (h : E t t') : Item.ofImport t' = Item.ofImport t := by
  rcases L.lookedFor_or h with ⟨k, s, s', cs, cs', -, rfl, rfl, hcs⟩ | ⟨ht, ht'⟩
  · rcases hcs with _ | ⟨h₁, hcs⟩
    · cases k <;> simp [Item.ofImport]
    · have ih := L.identName?_eq h₁
      cases k
      case importNamed isType => cases isType <;> simp [Item.ofImport, Item.declareIdent, ih]
      all_goals simp [Item.ofImport, Item.declareIdent, ih]
  · rw [ofImport_of_not_lookedFor ht, ofImport_of_not_lookedFor ht']

theorem imports_eq {ts ts' : List Ast} (h : List.Forall₂ E ts ts') :
    ts'.flatMap Item.ofImport = ts.flatMap Item.ofImport := by
  induction h with
  | nil => rfl
  | cons h _ ih => rw [List.flatMap_cons, List.flatMap_cons, L.ofImport_eq h, ih]

/-! ### Items -/

section Items

variable {t t' : Ast} (h : E t t')
include h

theorem declareIdent (k : BindingKind) :
    ItemsAlike E (Item.declareIdent k t) (Item.declareIdent k t') := by
  unfold Item.declareIdent
  rw [L.identName?_eq h]
  exact itemsAlike_declareEach k _

theorem bound (k : BindingKind) : ItemsAlike E (Item.bound k t) (Item.bound k t') := by
  unfold Item.bound
  rw [L.boundNames_eq t h]
  exact List.rel_append (itemsAlike_declareEach k _) (.cons (.part _ h) .nil)

theorem ofBody : ItemAlike E (Item.ofBody t) (Item.ofBody t') := by
  by_cases ht : ∃ s ss, t = .node .block s ss
  · obtain ⟨s', ss', rfl⟩ := (L.block h).1 ht
    obtain ⟨s, ss, rfl⟩ := ht
    exact .part _ h
  · have ht' := fun h' => ht ((L.block h).2 h')
    rw [ofBody_eq fun s ss heq => ht ⟨s, ss, heq⟩, ofBody_eq fun s ss heq => ht' ⟨s, ss, heq⟩]
    exact .part _ h

theorem ofDeclarator (k : BindingKind) :
    ItemsAlike E (Item.ofDeclarator k t) (Item.ofDeclarator k t') := by
  rcases L.lookedFor_or h with ⟨kind, s, s', cs, cs', -, rfl, rfl, hcs⟩ | ⟨ht, ht'⟩
  · rcases hcs with _ | ⟨h₁, _ | ⟨h₂, _ | ⟨h₃, hcs⟩⟩⟩
    case cons.cons.nil =>
      cases kind
      case declarator => exact List.rel_append (L.bound h₁ k) (.cons (.part _ h₂) .nil)
      all_goals exact .nil
    all_goals (cases kind <;> exact .nil)
  · rw [ofDeclarator_of_not_lookedFor ht, ofDeclarator_of_not_lookedFor ht']
    exact .nil

theorem ofPropertyParam {mods : Modifiers} {s' : Span} {d d' : Ast} :
    ItemsAlike E (Item.ofCtorParam (.node (.paramProp mods) s [d, t]))
      (Item.ofCtorParam (.node (.paramProp mods) s' [d', t'])) := by
  have hb := L.boundNames_eq t h
  rcases L.node (k := .assignPat) h rfl with ⟨s₁, s₂, cs, cs', rfl, rfl, -, hcs⟩ | ⟨ht, ht'⟩
  · rcases hcs with _ | ⟨h₁, _ | ⟨h₂, _ | ⟨h₃, hcs⟩⟩⟩
    case cons.cons.nil =>
      refine List.rel_append ?_ (.cons (.part _ h₂) .nil)
      rw [L.boundNames_eq _ h₁]
      exact itemsAlike_declareEach _ _
    all_goals
      simp only [Item.ofCtorParam, hb]
      exact itemsAlike_declareEach _ _
  · simp only [Item.ofCtorParam, ht, ht', hb, imp_false, not_false_eq_true, implies_true]
    exact itemsAlike_declareEach _ _

theorem ofCtorParam : ItemsAlike E (Item.ofCtorParam t) (Item.ofCtorParam t') := by
  rcases L.lookedFor_or h with ⟨kind, s, s', cs, cs', -, rfl, rfl, hcs⟩ | ⟨ht, ht'⟩
  · rcases hcs with _ | ⟨h₁, _ | ⟨h₂, _ | ⟨h₃, hcs⟩⟩⟩
    case cons.cons.nil =>
      cases kind
      case param => exact L.bound h₂ .param
      case paramProp => exact L.ofPropertyParam h₂
      all_goals exact .nil
    all_goals (cases kind <;> first | exact .nil | simp [Item.ofCtorParam])
  · rw [ofCtorParam_of_not_lookedFor ht, ofCtorParam_of_not_lookedFor ht']
    exact .nil

end Items

theorem function_or (h : E t t') :
    (∃ a g s cs cs', t = .node (.function a g) s cs ∧ t' = .node (.function a g) (φ s) cs' ∧
      List.Forall₂ E cs cs') ∨
      (∀ a g s cs, t ≠ .node (.function a g) s cs) ∧
        ∀ a g s cs, t' ≠ .node (.function a g) s cs := by
  by_cases ht : ∃ a g s cs, t = .node (.function a g) s cs ∨ t' = .node (.function a g) s cs
  · obtain ⟨a, g, s, cs, heq⟩ := ht
    rcases L.node (k := .function a g) h rfl with ⟨s₁, s₂, cs₁, cs₂, rfl, rfl, hs, hcs⟩ | ⟨ht, ht'⟩
    · obtain rfl := hs rfl
      exact .inl ⟨a, g, s₁, cs₁, cs₂, rfl, rfl, hcs⟩
    · rcases heq with heq | heq
      · exact absurd heq (ht s cs)
      · exact absurd heq (ht' s cs)
  · exact .inr ⟨fun a g s cs heq => ht ⟨a, g, s, cs, .inl heq⟩,
      fun a g s cs heq => ht ⟨a, g, s, cs, .inr heq⟩⟩

/-! ### Rules -/

section Rules

variable {k : Kind} {s s' : Span} {cs cs' : List Ast} (h : List.Forall₂ E cs cs')
include h

omit h in
theorem rule_pair (naming : Naming) (hk : hasPairRule k = true) {a b a' b' : Ast} (ha : E a a')
    (hb : E b b') :
    RuleAlike φ E (plainRule naming (.node k s [a, b])) (plainRule naming (.node k s' [a', b'])) := by
  have first (m : Role) : ItemsAlike E [.part m a] [.part m a'] := .cons (.part m ha) .nil
  have second (m : Role) : ItemsAlike E [.part m b] [.part m b'] := .cons (.part m hb) .nil
  have both (m m' : Role) : ItemsAlike E [.part m a, .part m' b] [.part m a', .part m' b'] :=
    .cons (.part m ha) (second m')
  revert hk
  fun_cases hasPairRule k
  all_goals simp only [plainRule, Bool.false_eq_true, IsEmpty.forall_iff, forall_const]
  case case1 | case2 | case3 => exact .flat (first _)
  case case4 | case5 | case6 => exact .flat (both _ _)
  case case8 => exact .flat (List.rel_append (first _) (L.bound hb _))
  case case9 => exact .opens .nil (List.rel_append (L.bound ha _) (second _))
  case case10 => exact .opens (first _) (second _)
  case case7 | case11 => exact .flat (List.rel_append (L.declareIdent ha _) (second _))
  case case12 =>
    rw [L.present ha]
    split
    · exact .opens .nil (List.rel_append (L.declareIdent ha _) (second _))
    · exact .flat (second _)
  case case13 => exact .flat (second _)

theorem rule_function (naming : Naming) (a g : Bool) (hs : s' = φ s) :
    RuleAlike φ E (plainRule naming (.node (.function a g) s cs))
      (plainRule naming (.node (.function a g) s' cs')) := by
  have hflat : RuleAlike φ E _ _ := .flat (itemsAlike_parts .refers h)
  rcases h with _ | ⟨h₁, _ | ⟨h₂, _ | ⟨h₃, h⟩⟩⟩
  case cons.cons.cons =>
    exact .function hs (.cons (.part _ h₂) .nil) (.cons (.part _ h₁) (.cons (L.ofBody h₃) .nil))
  all_goals exact hflat

theorem rule_constructor (naming : Naming) (a : Option Access) (o : Bool) (hs : s' = φ s) :
    RuleAlike φ E (plainRule naming (.node (.constructor a o) s cs))
      (plainRule naming (.node (.constructor a o) s' cs')) := by
  have hflat : RuleAlike φ E _ _ := .flat (itemsAlike_parts .refers h)
  rcases h with _ | ⟨h₁, _ | ⟨h₂, _ | ⟨h₃, _ | ⟨h₄, h⟩⟩⟩⟩
  case cons.cons.cons.nil =>
    rcases L.list h₂ with ⟨ts, ts', rfl, rfl, hts⟩ | ⟨ht, ht'⟩
    · exact .function hs (.cons (.part _ h₁) .nil)
        (List.rel_append (itemsAlike_flatMap (fun h => L.ofCtorParam h) hts)
          (.cons (L.ofBody h₃) .nil))
    · simpa [plainRule, isTypeKind, ht, ht'] using hflat
  all_goals simpa [plainRule, isTypeKind] using hflat

theorem rule_arrow (naming : Naming) (a : Bool) (hs : s' = φ s) :
    RuleAlike φ E (plainRule naming (.node (.arrow a) s cs))
      (plainRule naming (.node (.arrow a) s' cs')) := by
  have hflat : RuleAlike φ E _ _ := .flat (itemsAlike_parts .refers h)
  rcases h with _ | ⟨h₁, _ | ⟨h₂, h⟩⟩
  case cons.cons =>
    rcases L.list h₁ with ⟨ts, ts', rfl, rfl, hts⟩ | ⟨ht, ht'⟩
    · exact .function hs .nil
        (List.rel_append (itemsAlike_flatMap (fun h => L.bound h _) hts) (.cons (L.ofBody h₂) .nil))
    · simpa [plainRule, isTypeKind, ht, ht'] using hflat
  all_goals simpa [plainRule, isTypeKind] using hflat

theorem rule_getter (naming : Naming) (hs : s' = φ s) :
    RuleAlike φ E (plainRule naming (.node .getter s cs)) (plainRule naming (.node .getter s' cs')) := by
  have hflat : RuleAlike φ E _ _ := .flat (itemsAlike_parts .refers h)
  rcases h with _ | ⟨h₁, _ | ⟨h₂, _ | ⟨h₃, _ | ⟨h₄, h⟩⟩⟩⟩
  case cons.cons.cons.nil =>
    exact .function hs (.cons (.part _ h₁) .nil) (.cons (L.ofBody h₃) .nil)
  all_goals exact hflat

theorem rule_setter (naming : Naming) (hs : s' = φ s) :
    RuleAlike φ E (plainRule naming (.node .setter s cs)) (plainRule naming (.node .setter s' cs')) := by
  have hflat : RuleAlike φ E _ _ := .flat (itemsAlike_parts .refers h)
  rcases h with _ | ⟨h₁, _ | ⟨h₂, _ | ⟨h₃, _ | ⟨h₄, _ | ⟨h₅, h⟩⟩⟩⟩⟩
  case cons.cons.cons.cons.nil =>
    exact .function hs (.cons (.part _ h₁) .nil)
      (List.rel_append (L.bound h₃ _) (.cons (L.ofBody h₄) .nil))
  all_goals exact hflat

theorem rule_importDecl (naming : Naming) (isType : Bool) :
    RuleAlike φ E (plainRule naming (.node (.importDecl isType) s cs))
      (plainRule naming (.node (.importDecl isType) s' cs')) := by
  have hflat : RuleAlike φ E _ _ := .flat (itemsAlike_parts .refers h)
  rcases h with _ | ⟨h₁, h⟩
  case cons =>
    rcases L.list h₁ with ⟨ts, ts', rfl, rfl, hts⟩ | ⟨ht, ht'⟩
    · simp only [plainRule, L.imports_eq hts]
      split
      · exact .flat .nil
      · exact .flat (itemsAlike_refl (by simp))
    · simpa [plainRule, isTypeKind, ht, ht'] using hflat
  all_goals simpa [plainRule, isTypeKind] using hflat

theorem rule_funcExpr (naming : Naming) :
    RuleAlike φ E (plainRule naming (.node .funcExpr s cs))
      (plainRule naming (.node .funcExpr s' cs')) := by
  have hflat : RuleAlike φ E _ _ := .flat (itemsAlike_parts .refers h)
  rcases h with _ | ⟨h₁, _ | ⟨h₂, _ | ⟨h₃, h⟩⟩⟩
  case cons.cons.nil =>
    rcases L.function_or h₂ with ⟨a, g, fs, cs, cs', rfl, rfl, hcs⟩ | ⟨ht, ht'⟩
    · rcases hcs with _ | ⟨h₃, _ | ⟨h₄, _ | ⟨h₅, h⟩⟩⟩
      case cons.cons.cons =>
        exact .function rfl (.cons (.part _ h₄) .nil)
          (List.rel_append (L.declareIdent h₁ _) (.cons (.part _ h₃) (.cons (L.ofBody h₅) .nil)))
      all_goals simpa [plainRule, isTypeKind] using hflat
    · simpa [plainRule, isTypeKind, ht, ht'] using hflat
  all_goals simpa [plainRule, isTypeKind] using hflat

theorem rule_exportDefaultDecl (naming : Naming)
    (hd : ∀ t t', cs = [t] → cs' = [t'] → DefaultsAlike E t t') :
    RuleAlike φ E (plainRule naming (.node .exportDefaultDecl s cs))
      (plainRule naming (.node .exportDefaultDecl s' cs')) := by
  have hflat : RuleAlike φ E _ _ := .flat (itemsAlike_parts .refers h)
  rcases h with _ | ⟨h₁, _ | ⟨h₂, h⟩⟩
  case cons.nil t t' =>
    rcases hd t t' rfl rfl with ⟨fs, fs', cs, cs', rfl, rfl, hcs⟩ | ⟨hf, hf'⟩
    · rcases hcs with _ | ⟨h₂, _ | ⟨h₃, _ | ⟨h₄, h⟩⟩⟩
      case cons.cons.nil =>
        exact .flat (List.rel_append (L.declareIdent h₂ _) (.cons (.part _ h₃) .nil))
      all_goals simpa [plainRule, isTypeKind] using hflat
    · rcases L.node (k := .classExpr) h₁ rfl with ⟨s₁, s₂, cs, cs', rfl, rfl, -, hcs⟩ | ⟨ht, ht'⟩
      · rcases hcs with _ | ⟨h₂, _ | ⟨h₃, _ | ⟨h₄, h⟩⟩⟩
        case cons.cons.nil =>
          exact .flat (List.rel_append (L.declareIdent h₂ _) (.cons (.part _ h₃) .nil))
        all_goals simpa [plainRule, isTypeKind] using hflat
      · simpa [plainRule, isTypeKind, hf, hf', ht, ht'] using hflat
  all_goals simpa [plainRule, isTypeKind] using hflat

/-- What a node brings, its children being related to those of another. -/
theorem rule_node (naming : Naming) (hs : opensFunction k = true → s' = φ s)
    (hd : k = .exportDefaultDecl → ∀ t t', cs = [t] → cs' = [t'] → DefaultsAlike E t t') :
    RuleAlike φ E (plainRule naming (.node k s cs)) (plainRule naming (.node k s' cs')) := by
  by_cases hk : hasOwnRule k = false
  · rw [plainRule_eq_parts hk, plainRule_eq_parts hk]
    split
    · exact .flat .nil
    · exact .flat (itemsAlike_parts .refers h)
  by_cases hp : hasPairRule k = true
  · by_cases hl : cs.length = 2
    · rcases h with _ | ⟨h₁, _ | ⟨h₂, _ | ⟨h₃, h⟩⟩⟩
      case cons.cons.nil => exact L.rule_pair naming hp h₁ h₂
      all_goals simp at hl
    · rw [plainRule_pair_eq_parts hp hl, plainRule_pair_eq_parts hp (h.length_eq ▸ hl)]
      exact .flat (itemsAlike_parts .refers h)
  revert hk hp
  fun_cases hasOwnRule k
  all_goals simp only [hasPairRule, not_true_eq_false, IsEmpty.forall_iff, implies_true,
    Bool.true_eq_false, not_false_eq_true, Bool.false_eq_true, forall_const]
  case case1 => exact .flat (.cons (.mention _) .nil)
  case case2 =>
    simp only [plainRule]
    split
    · exact .flat .nil
    · exact .flat (itemsAlike_parts .refers h)
  case case9 => exact L.rule_importDecl h naming _
  case case10 => exact L.rule_exportDefaultDecl h naming (hd rfl)
  case case12 => exact L.rule_funcExpr h naming
  case case13 => exact L.rule_function h naming _ _ (hs rfl)
  case case15 => exact L.rule_constructor h naming _ _ (hs rfl)
  case case16 => exact L.rule_arrow h naming _ (hs rfl)
  case case17 => exact L.rule_getter h naming (hs rfl)
  case case18 => exact L.rule_setter h naming (hs rfl)
  case case19 | case21 | case22 | case23 => exact .opens .nil (itemsAlike_parts .refers h)
  case case25 => exact .flat (itemsAlike_flatMap (fun h => L.ofDeclarator h _) h)
  case case29 | case30 => exact .flat .nil
  case case31 =>
    rcases h with _ | ⟨h₁, h⟩
    · exact .flat .nil
    · simp only [plainRule, L.ofTag_eq h₁]
      exact .flat (List.rel_append (itemsAlike_refl (by simp)) (itemsAlike_parts .refers h))
  case case32 =>
    rcases h with _ | ⟨h₁, h⟩
    · exact .flat .nil
    · simp only [plainRule, L.ofTag_eq h₁]
      exact .flat (itemsAlike_refl (by simp))
  case case33 =>
    rcases h with _ | ⟨h₁, h⟩
    · exact .flat .nil
    · exact .flat (L.declareIdent h₁ _)

omit L h in
theorem plainRuleAs_body (ht : ∀ s ss, t ≠ .node .block s ss) :
    plainRuleAs .body t = plainRule .refers t := by
  cases t with
  | absent => rfl
  | list ts => rfl
  | node k s cs => simp [plainRuleAs]

/-- **Nodes with related children bring related parts.** -/
theorem rule (m : Role) (hs : opensFunction k = true → s' = φ s)
    (hd : k = .exportDefaultDecl → ∀ t t', cs = [t] → cs' = [t'] → DefaultsAlike E t t') :
    RuleAlike φ E (plain.rule m (.node k s cs)) (plain.rule m (.node k s' cs')) := by
  cases m with
  | refers => exact L.rule_node h .refers hs hd
  | binds => exact L.rule_node h .binds hs hd
  | body =>
    by_cases hk : k = .block
    · subst hk
      exact .flat (itemsAlike_parts .refers h)
    · change RuleAlike _ _ (plainRuleAs .body _) (plainRuleAs .body _)
      rw [plainRuleAs_body (by simp [hk]), plainRuleAs_body (by simp [hk])]
      exact L.rule_node h .refers hs hd

omit L in
theorem rule_list (m : Role) :
    RuleAlike φ E (plain.rule m (.list cs)) (plain.rule m (.list cs')) := by
  cases m <;> exact .flat (itemsAlike_parts _ h)

end Rules

end Likeness

/-! ### Outlines -/

/-- A relation between facts that goes over from the parts to the whole. -/
structure Congruent (φ : Span → Span) (R : List Outline → List Outline → Prop) : Prop where
  nil : R [] []
  append : ∀ {a a' b b' : List Outline}, R a a' → R b b' → R (a ++ b) (a' ++ b')
  mention : ∀ n, R [.reference n] [.reference n]
  declare : ∀ n k, R [.declare n k] [.declare n k]
  scope : ∀ k f {a a' : List Outline}, R a a' → R [.scope k f a] [.scope k (f.map φ) a']

section Outlines

variable {φ : Span → Span} {E : Ast → Ast → Prop} {R : List Outline → List Outline → Prop}

theorem ItemsAlike.outlines (C : Congruent φ R) {items' : List Item} (h : ItemsAlike E items items')
    (ih : ∀ m u, .part m u ∈ items → ∀ u', E u u' → R (outlineIn m u) (outlineIn m u')) :
    R (items.flatMap outlineOf) (items'.flatMap outlineOf) := by
  induction h with
  | nil => exact C.nil
  | @cons i i' is is' hi _ hrec =>
    rw [List.flatMap_cons, List.flatMap_cons]
    refine C.append ?_ (hrec fun m u hu => ih m u (List.mem_cons_of_mem _ hu))
    cases hi with
    | mention n => exact C.mention n
    | declare n k => exact C.declare n k
    | part m h => exact ih m _ List.mem_cons_self _ h

/-- **The outlines of two trees are related if those of their parts are.** -/
theorem RuleAlike.outlines (C : Congruent φ R) {m : Role} {t t' : Ast}
    (h : RuleAlike φ E (plain.rule m t) (plain.rule m t'))
    (ih : ∀ m' u, .part m' u ∈ (plain.rule m t).here ++ (plain.rule m t).inside → ∀ u', E u u' →
      R (outlineIn m' u) (outlineIn m' u')) :
    R (outlineIn m t) (outlineIn m t') := by
  rw [← outlineBy_plain, ← outlineBy_plain]
  generalize plain.rule m t = r at h ih ⊢
  generalize plain.rule m t' = r' at h ⊢
  obtain ⟨hhere, hinner⟩ := h
  unfold outlineBy
  refine C.append (hhere.outlines C fun m u hu => ih m u (List.mem_append_left _ hu)) ?_
  obtain ⟨here, inner⟩ := r
  obtain ⟨here', inner'⟩ := r'
  cases hinner with
  | none => exact C.nil
  | some k f h =>
    exact C.scope k f (h.outlines C fun m u hu => ih m u (List.mem_append_right _ hu))

end Outlines

end Worklet
