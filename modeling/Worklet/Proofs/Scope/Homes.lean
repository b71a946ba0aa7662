import Worklet.Proofs.Scope.Places

/-!
# Where declarations stand

Parameters are declared in functions, imports in modules and caught values in `catch` clauses. That they are is
a matter of syntax: a parameter stands among those of a function, and an import among the items of a module.

Principal result: `homely_outline` — the facts about a module do, if the module is seated.
-/

set_option autoImplicit false

namespace Worklet

open Syntax Outline Scoping Item Rule

/-! ### Seats -/

/-- What a place in a tree is. -/
inductive Seat where
  /-- The whole program. -/
  | program
  /-- Among the items of a module or a namespace. -/
  | items
  /-- Among the parameters of a function or a constructor. -/
  | params
  /-- In a namespace, beside its name. -/
  | space
  | other
  deriving DecidableEq, Repr

namespace Seat

/-- A node of the kind may stand at the place. -/
def admits (seat : Seat) : Kind → Bool
  | .module _ => seat == .program
  | .importDecl _ => seat == .items
  | .param => seat == .params
  | .moduleBlock | .nestedNamespace => seat == .space
  | _ => true

/-- The place of the part at an index. -/
def ofPart : Kind → Nat → Seat
  | .module _, _ => .items
  | .moduleBlock, _ => .items
  | .function .., 0 => .params
  | .constructor .., 1 => .params
  | .namespaceDecl .., 1 => .space
  | .nestedNamespace, 1 => .space
  | _, _ => .other

end Seat

/-- Functions and constructors have their parts. -/
def hasParts : Kind → List Ast → Bool
  | .function .., _ :: _ :: _ :: _ => true
  | .function .., _ => false
  | .constructor .., [_, .list _, _] => true
  | .constructor .., _ => false
  | _, _ => true

mutual

/-- Every node of the tree stands where it may. -/
def isSeated (seat : Seat) : Ast → Bool
  | .absent => true
  | .list ts => areSeated (fun _ => seat) 0 ts
  | .node k _ cs => seat.admits k && hasParts k cs && areSeated (Seat.ofPart k) 0 cs

/-- Every node of the trees stands where it may; the first tree has the given index. -/
def areSeated (seats : Nat → Seat) (i : Nat) : List Ast → Bool
  | [] => true
  | t :: ts => isSeated (seats i) t && areSeated seats (i + 1) ts

end

variable {ts cs : List Ast} {items outside : List Item} {k : Kind} {s : Span} {scope' : ScopeKind}

theorem areSeated_iff {seats : Nat → Seat} : ∀ {i : Nat},
    areSeated seats i ts = true ↔ ∀ j t, ts[j]? = some t → isSeated (seats (i + j)) t = true := by
  induction ts with
  | nil => simp [areSeated]
  | cons t ts ih =>
    intro i
    rw [areSeated, Bool.and_eq_true, ih]
    constructor
    · rintro ⟨h, hs⟩ j u hj
      cases j with
      | zero =>
        cases hj
        exact h
      | succ j =>
        have := hs j u hj
        rwa [Nat.add_right_comm] at this
    · intro h
      refine ⟨h 0 t rfl, fun j u hj => ?_⟩
      have := h (j + 1) u hj
      rwa [← Nat.add_assoc, Nat.add_right_comm] at this

/-! ### Homes -/

/-- Declarations of the kind are at home in scopes of the kind. What is known of syntax decides about parameters
and imports. -/
structure IsHome (seated : Bool) (scope : ScopeKind) (kind : BindingKind) : Prop where
  caught : kind = .catchParam → scope = .catch
  param : seated = true → kind = .param → scope = .function
  imported : seated = true → kind = .import → scope = .module

mutual

/-- The fact declares in scopes of the kinds that its declarations need, opens no module, and only the scopes of
functions belong to functions. -/
def Outline.Homely (seated : Bool) (scope : ScopeKind) : Outline → Prop
  | .reference _ => True
  | .declare _ kind => IsHome seated scope kind
  | .scope kind function body =>
    kind ≠ .module ∧ (function.isSome = true → kind = .function) ∧ Outline.AllHomely seated kind body

/-- The facts declare in scopes of the kinds that their declarations need. -/
def Outline.AllHomely (seated : Bool) (scope : ScopeKind) : List Outline → Prop
  | [] => True
  | o :: os => Outline.Homely seated scope o ∧ Outline.AllHomely seated scope os

end

theorem allHomely_iff {seated : Bool} {scope : ScopeKind} {os : List Outline} :
    AllHomely seated scope os ↔ ∀ o ∈ os, Homely seated scope o := by
  induction os with
  | nil => simp [AllHomely]
  | cons o os ih => simp [AllHomely, ih]

/-- A tree at the place is read in a scope of the kind. -/
def Seat.Fits : Seat → ScopeKind → Prop
  | .program, k => k = .module
  | .items, k => k = .module
  | .params, k => k = .function
  | .space, _ => False
  | .other, _ => True

/-- What is known of the place of a tree that is read in a scope of the kind. -/
def SeatedIn (seated : Bool) (scope : ScopeKind) (t : Ast) : Prop :=
  seated = true → ∃ seat : Seat, seat.Fits scope ∧ isSeated seat t = true

/-- What an item declares is at home in the scope, and its trees are seated there. -/
def Item.Fits (seated : Bool) (scope : ScopeKind) : Item → Prop
  | .mention _ => True
  | .declare _ kind => IsHome seated scope kind
  | .part _ t => SeatedIn seated scope t

/-- What a rule brings fits the scope where it stands and the one that it opens. -/
structure Rule.FitsIn (seated : Bool) (scope : ScopeKind) (r : Rule) : Prop where
  here : ∀ i ∈ r.here, i.Fits seated scope
  opening : ∀ o, r.inner = some o → o.kind ≠ .module ∧ (o.function.isSome = true → o.kind = .function) ∧
    ∀ i ∈ o.items, i.Fits seated o.kind

variable {t : Ast} {kind : BindingKind}

section Steps

variable {seated : Bool} {scope : ScopeKind}

theorem Rule.FitsIn.flat (h : ∀ i ∈ items, i.Fits seated scope) :
    (Rule.flat items).FitsIn seated scope :=
  ⟨h, nofun⟩

theorem Rule.FitsIn.block (h : ∀ i ∈ outside, i.Fits seated scope)
    (hitems : ∀ i ∈ items, i.Fits seated .block) : (Rule.block outside items).FitsIn seated scope :=
  ⟨h, by rintro o ⟨⟩; exact ⟨nofun, nofun, hitems⟩⟩

theorem Rule.FitsIn.function {span : Span} (h : ∀ i ∈ outside, i.Fits seated scope)
    (hitems : ∀ i ∈ items, i.Fits seated .function) :
    (Rule.function outside span items).FitsIn seated scope :=
  ⟨h, by rintro o ⟨⟩; exact ⟨nofun, fun _ => rfl, hitems⟩⟩

/-- The part at an index is seated, in scopes that its place fits. -/
theorem SeatedIn.part (h : SeatedIn seated scope (.node k s cs)) (i : Nat) {c : Ast}
    (hc : cs[i]? = some c) (hfits : (Seat.ofPart k i).Fits scope') : SeatedIn seated scope' c := by
  intro hs
  obtain ⟨seat, -, hseat⟩ := h hs
  simp only [isSeated, Bool.and_eq_true] at hseat
  have hpart := areSeated_iff.1 hseat.2 i c hc
  rw [Nat.zero_add] at hpart
  exact ⟨_, hfits, hpart⟩

theorem SeatedIn.member (h : SeatedIn seated scope (.list ts)) (ht : t ∈ ts) :
    SeatedIn seated scope t := by
  intro hs
  obtain ⟨seat, hfits, hseat⟩ := h hs
  obtain ⟨j, hj⟩ := List.mem_iff_getElem?.1 ht
  rw [isSeated] at hseat
  exact ⟨seat, hfits, areSeated_iff.1 hseat j t hj⟩

/-- Parts of a node that stands for no other place. -/
theorem SeatedIn.parts (h : SeatedIn seated scope (.node k s cs))
    (hfits : ∀ i, (Seat.ofPart k i).Fits scope') :
    ∀ c ∈ cs, SeatedIn seated scope' c := by
  intro c hc
  obtain ⟨i, hi⟩ := List.mem_iff_getElem?.1 hc
  exact h.part i hi (hfits i)

theorem fits_parts {m : Role} (h : ∀ t ∈ ts, SeatedIn seated scope t) :
    ∀ i ∈ Item.parts m ts, i.Fits seated scope := by
  intro i hi
  obtain ⟨t, ht, rfl⟩ := List.mem_map.1 hi
  exact h t ht

theorem fits_declareEach {names : List String} (h : IsHome seated scope kind) :
    ∀ i ∈ declareEach kind names, i.Fits seated scope := by
  intro i hi
  obtain ⟨n, -, rfl⟩ := List.mem_map.1 hi
  exact h

theorem fits_bound {p : Ast} (h : IsHome seated scope kind) (hp : SeatedIn seated scope p) :
    ∀ i ∈ bound kind p, i.Fits seated scope := by
  rw [bound]
  simp only [List.forall_mem_append, List.forall_mem_singleton]
  exact ⟨fits_declareEach h, hp⟩

theorem fits_ofBody (h : SeatedIn seated scope t) : (ofBody t).Fits seated scope := by
  fun_cases ofBody t <;> exact h

theorem isHome_param : IsHome seated .function .param :=
  ⟨nofun, fun _ _ => rfl, nofun⟩

theorem fits_ofCtorParam (h : SeatedIn seated .function t) :
    ∀ i ∈ ofCtorParam t, i.Fits seated .function := by
  fun_cases ofCtorParam t with
  | case1 s d p => exact fits_bound isHome_param (h.part 1 rfl trivial)
  | case2 mods s d s' p v =>
    have hpattern : SeatedIn seated .function (.node .assignPat s' [p, v]) := h.part 1 rfl trivial
    simp only [List.forall_mem_append, List.forall_mem_singleton]
    exact ⟨fits_declareEach isHome_param, hpattern.part 1 rfl trivial⟩
  | case3 => exact fits_declareEach isHome_param
  | case4 => simp

theorem fits_ofDeclarator {kind : VarKind} (h : SeatedIn seated scope t) :
    ∀ i ∈ ofDeclarator (varBinding kind) t, i.Fits seated scope := by
  have hhome : IsHome seated scope (varBinding kind) := by
    cases kind <;> constructor <;> simp [varBinding]
  fun_cases ofDeclarator (varBinding kind) t with
  | case1 d s p v =>
    simp only [List.forall_mem_append, List.forall_mem_singleton]
    exact ⟨fits_bound hhome (h.part 0 rfl trivial), h.part 1 rfl trivial⟩
  | case2 => simp

theorem fits_ofImport (h : IsHome seated scope .import) :
    ∀ i ∈ ofImport t, i.Fits seated scope := by
  fun_cases ofImport t
  case case4 => simp
  all_goals exact fits_declareEach h

theorem fits_ofTag : ∀ i ∈ ofTag t, i.Fits seated scope := by
  have hobject : ∀ t, ∀ i ∈ ofTagObject t, i.Fits seated scope := by
    intro t
    fun_induction ofTagObject t with
    | case1 => simp [Item.Fits]
    | case2 _ _ _ ih => exact ih
    | case3 => simp
  fun_cases ofTag t with
  | case1 => simp [Item.Fits]
  | case2 => simp
  | case3 => exact hobject _
  | case4 => simp

theorem fits_ofPart_of_default (h : SeatedIn seated scope (.node k s cs))
    (htype : isTypeKind k = false)
    (hfunction : ∀ a g params decorators body rest,
      k = .function a g → cs ≠ params :: decorators :: body :: rest)
    (hctor : ∀ a o key params body, k = .constructor a o → cs ≠ [key, .list params, body]) :
    ∀ c ∈ cs, SeatedIn seated scope c := by
  intro c hc hs
  obtain ⟨seat, hfits, hseat⟩ := h hs
  have hparts : hasParts k cs = true := by
    simp only [isSeated, Bool.and_eq_true] at hseat
    exact hseat.1.2
  have hadmits : seat.admits k = true := by
    simp only [isSeated, Bool.and_eq_true] at hseat
    exact hseat.1.1
  refine h.parts (fun i => ?_) c hc hs
  fun_cases Seat.ofPart k i with
  | case1 =>
    obtain rfl : seat = .program := by simpa [Seat.admits] using hadmits
    exact hfits
  | case2 =>
    obtain rfl : seat = .space := by simpa [Seat.admits] using hadmits
    exact hfits.elim
  | case3 a g =>
    rcases cs with _ | ⟨_, _ | ⟨_, _ | ⟨_, _⟩⟩⟩
    case cons.cons.cons => exact (hfunction a g _ _ _ _ rfl rfl).elim
    all_goals cases hparts
  | case4 a o =>
    rcases cs with _ | ⟨_, _ | ⟨params, _ | ⟨_, _ | ⟨_, _⟩⟩⟩⟩
    case cons.cons.cons.nil =>
      cases params with
      | list => exact (hctor a o _ _ _ rfl rfl).elim
      | _ => cases hparts
    all_goals simp [hasParts] at hparts
  | case5 => cases htype
  | case6 =>
    obtain rfl : seat = .space := by simpa [Seat.admits] using hadmits
    exact hfits.elim
  | case7 => trivial

/-- A declaration that is at home in every scope. -/
theorem isHome_anywhere (h : kind ∉ [.catchParam, .param, .import]) :
    IsHome seated scope kind := by
  simp only [List.mem_cons, List.not_mem_nil, or_false, not_or] at h
  exact ⟨fun hk => (h.1 hk).elim, fun _ hk => (h.2.1 hk).elim, fun _ hk => (h.2.2 hk).elim⟩

theorem fits_declareIdent (name : Ast) (h : kind ∉ [.catchParam, .param, .import]) :
    ∀ i ∈ declareIdent kind name, i.Fits seated scope :=
  fits_declareEach (isHome_anywhere h)

/-! ### What one node brings -/

theorem fits_part {m : Role} (h : SeatedIn seated scope t) :
    ∀ i ∈ [Item.part m t], i.Fits seated scope :=
  List.forall_mem_singleton.2 h

theorem fits_append {is is' : List Item} (h : ∀ i ∈ is, i.Fits seated scope)
    (h' : ∀ i ∈ is', i.Fits seated scope) : ∀ i ∈ is ++ is', i.Fits seated scope :=
  List.forall_mem_append.2 ⟨h, h'⟩

theorem fits_flatMap {ofPart : Ast → List Item}
    (h : ∀ t ∈ ts, ∀ i ∈ ofPart t, i.Fits seated scope) :
    ∀ i ∈ ts.flatMap ofPart, i.Fits seated scope := by
  intro i hi
  obtain ⟨t, ht, hi⟩ := List.mem_flatMap.1 hi
  exact h t ht i hi

/-- A declared name, and what it names. -/
theorem fits_named {m : Role} (name : Ast) (hkind : kind ∉ [.catchParam, .param, .import])
    (h : SeatedIn seated scope t) :
    ∀ i ∈ declareIdent kind name ++ [.part m t], i.Fits seated scope :=
  fits_append (fits_declareIdent name hkind) (fits_part h)

theorem fits_pair {m m' : Role} {a b : Ast} (h : SeatedIn seated scope (.node k s [a, b]))
    (ha : (Seat.ofPart k 0).Fits scope) (hb : (Seat.ofPart k 1).Fits scope) :
    ∀ i ∈ [Item.part m a, .part m' b], i.Fits seated scope :=
  List.forall_mem_cons.2 ⟨h.part 0 rfl ha, fits_part (h.part 1 rfl hb)⟩

/-- Parameters, whatever each brings, and the body. -/
theorem fits_paramsBody {params : List Item} (hparams : ∀ i ∈ params, i.Fits seated scope)
    (h : SeatedIn seated scope t) : ∀ i ∈ params ++ [ofBody t], i.Fits seated scope :=
  fits_append hparams (List.forall_mem_singleton.2 (fits_ofBody h))

theorem isHome_import {isType : Bool} (h : SeatedIn seated scope (.node (.importDecl isType) s cs)) :
    IsHome seated scope .import := by
  refine ⟨by simp, by simp, fun hs _ => ?_⟩
  obtain ⟨seat, hfits, hseat⟩ := h hs
  simp only [isSeated, Bool.and_eq_true] at hseat
  obtain rfl : seat = .items := by simpa [Seat.admits] using hseat.1.1
  exact hfits

theorem isHome_param_of_seated (h : SeatedIn seated scope (.node .param s cs)) :
    IsHome seated scope .param := by
  refine ⟨by simp, fun hs _ => ?_, by simp⟩
  obtain ⟨seat, hfits, hseat⟩ := h hs
  simp only [isSeated, Bool.and_eq_true] at hseat
  obtain rfl : seat = .params := by simpa [Seat.admits] using hseat.1.1
  exact hfits

/-- What a function brings, whether or not its own scope declares its name. -/
theorem fitsIn_function {async generator : Bool} {span : Span} {params decorators body : Ast}
    {rest : List Ast} (own : List Item)
    (h : SeatedIn seated scope
      (.node (.function async generator) s (params :: decorators :: body :: rest)))
    (hown : ∀ i ∈ own, i.Fits seated .function) :
    (Rule.function [.part .refers decorators] span
      (own ++ ([.part .refers params] ++ [ofBody body]))).FitsIn seated scope :=
  .function (fits_part (h.part 1 rfl trivial))
    (fits_append hown (fits_paramsBody (fits_part (h.part 0 rfl rfl)) (h.part 2 rfl trivial)))

theorem fitsIn_constructor {access : Option Access} {optional : Bool} {span : Span}
    {key body : Ast} {params : List Ast}
    (h : SeatedIn seated scope (.node (.constructor access optional) s [key, .list params, body])) :
    (Rule.function [.part .refers key] span
      (params.flatMap ofCtorParam ++ [ofBody body])).FitsIn seated scope := by
  have hparams : SeatedIn seated .function (.list params) := h.part 1 rfl rfl
  refine .function (fits_part (h.part 0 rfl trivial)) (fits_paramsBody ?_ (h.part 2 rfl trivial))
  exact fits_flatMap fun _ hp => fits_ofCtorParam (hparams.member hp)

theorem fitsIn_arrow {async : Bool} {span : Span} {body : Ast} {params rest : List Ast}
    (h : SeatedIn seated scope (.node (.arrow async) s (.list params :: body :: rest))) :
    (Rule.function [] span
      (params.flatMap (bound .param) ++ [ofBody body])).FitsIn seated scope := by
  have hparams : SeatedIn seated .function (.list params) := h.part 0 rfl trivial
  refine .function (by simp) (fits_paramsBody ?_ (h.part 1 rfl trivial))
  exact fits_flatMap fun _ hp => fits_bound isHome_param (hparams.member hp)

theorem fits_catchClause {param body : Ast}
    (h : SeatedIn seated scope (.node .catchClause s [param, body])) :
    ∀ i ∈ bound .catchParam param ++ [.part .refers body], i.Fits seated .catch := by
  have hhome : IsHome seated .catch .catchParam := ⟨fun _ => rfl, by simp, by simp⟩
  exact fits_append (fits_bound hhome (h.part 0 rfl trivial)) (fits_part (h.part 1 rfl trivial))

/-- **What a node brings fits the scopes that it is brought into.** -/
theorem plainRule_fitsIn (naming : Naming) (t : Ast) (h : SeatedIn seated scope t) :
    (plainRule naming t).FitsIn seated scope := by
  fun_cases plainRule naming t with
  | case1 | case33 | case34 => exact .flat (by simp)
  | case2 ts => exact .flat (fits_parts fun _ ht => h.member ht)
  | case3 => exact .flat (by simp [Item.Fits])
  | case4 _ _ cs =>
    refine .flat ?_
    split
    · simp
    · exact fits_parts (h.parts fun _ => trivial)
  | case5 | case6 | case7 => exact .flat (fits_part (h.part 0 rfl trivial))
  | case8 | case9 | case10 => exact .flat (fits_pair h trivial trivial)
  | case11 isType _ specs =>
    refine .flat ?_
    split
    · simp
    · exact fits_flatMap fun _ _ => fits_ofImport (isHome_import h)
  | case12 s s' name f =>
    have hexpr : SeatedIn seated scope (.node .funcExpr s' [name, f]) := h.part 0 rfl trivial
    exact .flat (fits_named name (by decide) (hexpr.part 1 rfl trivial))
  | case13 s s' name c =>
    have hexpr : SeatedIn seated scope (.node .classExpr s' [name, c]) := h.part 0 rfl trivial
    exact .flat (fits_named name (by decide) (hexpr.part 1 rfl trivial))
  | case14 _ _ name | case29 _ _ name =>
    exact .flat (fits_named name (by decide) (h.part 1 rfl trivial))
  | case15 s name a g s' params decorators body rest =>
    have hf : SeatedIn seated scope
      (.node (.function a g) s' (params :: decorators :: body :: rest)) := h.part 1 rfl trivial
    exact fitsIn_function _ hf (fits_declareIdent name (by decide))
  | case16 => exact fitsIn_function [] h (by simp)
  | case17 =>
    exact .flat (fits_append (fits_part (h.part 0 rfl trivial))
      (fits_bound (isHome_param_of_seated h) (h.part 1 rfl trivial)))
  | case18 => exact fitsIn_constructor h
  | case19 => exact fitsIn_arrow h
  | case20 =>
    exact .function (fits_part (h.part 0 rfl trivial))
      (List.forall_mem_singleton.2 (fits_ofBody (h.part 2 rfl trivial)))
  | case21 =>
    exact .function (fits_part (h.part 0 rfl trivial))
      (fits_paramsBody (fits_bound isHome_param (h.part 2 rfl trivial)) (h.part 3 rfl trivial))
  | case22 | case24 | case25 | case26 =>
    exact .block (by simp) (fits_parts (h.parts fun _ => trivial))
  | case23 =>
    refine ⟨by simp, ?_⟩
    rintro o ⟨⟩
    exact ⟨by simp, by simp, fits_catchClause h⟩
  | case27 => exact .block (fits_part (h.part 0 rfl trivial)) (fits_part (h.part 1 rfl trivial))
  | case28 kind d s ds =>
    exact .flat (fits_flatMap fun _ hd => fits_ofDeclarator (h.parts (fun _ => trivial) _ hd))
  | case30 s name =>
    refine ⟨by simp, ?_⟩
    rintro o ⟨⟩
    exact ⟨by simp, by simp, fits_named name (by decide) (h.part 1 rfl trivial)⟩
  | case31 | case32 => exact .flat (fits_part (h.part 1 rfl trivial))
  | case35 c s name rest =>
    refine .flat (fits_append fits_ofTag (fits_parts fun u hu => ?_))
    exact h.parts (fun _ => trivial) u (List.mem_cons_of_mem _ hu)
  | case36 => exact .flat fits_ofTag
  | case37 d c s name => exact .flat (fits_declareIdent name (by decide))
  | case38 =>
    refine .flat ?_
    split
    · simp
    · rename_i htype
      exact fits_parts (fits_ofPart_of_default h (by simpa using htype) (by assumption) (by assumption))

theorem plain_rule_fitsIn (m : Role) (t : Ast) (h : SeatedIn seated scope t) :
    (plain.rule m t).FitsIn seated scope := by
  change (plainRuleAs m t).FitsIn seated scope
  fun_cases plainRuleAs m t with
  | case1 t => exact plainRule_fitsIn .refers t h
  | case2 t => exact plainRule_fitsIn .binds t h
  | case3 => exact .flat (fits_parts (h.parts fun _ => trivial))
  | case4 t _ => exact plainRule_fitsIn .refers t h

/-- Facts about a tree declare in scopes of the kinds that their declarations need. -/
theorem homely_facts (m : Role) (t : Ast) : ∀ {scope : ScopeKind}, SeatedIn seated scope t →
    AllHomely seated scope (plain.facts m t) := by
  refine plain.rule_induction (P := fun m t => ∀ {scope : ScopeKind}, SeatedIn seated scope t →
    AllHomely seated scope (plain.facts m t)) (fun m t ih => ?_) m t
  intro scope h
  have hrule := plain_rule_fitsIn m t h
  have hitems {items : List Item} {k : ScopeKind} (hfits : ∀ i ∈ items, i.Fits seated k)
      (hsub : ∀ i ∈ items, i ∈ (plain.rule m t).here ++ (plain.rule m t).inside) :
      AllHomely seated k (items.flatMap plain.factsBy) := by
    rw [allHomely_iff]
    intro o ho
    obtain ⟨i, hi, ho⟩ := List.mem_flatMap.1 ho
    have hfit := hfits i hi
    cases i with
    | mention n =>
      obtain rfl := List.mem_singleton.1 ho
      trivial
    | declare n kind =>
      obtain rfl := List.mem_singleton.1 ho
      exact hfit
    | part m' u => exact allHomely_iff.1 (ih m' u (hsub _ hi) hfit) o ho
  rw [facts_rule, allHomely_iff]
  intro o ho
  rcases List.mem_append.1 ho with ho | ho
  · exact allHomely_iff.1 (hitems hrule.here fun i hi => List.mem_append_left _ hi) o ho
  · obtain ⟨opening, hopening, rfl⟩ := Option.map_eq_some_iff.1 (Option.mem_toList.1 ho)
    obtain ⟨hmodule, hfunction, hfits⟩ := hrule.opening opening hopening
    refine ⟨hmodule, hfunction, hitems hfits fun i hi => List.mem_append_right _ ?_⟩
    simpa [Rule.inside, hopening] using hi

end Steps

/-- **Facts about a module declare in scopes of the kinds that their declarations need**, parameters and imports
if the nodes of the module stand where they may. -/
theorem homely_outline (seated : Bool) (module : Ast)
    (h : seated = true → isSeated .program module = true) :
    AllHomely seated .module (outline module) := by
  have hfacts : plain.facts .refers module = outline module := facts_plain .refers module
  rw [← hfacts]
  exact homely_facts .refers module fun hs => ⟨.program, rfl, h hs⟩

end Worklet
