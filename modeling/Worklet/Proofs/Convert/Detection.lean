import Mathlib.Data.List.Basic
import Mathlib.Logic.Relation
import Worklet.Proofs.Convert.Views

/-!
# Which arguments are worklets

What a call says about its arguments, as a specification that does not mention parentheses.

Principal result: `mem_detect_iff_first_applies` — the detected arguments are those of the specification,
in order, wherever parentheses are put.
-/

set_option autoImplicit false

namespace Worklet

open Syntax

/-! ### Without parentheses -/

/-- The expression without parentheses around it and around what it is a member or a call of. -/
def unenclosed : Ast → Ast
  | .node .paren _ [e] => unenclosed e
  | .node .member s [obj, prop] => .node .member s [unenclosed obj, prop]
  | .node .call s (callee :: rest) => .node .call s (unenclosed callee :: rest)
  | t => t

theorem kind?_unenclosed (t : Ast) : (unenclosed t).kind? = t.unparen.kind? := by
  fun_induction unenclosed t with
  | case1 s e ih => rw [ih, Ast.unparen]
  | case2 s obj prop ih => rfl
  | case3 s callee rest ih => rfl
  | case4 t hparen hmember hcall => rw [Ast.unparen]; exact hparen

variable {s : Span} {callee : Ast} {name : String}

/-- What is a member without parentheses was one inside them. -/
theorem unenclosed_eq_member {t o p : Ast} :
    unenclosed t = .node .member s [o, p] ↔
      ∃ obj, t.unparen = .node .member s [obj, p] ∧ unenclosed obj = o := by
  fun_induction unenclosed t with
  | case1 s e ih => rw [ih, Ast.unparen]
  | case2 s' obj prop ih =>
    simp only [Ast.unparen, Ast.node.injEq, List.cons.injEq, true_and, and_true]
    constructor
    · rintro ⟨hs, ho, hp⟩
      exact ⟨obj, ⟨hs, rfl, hp⟩, ho⟩
    · rintro ⟨obj', ⟨hs, rfl, hp⟩, ho⟩
      exact ⟨hs, ho, hp⟩
  | case3 s callee rest ih => simp [Ast.unparen]
  | case4 t hparen hmember hcall =>
    rw [Ast.unparen.eq_2 t hparen]
    constructor
    · exact fun h => (hmember _ _ _ h).elim
    · rintro ⟨_, h, _⟩
      exact (hmember _ _ _ h).elim

theorem unenclosed_unenclosed (t : Ast) : unenclosed (unenclosed t) = unenclosed t := by
  fun_induction unenclosed t with
  | case1 s e ih => exact ih
  | case2 s obj prop ih => rw [unenclosed, ih]
  | case3 s callee rest ih => rw [unenclosed, ih]
  | case4 t hparen hmember hcall => exact unenclosed.eq_4 t hparen hmember hcall

/-! ### The specification -/

/-- An expression that names what it calls. -/
inductive IsCalled : Ast → String → Prop
  | name {s : Span} {cs : List Ast} (n : String) : IsCalled (.node (.ident n) s cs) n
  | member {s s' : Span} {cs : List Ast} (obj : Ast) (n : String) :
    IsCalled (.node .member s [obj, .node (.word n) s' cs]) n

def IsFunction (e : Ast) : Prop :=
  e.kind? = some .funcExpr ∨ ∃ isAsync, e.kind? = some (.arrow isAsync)

def IsObject (e : Ast) : Prop :=
  e.kind? = some .object

def IsSpread (arg : Ast) : Prop :=
  arg.kind? = some .spread

namespace HookRegistry

variable (hooks : HookRegistry)

/-- The name is one of a function hook that takes a worklet at the position. -/
def TakesFunction (name : String) (position : Nat) : Prop :=
  ∃ spec, hooks.functionHooks.get? name = some spec ∧ (spec.positions = [] ∨ position ∈ spec.positions)

/-- A call of the namespace's constructor begins a chain. -/
def Begins (space ctor : String) : Prop :=
  ∃ ctors, hooks.builderRoots.get? space = some ctors ∧ (ctors = [] ∨ ctor ∈ ctors)

/-- The method of a chain takes worklets. -/
def TakesCallback (name : String) : Prop :=
  hooks.builderMethods = [] ∨ name ∈ hooks.builderMethods

/-- The receivers that begin at a builder: its call, and members and method calls of such receivers. -/
inductive Chain : Ast → Prop
  | root {s s' s₁ s₂ : Span} {cs₁ cs₂ rest : List Ast} {space ctor : String} (h : hooks.Begins space ctor) :
    Chain (.node .call s (.node .member s' [.node (.ident space) s₁ cs₁, .node (.word ctor) s₂ cs₂] :: rest))
  | member {s : Span} {receiver prop : Ast} (h : Chain receiver) : Chain (.node .member s [receiver, prop])
  | call {s s' : Span} {receiver prop : Ast} {rest : List Ast} (h : Chain receiver) :
    Chain (.node .call s (.node .member s' [receiver, prop] :: rest))

/-- What an argument can be to a callee of a name. -/
def Applies (callee : Ast) (name : String) (position : Nat) (arg : Ast) : Detection → Prop
  | .function .hookArgument => IsFunction arg ∧ hooks.TakesFunction name position
  | .objectProperties => IsObject arg ∧ name ∈ hooks.objectHooks
  | .function .builderCallback =>
    IsFunction arg ∧ hooks.TakesCallback name ∧
      ∃ s receiver prop, callee = .node .member s [receiver, prop] ∧ hooks.Chain receiver
  | _ => False

/-- What comes before what, if several apply. -/
def precedence : List Detection :=
  [.function .hookArgument, .objectProperties, .function .builderCallback]

def FirstApplies (callee : Ast) (name : String) (position : Nat) (arg : Ast) (d : Detection) : Prop :=
  ∃ before after, precedence = before ++ d :: after ∧ hooks.Applies callee name position arg d ∧
    ∀ d' ∈ before, ¬hooks.Applies callee name position arg d'

/-! ### Receivers -/

theorem isBuilderRoot_iff (space ctor : String) :
    hooks.isBuilderRoot space ctor = true ↔ hooks.Begins space ctor := by
  simp [isBuilderRoot, Begins, Option.any_eq_true]

theorem chain_member_iff {receiver prop : Ast} :
    hooks.Chain (.node .member s [receiver, prop]) ↔ hooks.Chain receiver :=
  ⟨fun | .member h => h, .member⟩

/-- A call is a chain if what it calls is a builder or a method of a chain. -/
theorem chain_call_iff {rest : List Ast} :
    hooks.Chain (.node .call s (callee :: rest)) ↔
      ∃ s' receiver prop, callee = .node .member s' [receiver, prop] ∧
        ((∃ space ctor s₁ s₂ cs₁ cs₂, receiver = .node (.ident space) s₁ cs₁ ∧
          prop = .node (.word ctor) s₂ cs₂ ∧ hooks.Begins space ctor) ∨ hooks.Chain receiver) := by
  constructor
  · intro h
    cases h with
    | root h => exact ⟨_, _, _, rfl, .inl ⟨_, _, _, _, _, _, rfl, rfl, h⟩⟩
    | call h => exact ⟨_, _, _, rfl, .inr h⟩
  · rintro ⟨s', receiver, prop, rfl, ⟨space, ctor, s₁, s₂, cs₁, cs₂, rfl, rfl, h⟩ | h⟩
    · exact .root h
    · exact .call h

/-- What stands in parentheses is an identifier if it is one without them. -/
theorem unenclosed_eq_ident {t : Ast} {n : String} {cs : List Ast} :
    unenclosed t = .node (.ident n) s cs ↔ t.unparen = .node (.ident n) s cs := by
  fun_induction unenclosed t with
  | case1 s e ih => rw [ih, Ast.unparen]
  | case2 s obj prop ih => simp [Ast.unparen]
  | case3 s callee rest ih => simp [Ast.unparen]
  | case4 t hparen hmember hcall => rw [Ast.unparen.eq_2 t hparen]

theorem isRootedCallee_member_iff {obj prop : Ast} :
    hooks.isRootedCallee (.node .member s [obj, prop]) = true ↔
      (∃ space ctor s₁ s₂ cs₁ cs₂, unenclosed obj = .node (.ident space) s₁ cs₁ ∧
        prop = .node (.word ctor) s₂ cs₂ ∧ hooks.Begins space ctor) ∨ hooks.isRooted obj = true := by
  unfold isRootedCallee
  rw [Bool.or_eq_true]
  refine or_congr ?_ Iff.rfl
  simp only [unenclosed_eq_ident]
  split
  · rename_i space s₁ cs₁ ctor s₂ cs₂ hobj
    rw [isBuilderRoot_iff]
    constructor
    · exact fun h => ⟨space, ctor, s₁, s₂, cs₁, cs₂, hobj, rfl, h⟩
    · rintro ⟨space', ctor', s₁', s₂', cs₁', cs₂', hobj', hprop, h⟩
      cases hobj.symm.trans hobj'
      cases hprop
      exact h
  · rename_i hne
    constructor
    · simp
    · rintro ⟨space, ctor, s₁, s₂, cs₁, cs₂, hobj, hprop, -⟩
      exact (hne _ _ _ _ _ _ hobj hprop).elim

/-- The search for a builder finds the receivers of the grammar, and callees whose calls are such
receivers. -/
theorem isRooted_and_isRootedCallee_iff :
    (∀ e, hooks.isRooted e = true ↔ hooks.Chain (unenclosed e)) ∧
      ∀ callee, hooks.isRootedCallee callee = true ↔
        ∀ s rest, hooks.Chain (.node .call s (unenclosed callee :: rest)) := by
  refine HookRegistry.isRooted.mutual_induct _ _ ?_ ?_ ?_ ?_ ?_ ?_ ?_
  · intro s e ih
    rw [isRooted, ih, unenclosed]
  · intro s callee rest ih
    rw [isRooted, ih, unenclosed]
    simp only [chain_call_iff, forall_const]
  · intro s obj prop ih
    rw [isRooted, ih, unenclosed, chain_member_iff]
  · intro t hparen hcall hmember
    rw [isRooted.eq_4 hooks t hparen hcall hmember, unenclosed.eq_4 t hparen hmember hcall]
    refine ⟨by simp, fun h => ?_⟩
    cases h with
    | root => exact (hcall _ _ _ rfl).elim
    | member => exact (hmember _ _ _ rfl).elim
    | call => exact (hcall _ _ _ rfl).elim
  · intro s e ih
    rw [isRootedCallee, ih, unenclosed]
  · intro s obj prop ih
    rw [isRootedCallee_member_iff, ih, unenclosed]
    simp only [chain_call_iff, Ast.node.injEq, List.cons.injEq, true_and, and_true, forall_const]
    constructor
    · exact fun h => ⟨s, unenclosed obj, prop, ⟨rfl, rfl, rfl⟩, h⟩
    · rintro ⟨_, _, _, ⟨-, rfl, rfl⟩, h⟩
      exact h
  · intro t hparen hmember
    rw [isRootedCallee.eq_4 hooks t hparen hmember]
    refine ⟨by simp, fun h => ?_⟩
    obtain ⟨s, receiver, prop, hbare, -⟩ := hooks.chain_call_iff.1 (h t.span [])
    obtain ⟨obj, hobj, -⟩ := unenclosed_eq_member.1 hbare
    rw [Ast.unparen.eq_2 t hparen] at hobj
    exact (hmember _ _ _ hobj).elim

theorem isRooted_iff (e : Ast) : hooks.isRooted e = true ↔ hooks.Chain (unenclosed e) :=
  hooks.isRooted_and_isRootedCallee_iff.1 e

/-! ### Arguments -/

theorem isFunctionLiteral_iff (e : Ast) : isFunctionLiteral e = true ↔ IsFunction (unenclosed e) := by
  rw [IsFunction, kind?_unenclosed, isFunctionLiteral]
  split
  · rename_i h
    simp [h, Ast.kind?]
  · rename_i h
    simp [h, Ast.kind?]
  · rename_i hfunc harrow
    refine ⟨by simp, fun h => ?_⟩
    cases he : e.unparen with
    | node k s cs =>
      rw [he] at h
      obtain hk | ⟨a, hk⟩ := h
      · exact (hfunc s cs (by rw [he, Option.some.inj hk])).elim
      · exact (harrow a s cs (by rw [he, Option.some.inj hk])).elim
    | _ => simp [he, Ast.kind?] at h

theorem isObjectLiteral_iff (e : Ast) : isObjectLiteral e = true ↔ IsObject (unenclosed e) := by
  rw [IsObject, kind?_unenclosed, isObjectLiteral]
  split
  · rename_i h
    simp [h, Ast.kind?]
  · rename_i hobject
    refine ⟨by simp, fun h => ?_⟩
    cases he : e.unparen with
    | node k s cs =>
      rw [he] at h
      exact (hobject s cs (by rw [he, Option.some.inj h])).elim
    | _ => simp [he, Ast.kind?] at h

theorem accepts_iff (name : String) (position : Nat) :
    (hooks.functionHook? name).any (·.accepts position) = true ↔ hooks.TakesFunction name position := by
  simp [functionHook?, HookSpec.accepts, TakesFunction, Option.any_eq_true]

/-- A callee has the same name with parentheses and without. -/
theorem isCalled_unenclosed_iff :
    IsCalled (unenclosed callee) name ↔ calleeName? callee.unparen = some name := by
  constructor
  · intro h
    generalize hb : unenclosed callee = b at h
    cases h with
    | name => rw [unenclosed_eq_ident.1 hb, calleeName?]
    | member =>
      obtain ⟨obj, hobj, -⟩ := unenclosed_eq_member.1 hb
      rw [hobj, calleeName?]
  · intro h
    unfold calleeName? at h
    split at h
    · rename_i heq
      cases h
      rw [unenclosed_eq_ident.2 heq]
      exact .name name
    · rename_i heq
      cases h
      rw [unenclosed_eq_member.2 ⟨_, heq, rfl⟩]
      exact .member _ name
    · cases h

theorem isBuilderCall_iff (h : IsCalled (unenclosed callee) name) :
    hooks.isBuilderCall callee.unparen = true ↔
      hooks.TakesCallback name ∧
        ∃ s receiver prop, unenclosed callee = .node .member s [receiver, prop] ∧ hooks.Chain receiver := by
  generalize hb : unenclosed callee = b at h
  cases h with
  | name =>
    rw [unenclosed_eq_ident.1 hb]
    refine ⟨nofun, ?_⟩
    rintro ⟨-, _, _, _, heq, -⟩
    cases heq
  | member receiver =>
    obtain ⟨obj, hobj, rfl⟩ := unenclosed_eq_member.1 hb
    rw [hobj, isBuilderCall, Bool.and_eq_true, isRooted_iff]
    refine and_congr (by simp [isBuilderMethod, TakesCallback]) ⟨fun hc => ⟨_, _, _, rfl, hc⟩, ?_⟩
    rintro ⟨_, _, _, heq, hc⟩
    cases heq
    exact hc

theorem firstApplies_iff {arg : Ast} {i : Nat} {d : Detection} :
    hooks.FirstApplies callee name i arg d ↔
      (d = .function .hookArgument ∧ hooks.Applies callee name i arg (.function .hookArgument)) ∨
      (d = .objectProperties ∧ ¬hooks.Applies callee name i arg (.function .hookArgument) ∧
        hooks.Applies callee name i arg .objectProperties) ∨
      (d = .function .builderCallback ∧ ¬hooks.Applies callee name i arg (.function .hookArgument) ∧
        ¬hooks.Applies callee name i arg .objectProperties ∧
        hooks.Applies callee name i arg (.function .builderCallback)) := by
  constructor
  · rintro ⟨before, after, heq, h, hbefore⟩
    rcases before with _ | ⟨d₁, _ | ⟨d₂, _ | ⟨d₃, before⟩⟩⟩
    · cases heq
      exact .inl ⟨rfl, h⟩
    · cases heq
      exact .inr (.inl ⟨rfl, hbefore _ (by simp), h⟩)
    · cases heq
      exact .inr (.inr ⟨rfl, hbefore _ (by simp), hbefore _ (by simp), h⟩)
    · simp [precedence] at heq
  · rintro (⟨rfl, h⟩ | ⟨rfl, h₁, h⟩ | ⟨rfl, h₁, h₂, h⟩)
    · exact ⟨[], _, rfl, h, by simp⟩
    · exact ⟨[.function .hookArgument], _, rfl, h, by simpa using h₁⟩
    · exact ⟨[.function .hookArgument, .objectProperties], _, rfl, h, by simpa using ⟨h₁, h₂⟩⟩

/-- What is found in an argument is the first that applies. -/
theorem detectArg_eq_some_iff (h : IsCalled (unenclosed callee) name) (i : Nat) (arg : Ast)
    (d : Detection) :
    hooks.detectArg name (hooks.isBuilderCall callee.unparen) i arg = some d ↔
      hooks.FirstApplies (unenclosed callee) name i (unenclosed arg) d := by
  have hhook : (isFunctionLiteral arg && (hooks.functionHook? name).any (·.accepts i)) = true ↔
      hooks.Applies (unenclosed callee) name i (unenclosed arg) (.function .hookArgument) := by
    rw [Bool.and_eq_true, isFunctionLiteral_iff, accepts_iff, Applies]
  have hobject : (hooks.isObjectHook name && isObjectLiteral arg) = true ↔
      hooks.Applies (unenclosed callee) name i (unenclosed arg) .objectProperties := by
    rw [Bool.and_eq_true, isObjectLiteral_iff, Applies, and_comm, isObjectHook, List.contains_iff_mem]
  have hbuilder : (hooks.isBuilderCall callee.unparen && isFunctionLiteral arg) = true ↔
      hooks.Applies (unenclosed callee) name i (unenclosed arg) (.function .builderCallback) := by
    rw [Bool.and_eq_true, isFunctionLiteral_iff, hooks.isBuilderCall_iff h, Applies, and_comm]
  rw [firstApplies_iff, ← hhook, ← hobject, ← hbuilder, detectArg]
  split
  · rename_i hc
    simp [hc, eq_comm (a := d)]
  · rename_i hc
    split
    · rename_i hc'
      simp [hc, hc', eq_comm (a := d)]
    · rename_i hc'
      split
      · rename_i hc''
        simp [hc, hc', hc'', eq_comm (a := d)]
      · rename_i hc''
        simp [hc, hc', hc'']

theorem not_isSpread_of_firstApplies {arg : Ast} {i : Nat} {d : Detection}
    (h : hooks.FirstApplies callee name i (unenclosed arg) d) : ¬IsSpread arg := by
  intro hspread
  have hkind : (unenclosed arg).kind? = some .spread := by
    rw [kind?_unenclosed, Ast.unparen.eq_2 arg, hspread]
    rintro s e rfl
    cases hspread
  have hfunction : ¬IsFunction (unenclosed arg) := by
    rintro (hf | ⟨a, hf⟩) <;> cases hkind.symm.trans hf
  have hobject : ¬IsObject (unenclosed arg) := fun ho => by cases hkind.symm.trans ho
  obtain ⟨-, h⟩ | ⟨-, -, h⟩ | ⟨-, -, -, h⟩ := hooks.firstApplies_iff.1 h
  · exact hfunction h.1
  · exact hobject h.1
  · exact hfunction h.1

/-! ### Calls -/

section Call

variable (s : Span) (callee : Ast) (args rest : List Ast)

theorem detect_eq_filterMap (h : calleeName? callee.unparen = some name) :
    hooks.detect (.node .call s (callee :: .list args :: rest)) =
      args.zipIdx.filterMap fun x =>
        (hooks.detectArg name (hooks.isBuilderCall callee.unparen) x.2 x.1).map fun d => (x.2, d) := by
  simp only [detect, h]

theorem detect_eq_nil (h : calleeName? callee.unparen = none) :
    hooks.detect (.node .call s (callee :: .list args :: rest)) = [] := by
  simp only [detect, h]

/-- Arguments are listed once each, from the first to the last. -/
theorem detect_pairwise :
    ((hooks.detect (.node .call s (callee :: .list args :: rest))).map (·.1)).Pairwise (· < ·) := by
  have hzip : args.zipIdx.Pairwise fun x y => x.2 < y.2 := by
    rw [← List.pairwise_map (f := Prod.snd) (R := (· < ·)), List.zipIdx_map_snd]
    exact List.pairwise_lt_range'
  cases h : calleeName? callee.unparen with
  | none =>
    rw [detect_eq_nil hooks s callee args rest h]
    exact .nil
  | some name =>
    rw [detect_eq_filterMap hooks s callee args rest h, List.pairwise_map]
    refine List.Pairwise.filterMap _ ?_ hzip
    intro x y hxy a ha b hb
    obtain ⟨_, -, rfl⟩ := Option.map_eq_some_iff.1 ha
    obtain ⟨_, -, rfl⟩ := Option.map_eq_some_iff.1 hb
    exact hxy

/-- The arguments that are listed, with what they are. -/
theorem mem_detect_iff (i : Nat) (d : Detection) :
    (i, d) ∈ hooks.detect (.node .call s (callee :: .list args :: rest)) ↔
      ∃ arg name, args[i]? = some arg ∧ ¬IsSpread arg ∧ IsCalled (unenclosed callee) name ∧
        hooks.FirstApplies (unenclosed callee) name i (unenclosed arg) d := by
  cases h : calleeName? callee.unparen with
  | none =>
    rw [detect_eq_nil hooks s callee args rest h]
    refine ⟨nofun, ?_⟩
    rintro ⟨_, _, -, -, hname, -⟩
    cases h.symm.trans (isCalled_unenclosed_iff.1 hname)
  | some name =>
    have hname : IsCalled (unenclosed callee) name := isCalled_unenclosed_iff.2 h
    rw [detect_eq_filterMap hooks s callee args rest h, List.mem_filterMap]
    constructor
    · rintro ⟨⟨arg, j⟩, hmem, hd⟩
      obtain ⟨d', hd', heq⟩ := Option.map_eq_some_iff.1 hd
      cases heq
      have hfirst := (hooks.detectArg_eq_some_iff hname _ arg _).1 hd'
      exact ⟨arg, name, List.mem_zipIdx_iff_getElem?.1 hmem,
        hooks.not_isSpread_of_firstApplies hfirst, hname, hfirst⟩
    · rintro ⟨arg, name', harg, -, hname', hfirst⟩
      cases h.symm.trans (isCalled_unenclosed_iff.1 hname')
      refine ⟨(arg, i), List.mem_zipIdx_iff_getElem?.2 harg, ?_⟩
      rw [(hooks.detectArg_eq_some_iff hname i arg d).2 hfirst, Option.map_some]

end Call

end HookRegistry

/-! ### Parentheses -/

/-- The second expression has one more pair of parentheses, around it or around what it is a member or a
call of. -/
inductive Encloses : Ast → Ast → Prop
  | around (s : Span) (e : Ast) : Encloses e (.node .paren s [e])
  | inside {s : Span} {e e' : Ast} (h : Encloses e e') :
    Encloses (.node .paren s [e]) (.node .paren s [e'])
  | receiver {s : Span} {obj obj' prop : Ast} (h : Encloses obj obj') :
    Encloses (.node .member s [obj, prop]) (.node .member s [obj', prop])
  | callee {s : Span} {callee callee' : Ast} {rest : List Ast} (h : Encloses callee callee') :
    Encloses (.node .call s (callee :: rest)) (.node .call s (callee' :: rest))

/-- The second call has one more pair of parentheses, at its callee or at an argument. -/
inductive Reparens : Ast → Ast → Prop
  | callee {s : Span} {callee callee' : Ast} {args rest : List Ast} (h : Encloses callee callee') :
    Reparens (.node .call s (callee :: .list args :: rest)) (.node .call s (callee' :: .list args :: rest))
  | argument {s : Span} {callee arg arg' : Ast} {before after rest : List Ast} (h : Encloses arg arg') :
    Reparens (.node .call s (callee :: .list (before ++ arg :: after) :: rest))
      (.node .call s (callee :: .list (before ++ arg' :: after) :: rest))

theorem Encloses.unenclosed_eq {e e' : Ast} (h : Encloses e e') : unenclosed e' = unenclosed e := by
  induction h with
  | around s e => rw [unenclosed]
  | inside _ ih => rw [unenclosed, unenclosed, ih]
  | receiver _ ih => rw [unenclosed, unenclosed, ih]
  | callee _ ih => rw [unenclosed, unenclosed, ih]

namespace HookRegistry

variable (hooks : HookRegistry)

theorem detectArg_unenclosed (name : String) (isBuilder : Bool) (i : Nat) (arg : Ast) :
    hooks.detectArg name isBuilder i (unenclosed arg) = hooks.detectArg name isBuilder i arg := by
  have hfunction : isFunctionLiteral (unenclosed arg) = isFunctionLiteral arg := by
    rw [Bool.eq_iff_iff, isFunctionLiteral_iff, isFunctionLiteral_iff, unenclosed_unenclosed]
  have hobject : isObjectLiteral (unenclosed arg) = isObjectLiteral arg := by
    rw [Bool.eq_iff_iff, isObjectLiteral_iff, isObjectLiteral_iff, unenclosed_unenclosed]
  rw [detectArg, detectArg, hfunction, hobject]

/-- Parentheses are of no account. -/
theorem detect_unenclosed (s : Span) (callee : Ast) (args rest : List Ast) :
    hooks.detect (.node .call s (unenclosed callee :: .list (args.map unenclosed) :: rest)) =
      hooks.detect (.node .call s (callee :: .list args :: rest)) := by
  have hname : calleeName? (unenclosed callee).unparen = calleeName? callee.unparen := by
    refine Option.ext fun name => ?_
    rw [← isCalled_unenclosed_iff, ← isCalled_unenclosed_iff, unenclosed_unenclosed]
  cases h : calleeName? callee.unparen with
  | none => rw [detect_eq_nil hooks _ _ _ _ h, detect_eq_nil hooks _ _ _ _ (hname.trans h)]
  | some name =>
    have hbuilder : hooks.isBuilderCall (unenclosed callee).unparen = hooks.isBuilderCall callee.unparen := by
      rw [Bool.eq_iff_iff, hooks.isBuilderCall_iff (isCalled_unenclosed_iff.2 (hname.trans h)),
        hooks.isBuilderCall_iff (isCalled_unenclosed_iff.2 h), unenclosed_unenclosed]
    rw [detect_eq_filterMap hooks _ _ _ _ h, detect_eq_filterMap hooks _ _ _ _ (hname.trans h), hbuilder,
      List.zipIdx_map, List.filterMap_map]
    simp only [Function.comp_def, Prod.map, id, detectArg_unenclosed]

theorem detect_eq_of_reparens {call call' : Ast} (h : Reparens call call') :
    hooks.detect call' = hooks.detect call := by
  cases h with
  | callee h => rw [← detect_unenclosed, h.unenclosed_eq, detect_unenclosed]
  | argument h =>
    rw [← detect_unenclosed, ← hooks.detect_unenclosed _ _ (_ ++ _ :: _), List.map_append,
      List.map_append, List.map_cons, List.map_cons, h.unenclosed_eq]

end HookRegistry

/-- **The worklets among the arguments of a call are those of the specification.** They are listed once each
from the first to the last; an argument is listed as the first that applies, if it is no spread and the callee
has a name; and parentheses at the callee, in its receivers and at the arguments can be put and left out. -/
theorem mem_detect_iff_first_applies (hooks : HookRegistry) (s : Span) (callee : Ast) (args rest : List Ast) :
    let call := Ast.node .call s (callee :: .list args :: rest)
    ((hooks.detect call).map (·.1)).Pairwise (· < ·) ∧
      (∀ i d, (i, d) ∈ hooks.detect call ↔
        ∃ arg name, args[i]? = some arg ∧ ¬IsSpread arg ∧ IsCalled (unenclosed callee) name ∧
          hooks.FirstApplies (unenclosed callee) name i (unenclosed arg) d) ∧
      ∀ call', Relation.EqvGen Reparens call call' → hooks.detect call' = hooks.detect call := by
  refine ⟨hooks.detect_pairwise s callee args rest, hooks.mem_detect_iff s callee args rest, ?_⟩
  intro call' h
  generalize Ast.node .call s (callee :: .list args :: rest) = call at h
  induction h with
  | rel _ _ h => exact hooks.detect_eq_of_reparens h
  | refl => rfl
  | symm _ _ _ ih => exact ih.symm
  | trans _ _ _ _ _ ih ih' => exact ih'.trans ih

/-- `() => {}` -/
def sampleCallback : Ast :=
  made (.arrow false) [.list [], madeBlock [], .absent, .absent]

/-- `Gesture.Pan().minDistance(4)` -/
def sampleGesture : Ast :=
  madeCall (madeMember (madeCall (madeMember (madeIdent "Gesture") "Pan") []) "minDistance") [madeNumber 4]

/-- `(Gesture.Pan().minDistance(4)).onUpdate((() => {}))` is read as without its parentheses. -/
theorem detect_sampleGesture_enclosed :
    (0, .function .builderCallback) ∈
        HookRegistry.standard.detect (madeCall (madeMember sampleGesture "onUpdate") [sampleCallback]) ∧
      HookRegistry.standard.detect
          (madeCall (madeMember (madeParen sampleGesture) "onUpdate") [madeParen sampleCallback]) =
        HookRegistry.standard.detect (madeCall (madeMember sampleGesture "onUpdate") [sampleCallback]) := by
  obtain ⟨-, hmem, hparens⟩ := mem_detect_iff_first_applies .standard .made
    (madeMember sampleGesture "onUpdate") [sampleCallback] [.absent]
  have hbegins : HookRegistry.standard.Begins "Gesture" "Pan" := ⟨_, rfl, .inr (by simp)⟩
  have hchain : HookRegistry.standard.Chain sampleGesture := .call (.root hbegins)
  refine ⟨(hmem 0 _).2 ⟨sampleCallback, "onUpdate", rfl, nofun, .member _ _, ?_⟩, hparens _ ?_⟩
  · refine (HookRegistry.firstApplies_iff _).2 (.inr (.inr ⟨rfl, ?_, nofun, ?_⟩))
    · rintro ⟨-, _, hspec, -⟩
      cases hspec
    · exact ⟨.inr ⟨false, rfl⟩, .inr (by decide), _, _, _, rfl, hchain⟩
  · refine .trans _ (madeCall (madeMember (madeParen sampleGesture) "onUpdate") [sampleCallback]) _ ?_ ?_
    · exact .rel _ _ (.callee (.receiver (.around _ _)))
    · exact .rel _ _ (@Reparens.argument _ _ _ _ [] [] _ (.around _ _))

end Worklet
