import Worklet.Proofs.Convert.Caches
import Worklet.Proofs.Convert.GivesWay
import Worklet.Proofs.Scope.Patterns

/-!
# Members of literals and classes

A method that is converted gives way to a property of an object literal or a field of a class. The
member keeps its key, but a property means more than a method where its key is `__proto__`, and a field
may not be called `constructor`.

* `memberKey?`, `memberName?` — the key of a member, and the name that it spells.

Principal result: `transform_keeps_members` — the members of every literal and class stay in order with
their keys, and only converted methods of the two names are read otherwise than before.
-/

set_option autoImplicit false

namespace Worklet

open Syntax

/-! ### Members -/

/-- The members of an object literal or a class. -/
def membersOf? : Ast → Option (List Ast)
  | .node .object _ ms => some ms
  | .node (.class_ _) _ (_ :: .list ms :: _) => some ms
  | _ => none

/-- The kinds of members that have a key. -/
def isKeyed : Kind → Bool
  | .keyValue | .method | .getter | .setter | .classMethod .. | .classProp _ | .accessorProp _ => true
  | _ => false

def memberKey? : Ast → Option Ast
  | .node k _ (key :: _) => if isKeyed k then some key else none
  | _ => none

/-- The name of a member whose key is not computed. -/
def memberName? (m : Ast) : Option String :=
  (memberKey? m).bind keyText

/-- The property sets the prototype of its literal. -/
def setsPrototype (m : Ast) : Bool :=
  m.kind? = some .keyValue && memberName? m = some "__proto__"

def isField : Ast → Bool
  | .node (.classProp _) _ _ => true
  | _ => false

/-- A field of this name is no part of the language. -/
def isConstructorField (m : Ast) : Bool :=
  isField m && memberName? m = some "constructor"

def isStaticMember : Ast → Bool
  | .node (.classMethod _ mods) _ _ | .node (.classProp mods) _ _ | .node (.accessorProp mods) _ _ =>
    mods.isStatic
  | _ => false

/-- A key that is written stays. Of one that is computed the expression is converted. -/
structure KeepsKey (job : Job) (key key' : Ast) : Prop where
  name : keyText key' = keyText key
  written : ∀ k s, key = .node k s [] → isWrittenKey k = true → key' = key
  computed : ∀ s e, key = .node .computed s [e] →
    ∃ e', key' = .node .computed s [e'] ∧ BecomesSome job e e'

/-- A member and what takes its place. -/
structure KeepsMember (job : Job) (conversions : List Conversion) (m m' : Ast) : Prop where
  key : ∀ key, memberKey? m = some key → ∃ key', memberKey? m' = some key' ∧ KeepsKey job key key'
  isStatic : isStaticMember m' = isStaticMember m
  /-- A method that is converted gives way to a member with its wrapper. -/
  kind : (memberKey? m).isSome = true → m'.kind? = m.kind? ∨
    ∃ k k', m.kind? = some k ∧ m'.kind? = some k' ∧ becomesProperty k k' = true ∧
      ∃ c ∈ conversions, m'.parts[1]? = some c.prepared.wrapper
  prototype : setsPrototype m' = true ↔ setsPrototype m = true ∨
    m.kind? = some .method ∧ m'.kind? = some .keyValue ∧ memberName? m = some "__proto__"
  constructor : isConstructorField m' = true ↔ isConstructorField m = true ∨
    (∃ mods, m.kind? = some (.classMethod .method mods)) ∧ isField m' = true ∧
      memberName? m = some "constructor"

/-- A literal or a class, and one of the same kind with what took the place of its members. -/
structure KeepsMembers (job : Job) (conversions : List Conversion) (t t' : Ast) : Prop where
  kind : t'.kind? = t.kind?
  span : t'.span = t.span
  members : ∃ ms ms', membersOf? t = some ms ∧ membersOf? t' = some ms' ∧
    List.Forall₂ (KeepsMember job conversions) ms ms'

section Members

variable {job : Job} {conversions : List Conversion} {w : Slot} {t t' m m' key key' : Ast} {tr : Trace}

theorem keyText_node (k : Kind) (s s' : Span) (cs cs' : List Ast) :
    keyText (.node k s cs) = keyText (.node k s' cs') := by
  cases k <;> rfl

theorem keyText_of_function {k : Kind} (h : isFunctionKind k = true ∨ isTurned k = true) (s : Span)
    (cs : List Ast) : keyText (.node k s cs) = none := by
  cases k <;> first | rfl | simp [isFunctionKind, isTurned] at h

theorem Becomes.keepsKey (h : Becomes job w key key' tr) : KeepsKey job key key' where
  name := by
    cases h with
    | absent | list => rfl
    | node _ _ _ htreat _ =>
      rcases treat_cases htreat with rfl | ⟨f, p, cache, hf, hp, rfl⟩
      · exact keyText_node ..
      · have hform := FormOf.of_form? hf
        obtain ⟨k', s', cs', hturned, hk'⟩ := hform.isTurned hp cache
        rw [hturned, keyText_of_function (.inr hk'), keyText_of_function (.inl hform.isFunctionKind)]
    | statements | switchCase => exact keyText_node ..
  written k s hkey hk := by
    subst hkey
    obtain ⟨cs', tr₁, rfl, hcs, -⟩ := h.node_of_not_function
      (by cases k <;> first | rfl | cases hk) (by cases k <;> first | rfl | cases hk)
    cases hcs
    rfl
  computed s e hkey := by
    subst hkey
    obtain ⟨cs', tr₁, rfl, hcs, -⟩ := h.node_of_not_function rfl rfl
    rcases hcs with _ | ⟨he, _ | _, rfl⟩
    exact ⟨_, rfl, _, _, he⟩

theorem keepsMember_unkeyed (hm : memberKey? m = none)
    (hm' : memberKey? m' = none) (hs : isStaticMember m' = isStaticMember m) :
    KeepsMember job conversions m m' where
  key key hkey := by rw [hm] at hkey; cases hkey
  isStatic := hs
  kind hkey := by rw [hm] at hkey; cases hkey
  prototype := by simp [setsPrototype, memberName?, hm, hm']
  constructor := by simp [isConstructorField, memberName?, hm, hm']

theorem isField_iff : isField m = true ↔ ∃ mods, m.kind? = some (.classProp mods) := by
  unfold isField
  split
  · simp [Ast.kind?]
  · cases m <;> simp_all [Ast.kind?]

theorem keepsMember_keyed (hm : memberKey? m = some key)
    (hm' : memberKey? m' = some key') (hkey : KeepsKey job key key')
    (hs : isStaticMember m' = isStaticMember m)
    (hkind : m'.kind? = m.kind? ∨ ∃ k k', m.kind? = some k ∧ m'.kind? = some k' ∧
      becomesProperty k k' = true ∧ ∃ c ∈ conversions, m'.parts[1]? = some c.prepared.wrapper) :
    KeepsMember job conversions m m' := by
  have hname : memberName? m' = memberName? m := by
    rw [memberName?, memberName?, hm, hm', Option.bind_some, Option.bind_some, hkey.name]
  refine ⟨?_, hs, fun _ => hkind, ?_, ?_⟩
  · intro key₁ h
    cases hm.symm.trans h
    exact ⟨key', hm', hkey⟩
  · rcases hkind with heq | ⟨k, k', hk, hk', hbecomes, -⟩
    · simp [setsPrototype, hname, heq]
    · revert hbecomes
      fun_cases becomesProperty k k' <;> simp_all [setsPrototype]
  · rw [isConstructorField, isConstructorField, Bool.and_eq_true, Bool.and_eq_true, hname, isField_iff,
      isField_iff]
    rcases hkind with heq | ⟨k, k', hk, hk', hbecomes, -⟩
    · rw [heq]
      grind
    · revert hbecomes
      fun_cases becomesProperty k k' <;> simp_all

theorem keepsMember_node {k : Kind} {s : Span} {cs cs' : List Ast}
    (h : isKeyed k = true → Option.Rel (KeepsKey job) cs.head? cs'.head?) :
    KeepsMember job conversions (.node k s cs) (.node k s cs') := by
  have hs : isStaticMember (.node k s cs') = isStaticMember (.node k s cs) := by cases k <;> rfl
  cases hk : isKeyed k with
  | false =>
    exact keepsMember_unkeyed (by cases cs <;> simp [memberKey?, hk])
      (by cases cs' <;> simp [memberKey?, hk]) hs
  | true =>
    have h := h hk
    cases cs with
    | nil =>
      cases cs' with
      | nil => exact keepsMember_unkeyed rfl rfl hs
      | cons => cases h
    | cons key rest =>
      cases cs' with
      | nil => cases h
      | cons key' rest' =>
        cases h with
        | some hkey =>
          exact keepsMember_keyed (by simp [memberKey?, hk]) (by simp [memberKey?, hk]) hkey hs (.inl rfl)

theorem Becomes.keepsMember (h : Becomes job w m m' tr)
    (hc : ∀ c, .converted c ∈ tr.entries → c ∈ conversions) : KeepsMember job conversions m m' := by
  cases m with
  | absent => cases h; exact keepsMember_unkeyed rfl rfl rfl
  | list => cases h; exact keepsMember_unkeyed rfl rfl rfl
  | node k s cs =>
    cases hl : holdsStatements (.node k s cs) with
    | true =>
      cases h with
      | node _ hl' => rw [hl] at hl'; cases hl'
      | statements hk =>
        refine keepsMember_node fun hkeyed => ?_
        revert hk hkeyed
        cases k <;> simp [isStatementList, isKeyed]
      | switchCase => exact keepsMember_node fun h => by cases h
    | false =>
      rcases h.stays_or_givesWay hl with ⟨cs', tr₁, own, rfl, hcs, -⟩ |
        ⟨f, p, cache, reason, tr₁, own, hgives, hp, rfl, hown, -, -, rfl⟩
      · refine keepsMember_node fun _ => ?_
        rcases hcs with _ | ⟨hkey, -, -⟩
        · exact .none
        · exact .some hkey.keepsKey
      · have hc := hc _ (Trace.mem_entries_append.2 (.inr (hown ▸ List.mem_singleton_self _)))
        cases hgives with
        | method hkey | classMethod hkey =>
          exact keepsMember_keyed rfl rfl hkey.keepsKey rfl (.inr ⟨_, _, rfl, rfl, rfl, _, hc, rfl⟩)
        | getter hkey => exact keepsMember_node fun _ => .some hkey.keepsKey
        | setter hkey => exact keepsMember_node fun _ => .some hkey.keepsKey
        | classAccessor _ hkey => exact keepsMember_node fun _ => .some hkey.keepsKey
        | _ => exact keepsMember_unkeyed rfl rfl rfl

theorem BecomesAll.keepsMembers : ∀ {ws : Nat → Slot} {ms ms' : List Ast} {tr : Trace},
    BecomesAll job ws ms ms' tr → (∀ c, .converted c ∈ tr.entries → c ∈ conversions) →
    List.Forall₂ (KeepsMember job conversions) ms ms'
  | _, _, _, _, .nil, _ => .nil
  | _, _, _, _, .cons h hs hall, hc => by
    subst hall
    exact .cons (h.keepsMember fun c he => hc c (Trace.mem_entries_append.2 (.inl he)))
      (hs.keepsMembers fun c he => hc c (Trace.mem_entries_append.2 (.inr he)))

/-- The members of a literal or a class are converted one by one. -/
theorem Becomes.keepsMembers (h : Becomes job w t t' tr) (ht : (membersOf? t).isSome = true)
    (hc : ∀ c, .converted c ∈ tr.entries → c ∈ conversions) : KeepsMembers job conversions t t' := by
  unfold membersOf? at ht
  split at ht <;> cases ht
  · obtain ⟨ms', tr₁, rfl, hms, rfl⟩ := h.node_of_not_function rfl rfl
    exact ⟨rfl, rfl, _, ms', rfl, rfl, hms.keepsMembers hc⟩
  · obtain ⟨cs', tr₁, rfl, hcs, rfl⟩ := h.node_of_not_function rfl rfl
    rcases hcs with _ | ⟨-, _ | ⟨hlist, -, rfl⟩, rfl⟩
    obtain ⟨_, ms', ⟨⟩, rfl, hms⟩ | ⟨hne, -⟩ := hlist.list_or
    · refine ⟨rfl, rfl, _, ms', rfl, rfl, hms.keepsMembers fun c he => hc c ?_⟩
      simp [Trace.mem_entries_append, he]
    · exact absurd rfl (hne _)

theorem hasDirective_of_members {marker : String} {ms : List Ast} (h : membersOf? t = some ms) :
    hasDirective marker t = false := by
  unfold membersOf? at h
  split at h
  · rfl
  · rfl
  · cases h

/-- Literals and classes are pieces of their own. -/
theorem isSite_of_members {τ : Stage} (he : τ.slot = .exported → τ.tree.kind? = some .funcExpr)
    (h : (membersOf? τ.tree).isSome = true) : τ.isSite = true := by
  unfold membersOf? at h
  split at h
  case h_3 => cases h
  all_goals
    rename_i ht
    simp_all [Piece.isSite, Piece.isElement, Ast.kind?]

/-- What is read at a place has its turn. -/
theorem Stage.exists_tree_at? {σ : Stage} {π : Path} (h : σ.tree.at? π = some t) :
    ∃ τ, σ.at? job π = some τ ∧ τ.tree = t := by
  induction π generalizing σ with
  | nil =>
    cases h
    exact ⟨σ, rfl, rfl⟩
  | cons i π ih =>
    obtain ⟨c, hc, h⟩ := Option.bind_eq_some_iff.1 h
    have hsome : (σ.part? job i).isSome = true := by
      rw [part?_isSome, Piece.part?, hc]
      rfl
    obtain ⟨υ, hυ⟩ := Option.isSome_iff_exists.1 hsome
    rw [Stage.part?_tree hυ] at hc
    cases hc
    obtain ⟨τ, hτ, rfl⟩ := ih h
    exact ⟨τ, by rw [Stage.at?, hυ]; exact hτ, rfl⟩

end Members

/-- **A method that becomes a value keeps its member.** The members of every object literal and every
class stay in order where the literal or class went, each with its key and its place on the class or on
its objects. A property that sets the prototype was read as one, or it is a converted method called
`__proto__`; a field called `constructor` was read as one, or it is a converted method of that name. -/
theorem transform_keeps_members (config : Config) (p : Program) (hroot : isModule p.module = true) :
    ∃ module,
      (transform config p).module = (if config.strictMode then ensureStrict module else module) ∧
      ∀ π t, p.module.at? π = some t → (membersOf? t).isSome = true →
        Arrives config.marker p.module module π
          (KeepsMembers (.ofProgram config p) (transform config p).conversions t) := by
  obtain ⟨hmodule, hconversions⟩ := transform_stage config hroot
  refine ⟨_, hmodule, fun π t ht hms => ?_⟩
  rw [hconversions]
  obtain ⟨τ, hτ, rfl⟩ : ∃ τ, (Stage.ofProgram p).at? (.ofProgram config p) π = some τ ∧ τ.tree = t :=
    Stage.exists_tree_at? ht
  have hsite := isSite_of_members (Stage.at?_exported hτ nofun) hms
  have hbecomes : Becomes (.ofProgram config p) τ.slot τ.tree (τ.outcome (.ofProgram config p)).result _ :=
    (proceed_proceeds τ.near τ.names τ.slot τ.tree).becomes
  have hmembers := hbecomes.keepsMembers hms fun c hc => mem_convertedIn.2 (Stage.at?_entries hτ hc)
  refine (Stage.carries _ _ π τ hτ hsite).imp ?_
  rintro u (rfl | ⟨-, rfl⟩)
  · exact hmembers
  · obtain ⟨-, ms', -, hms', -⟩ := hmembers.members
    rwa [stripDirective_eq_self (hasDirective_of_members hms')]

/-- `const o = { __proto__() { "worklet"; return 1; } };` -/
def samplePrototype : Program where
  filename := "/app/a.js"
  text := []
  module :=
    made (.module none)
      [madeVar .const "o"
        (made .object
          [.node .method ⟨13, 47⟩
            [made (.word "__proto__") [],
             .node (.function false false) ⟨13, 47⟩
              [.list [], .list [],
               made .block [madeStatement (madeString "worklet"), madeReturn (madeNumber 1)],
               .absent, .absent]]])]
  comments := default

/-- The literal gets a prototype. -/
theorem transform_keeps_members_samplePrototype :
    isModule samplePrototype.module = true ∧
      (transform .standard samplePrototype).conversions.length = 1 ∧
      ∃ module object, (transform .standard samplePrototype).module = module ∧
        samplePrototype.module.at? [0, 0, 1] = some object ∧
        (membersOf? object).any (·.any setsPrototype) = false ∧
        ((module.at? [0, 0, 1]).bind membersOf?).any (·.any setsPrototype) = true ∧
        Arrives Config.standard.marker samplePrototype.module module [0, 0, 1]
          (KeepsMembers (.ofProgram .standard samplePrototype)
            (transform .standard samplePrototype).conversions object) := by
  obtain ⟨module, hmodule, hmembers⟩ := transform_keeps_members .standard samplePrototype rfl
  refine ⟨rfl, by decide +kernel, module, _, hmodule, rfl, rfl, ?_, hmembers _ _ rfl rfl⟩
  have hprototype : (((transform .standard samplePrototype).module.at? [0, 0, 1]).bind membersOf?).any
      (·.any setsPrototype) = true := by decide +kernel
  rw [hmodule] at hprototype
  exact hprototype

end Worklet
