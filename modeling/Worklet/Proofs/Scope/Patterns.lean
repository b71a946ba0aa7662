import Mathlib.Data.List.Pairwise
import Worklet.Proofs.Convert.Places

/-!
# Patterns

A pattern has names that it binds, expressions that are evaluated when it is used, and types. Each of
them is a leaf of the pattern.

* `PatternLeaf`, `Holds` — a leaf, and where a pattern holds one.

Principal result: `pattern_leaves` — the bound names are the leaves that are names, what is referred to
is what the leaves that are expressions refer to, in order, and no name is left over.
-/

set_option autoImplicit false

namespace Worklet

open Syntax Scoping

/-! ### Leaves -/

/-- What a part of a pattern is. -/
inductive PatternRole where
  | name
  | pattern
  | elements
  | key
  | value
  | type

inductive PatternLeaf where
  | name (n : String)
  | value (e : Ast)
  | type (t : Ast)

/-- The roles of the two parts of a form that binds names. -/
def patternRoles? : Kind → Option (PatternRole × PatternRole)
  | .bindName _ => some (.name, .type)
  | .arrayPat _ | .objectPat _ => some (.elements, .type)
  | .restPat => some (.pattern, .type)
  | .assignPat | .patShorthand => some (.pattern, .value)
  | .patProp => some (.key, .pattern)
  | _ => none

theorem isSome_patternRoles? (k : Kind) : (patternRoles? k).isSome = isPatternKind k := by
  fun_cases patternRoles? k <;> simp_all [isPatternKind]

/-- A key that is written as it is. -/
def isWrittenKey : Kind → Bool
  | .word _ | .strLit .. | .numLit .. | .bigintLit .. | .privateName _ => true
  | _ => false

namespace PatternRole

/-- The tree is a leaf. What is no form that binds names is an expression. -/
def leaf? : PatternRole → Ast → Option PatternLeaf
  | .name, .node (.ident n) _ _ => some (.name n)
  | .pattern, .node k s cs => if isPatternKind k then none else some (.value (.node k s cs))
  | .value, .node k s cs => some (.value (.node k s cs))
  | .type, .node k s cs => some (.type (.node k s cs))
  | _, _ => none

/-- The roles of the parts of a tree. -/
def ofPart? : PatternRole → Ast → Option (Nat → PatternRole)
  | .elements, .list _ => some fun _ => .pattern
  | .key, .node .computed _ [_] => some fun _ => .value
  | .pattern, .node k _ [_, _] => (patternRoles? k).map fun roles i => if i = 0 then roles.1 else roles.2
  | _, _ => none

/-- The part is left out, or is a written key. -/
def isBare : PatternRole → Ast → Bool
  | .pattern, .absent | .value, .absent | .type, .absent => true
  | .key, .node k _ [] => isWrittenKey k
  | _, _ => false

end PatternRole

/-- A tree of the role holds a leaf at a place. -/
inductive Holds : PatternRole → Ast → Path → PatternLeaf → Prop
  | leaf {r : PatternRole} {t : Ast} {x : PatternLeaf} : r.leaf? t = some x → Holds r t [] x
  | part {r : PatternRole} {t c : Ast} {roles : Nat → PatternRole} {i : Nat} {π : Path}
    {x : PatternLeaf} : r.ofPart? t = some roles → t.parts[i]? = some c → Holds (roles i) c π x →
    Holds r t (i :: π) x

/-- A tree that may have the role: its parts may have theirs, down to the leaves. -/
inductive IsPattern : PatternRole → Ast → Prop
  | leaf {r : PatternRole} {t : Ast} {x : PatternLeaf} : r.leaf? t = some x → IsPattern r t
  | bare {r : PatternRole} {t : Ast} : r.isBare t = true → IsPattern r t
  | parts {r : PatternRole} {t : Ast} {roles : Nat → PatternRole} : r.ofPart? t = some roles →
    (∀ i c, t.parts[i]? = some c → IsPattern (roles i) c) → IsPattern r t

/-- The first place stands before the second, and outside it. -/
inductive Path.Before : Path → Path → Prop
  | here {i j : Nat} (π ρ : Path) : i < j → Before (i :: π) (j :: ρ)
  | inside (i : Nat) {π ρ : Path} : Before π ρ → Before (i :: π) (i :: ρ)

/-- No place is inside of two of which one stands before the other. -/
theorem Path.Before.apart {π ρ σ : Path} (h : π.Before ρ) (hπ : π <+: σ) : ¬ ρ <+: σ := by
  induction h generalizing σ with
  | here π ρ hij =>
    intro hρ
    obtain ⟨σ, rfl⟩ := hπ
    simp only [List.cons_append, List.cons_prefix_cons] at hρ
    omega
  | inside i _ ih =>
    intro hρ
    obtain ⟨σ, rfl⟩ := hπ
    rw [List.cons_append, List.cons_prefix_cons] at hρ
    exact ih (List.prefix_append _ σ) hρ.2

/-! ### What leaves say -/

/-- What is read of a tree is what is read of its leaves. -/
structure ReadsLeaves {α : Type} (f : PatternRole → Ast → List α) (g : PatternLeaf → List α) :
    Prop where
  leaf : ∀ {r t x}, r.leaf? t = some x → f r t = g x
  bare : ∀ {r t}, r.isBare t = true → f r t = []
  parts : ∀ {r t roles}, r.ofPart? t = some roles →
    f r t = t.parts.zipIdx.flatMap fun c => f (roles c.2) c.1

/-- The names that a tree binds. -/
def PatternRole.names : PatternRole → Ast → List String
  | .name, t => t.identName?.toList
  | .pattern, t => boundNames t
  | .elements, t => boundNamesAll t.items
  | _, _ => []

def PatternLeaf.names : PatternLeaf → List String
  | .name n => [n]
  | _ => []

/-- The facts of a tree, apart from what it binds. -/
def PatternRole.facts : PatternRole → Ast → List Outline
  | .pattern, t | .elements, t => outlineAs .binds t
  | .key, t | .value, t => outlineAs .refers t
  | _, _ => []

def PatternLeaf.facts : PatternLeaf → List Outline
  | .value e => outlineAs .refers e
  | _ => []

theorem boundNamesAll_eq_flatMap (ts : List Ast) : boundNamesAll ts = ts.flatMap boundNames :=
  Joins.eq_flatMap ⟨rfl, fun _ _ => rfl⟩ ts

theorem outlineAll_eq_flatMap (naming : Naming) (ts : List Ast) :
    outlineAll naming ts = ts.flatMap (outlineAs naming) :=
  Joins.eq_flatMap ⟨rfl, fun _ _ => rfl⟩ ts

theorem flatMap_zipIdx_fst {α β : Type} (f : α → List β) (l : List α) :
    (l.zipIdx.flatMap fun c => f c.1) = l.flatMap f := by
  rw [← List.flatMap_map, List.zipIdx_map_fst]

theorem readsLeaves_names : ReadsLeaves PatternRole.names PatternLeaf.names where
  leaf {r t x} h := by
    revert h
    fun_cases r.leaf? t with
    | case3 k s cs hk =>
      rintro ⟨⟩
      exact boundNames_eq_nil (by simpa using hk)
    | _ => rintro ⟨⟩ <;> rfl
  bare {r t} h := by
    revert h
    fun_cases r.isBare t <;> first | exact fun _ => rfl | simp
  parts {r t roles} h := by
    revert h
    fun_cases r.ofPart? t with
    | case1 ts =>
      rintro ⟨⟩
      exact (boundNamesAll_eq_flatMap ts).trans (flatMap_zipIdx_fst boundNames ts).symm
    | case2 => rintro ⟨⟩; rfl
    | case3 k s a b =>
      intro h
      obtain ⟨roles, hk, rfl⟩ := Option.map_eq_some_iff.1 h
      revert hk
      fun_cases patternRoles? k <;> rintro ⟨⟩ <;>
        simp [PatternRole.names, Ast.parts, boundNames, boundNames_bindName, boundNames_arrayPat,
          boundNames_objectPat]
    | case4 => simp

theorem readsLeaves_facts : ReadsLeaves PatternRole.facts PatternLeaf.facts where
  leaf {r t x} h := by
    revert h
    fun_cases r.leaf? t with
    | case3 k s cs hk =>
      rintro ⟨⟩
      rw [PatternRole.facts, ← outlineBy_plainRule, plainRule_binds (by simpa using hk),
        outlineBy_plainRule, PatternLeaf.facts]
    | _ => rintro ⟨⟩ <;> rfl
  bare {r t} h := by
    revert h
    fun_cases r.isBare t with
    | case4 k s =>
      fun_cases isWrittenKey k <;> simp [PatternRole.facts, outlineAs, outlineAll]
    | _ => simp [PatternRole.facts, outlineAs]
  parts {r t roles} h := by
    revert h
    fun_cases r.ofPart? t with
    | case1 ts =>
      rintro ⟨⟩
      exact (outlineAs.eq_2 .binds ts).trans ((outlineAll_eq_flatMap .binds ts).trans
        (flatMap_zipIdx_fst (outlineAs .binds) ts).symm)
    | case2 s e =>
      rintro ⟨⟩
      simp [PatternRole.facts, Ast.parts, outlineAs, outlineAll, isTypeKind]
    | case3 k s a b =>
      intro h
      obtain ⟨roles, hk, rfl⟩ := Option.map_eq_some_iff.1 h
      revert hk
      fun_cases patternRoles? k <;> rintro ⟨⟩ <;> simp [PatternRole.facts, Ast.parts, outlineAs]
    | case4 => simp

/-! ### All leaves -/

/-- All leaves of a tree, in order. No name is left over. -/
structure Splits (r : PatternRole) (t : Ast) (leaves : List (Path × PatternLeaf)) : Prop where
  ordered : leaves.Pairwise fun x y => x.1.Before y.1
  mem : ∀ π x, (π, x) ∈ leaves ↔ Holds r t π x
  covers : ∀ π n s cs, t.at? π = some (.node (.ident n) s cs) → ∃ x ∈ leaves, x.1 <+: π
  reads : ∀ {α : Type} {f : PatternRole → Ast → List α} {g : PatternLeaf → List α},
    ReadsLeaves f g → f r t = leaves.flatMap fun x => g x.2

variable {r : PatternRole} {t : Ast}

theorem PatternRole.ofPart?_of_leaf? {x : PatternLeaf} (h : r.leaf? t = some x) :
    r.ofPart? t = none := by
  revert h
  fun_cases r.leaf? t with
  | case3 k s cs hk =>
    intro _
    have hroles : patternRoles? k = none := by
      rw [← Option.not_isSome_iff_eq_none, isSome_patternRoles?]
      exact hk
    unfold ofPart?
    split <;> simp_all
  | _ => simp [ofPart?]

theorem PatternRole.ofPart?_ident (r : PatternRole) (n : String) (s : Span) (cs : List Ast) :
    r.ofPart? (.node (.ident n) s cs) = none := by
  generalize ht : Ast.node (.ident n) s cs = t
  fun_cases ofPart? r t <;> cases ht <;> rfl

theorem PatternRole.of_isBare (h : r.isBare t = true) :
    r.leaf? t = none ∧ r.ofPart? t = none ∧ t.parts = [] ∧ ∀ n s cs, t ≠ .node (.ident n) s cs := by
  revert h
  fun_cases r.isBare t with
  | case4 k s => cases k <;> simp [isWrittenKey, leaf?, ofPart?, Ast.parts]
  | _ => simp [leaf?, ofPart?, Ast.parts]

theorem splits_leaf {x : PatternLeaf} (h : r.leaf? t = some x) :
    Splits r t [([], x)] where
  ordered := List.pairwise_singleton ..
  mem π y := by
    constructor
    · rintro (_ | ⟨_, ⟨⟩⟩)
      exact .leaf h
    · intro hy
      cases hy with
      | leaf hy =>
        cases h.symm.trans hy
        exact List.mem_singleton_self _
      | part hroles => cases (PatternRole.ofPart?_of_leaf? h).symm.trans hroles
  covers π _ _ _ _ := ⟨_, List.mem_singleton_self _, List.nil_prefix⟩
  reads hf := by simp [hf.leaf h]

theorem splits_bare (h : r.isBare t = true) : Splits r t [] := by
  obtain ⟨hleaf, hroles, hparts, hne⟩ := PatternRole.of_isBare h
  refine ⟨.nil, fun π x => ⟨nofun, fun hx => ?_⟩, fun π n s cs hπ => ?_, fun hf => hf.bare h⟩
  · cases hx with
    | leaf hx => cases hleaf.symm.trans hx
    | part hx => cases hroles.symm.trans hx
  · cases π with
    | nil => exact absurd (Option.some.inj hπ) (hne n s cs)
    | cons i π => simp [Ast.at?, hparts] at hπ

/-- The leaves of a tree with parts: those of the parts, one part after the other. -/
theorem splits_parts {roles : Nat → PatternRole} (h : r.ofPart? t = some roles)
    {L : Nat → List (Path × PatternLeaf)}
    (hL : ∀ i c, t.parts[i]? = some c → Splits (roles i) c (L i)) :
    Splits r t (t.parts.zipIdx.flatMap fun c => (L c.2).map fun x => (c.2 :: x.1, x.2)) where
  ordered := by
    rw [List.pairwise_flatMap]
    constructor
    · rintro ⟨c, i⟩ hc
      exact List.pairwise_map.2 ((hL i c (List.mem_zipIdx_iff_getElem?.1 hc)).ordered.imp (.inside i))
    · have hlt : (t.parts.zipIdx.map Prod.snd).Pairwise (· < ·) := by
        rw [List.zipIdx_map_snd]
        exact List.pairwise_lt_range'
      refine (List.pairwise_map.1 hlt).imp fun hij x hx y hy => ?_
      obtain ⟨x, -, rfl⟩ := List.mem_map.1 hx
      obtain ⟨y, -, rfl⟩ := List.mem_map.1 hy
      exact .here _ _ hij
  mem π x := by
    simp only [List.mem_flatMap, List.mem_map]
    constructor
    · rintro ⟨⟨c, i⟩, hc, ⟨ρ, x⟩, hx, ⟨⟩⟩
      have hc := List.mem_zipIdx_iff_getElem?.1 hc
      exact .part h hc (((hL i c hc).mem ρ x).1 hx)
    · intro hx
      cases hx with
      | leaf hx => cases (PatternRole.ofPart?_of_leaf? hx).symm.trans h
      | @part _ _ c _ i ρ _ hroles hc hx =>
        cases h.symm.trans hroles
        exact ⟨(c, i), List.mem_zipIdx_iff_getElem?.2 hc, (ρ, x), ((hL i c hc).mem ρ x).2 hx, rfl⟩
  covers π n s cs hπ := by
    cases π with
    | nil =>
      cases hπ
      cases (r.ofPart?_ident n s cs).symm.trans h
    | cons i π =>
      obtain ⟨c, hc, hπ⟩ := Option.bind_eq_some_iff.1 hπ
      obtain ⟨x, hx, hpre⟩ := (hL i c hc).covers π n s cs hπ
      refine ⟨(i :: x.1, x.2), ?_, List.cons_prefix_cons.2 ⟨rfl, hpre⟩⟩
      exact List.mem_flatMap.2 ⟨(c, i), List.mem_zipIdx_iff_getElem?.2 hc, List.mem_map_of_mem hx⟩
  reads {α f g} hf := by
    rw [hf.parts h, List.flatMap_assoc]
    refine List.flatMap_congr fun ⟨c, i⟩ hc => ?_
    rw [List.flatMap_map]
    exact (hL i c (List.mem_zipIdx_iff_getElem?.1 hc)).reads hf

theorem IsPattern.splits (h : IsPattern r t) :
    ∃ leaves, Splits r t leaves := by
  induction h with
  | leaf hx => exact ⟨_, splits_leaf hx⟩
  | bare hb => exact ⟨_, splits_bare hb⟩
  | @parts r t roles hroles _ ih =>
    have hL : ∀ i, ∃ leaves, ∀ c, t.parts[i]? = some c → Splits (roles i) c leaves := by
      intro i
      cases hc : t.parts[i]? with
      | none => exact ⟨[], nofun⟩
      | some c =>
        obtain ⟨leaves, hl⟩ := ih i c hc
        exact ⟨leaves, by rintro _ ⟨⟩; exact hl⟩
    choose L hL using hL
    exact ⟨_, splits_parts hroles hL⟩

/-- A pattern has its leaves in order, apart from each other. Its bound names are the leaves that are
names. It refers to what the leaves that are expressions refer to, in order. Every name in it is in
just one leaf. -/
theorem pattern_leaves {p : Ast} (h : IsPattern .pattern p) :
    ∃ leaves : List (Path × PatternLeaf),
      leaves.Pairwise (fun x y => x.1.Before y.1) ∧
      (∀ π x, (π, x) ∈ leaves ↔ Holds .pattern p π x) ∧
      boundNames p = leaves.flatMap (fun x => x.2.names) ∧
      outlineAs .binds p = leaves.flatMap (fun x => x.2.facts) ∧
      ∀ π n s cs, p.at? π = some (.node (.ident n) s cs) → ∃! x, x ∈ leaves ∧ x.1 <+: π := by
  obtain ⟨leaves, hl⟩ := h.splits
  refine ⟨leaves, hl.ordered, hl.mem, hl.reads readsLeaves_names, hl.reads readsLeaves_facts, ?_⟩
  intro π n s cs hπ
  obtain ⟨x, hx, hpre⟩ := hl.covers π n s cs hπ
  refine ⟨x, ⟨hx, hpre⟩, fun y ⟨hy, hpre'⟩ => ?_⟩
  have happart : leaves.Pairwise fun x y => ¬ (x.1 <+: π ∧ y.1 <+: π) :=
    hl.ordered.imp fun hxy hpre => hxy.apart hpre.1 hpre.2
  have hsymm : Std.Symm fun x y : Path × PatternLeaf => ¬ (x.1 <+: π ∧ y.1 <+: π) :=
    ⟨fun x y hxy hyx => hxy hyx.symm⟩
  by_contra hne
  exact happart.forall hy hx hne ⟨hpre', hpre⟩

theorem IsPattern.node {k : Kind} {s : Span} {a b : Ast} {r' : PatternRole}
    (hk : patternRoles? k = some (r, r')) (ha : IsPattern r a) (hb : IsPattern r' b) :
    IsPattern .pattern (.node k s [a, b]) := by
  refine .parts (by rw [PatternRole.ofPart?, hk]; rfl) fun i c hc => ?_
  match i, hc with
  | 0, rfl => exact ha
  | 1, rfl => exact hb

theorem IsPattern.list {ts : List Ast} (h : ∀ t ∈ ts, IsPattern .pattern t) :
    IsPattern .elements (.list ts) :=
  .parts rfl fun _ _ hc => h _ (List.mem_of_getElem? hc)

/-- The pattern `{ a = b, [c]: [d, , ...e], "k": f }: T`, whose last part is an expression. -/
def samplePattern : Ast :=
  made (.objectPat false) [.list [
    made .patShorthand [madeBinding "a", madeIdent "b"],
    made .patProp [made .computed [madeIdent "c"],
      made (.arrayPat false) [
        .list [madeBinding "d", .absent, made .restPat [madeBinding "e", .absent]], .absent]],
    made .patProp [madeString "k", madeIdent "f"]],
    made .typeAnn [made .typeRef [madeIdent "T", .absent]]]

theorem isPattern_madeBinding (n : String) : IsPattern .pattern (madeBinding n) :=
  .node rfl (.leaf rfl) (.bare rfl)

theorem isPattern_sample : IsPattern .pattern samplePattern := by
  refine .node rfl (.list ?_) (.leaf rfl)
  simp only [List.forall_mem_cons, List.not_mem_nil, false_implies, implies_true, and_true]
  refine ⟨.node rfl (isPattern_madeBinding _) (.leaf rfl), .node rfl ?_ (.node rfl (.list ?_) (.bare rfl)),
    .node rfl (.bare rfl) (.leaf rfl)⟩
  · refine .parts rfl fun i c hc => ?_
    rcases i with _ | i
    · cases hc
      exact .leaf rfl
    · cases hc
  · simp only [List.forall_mem_cons, List.not_mem_nil, false_implies, implies_true, and_true]
    exact ⟨isPattern_madeBinding _, .bare rfl, .node rfl (isPattern_madeBinding _) (.bare rfl)⟩

theorem samplePattern_leaves : ∃ leaves : List (Path × PatternLeaf),
    leaves.flatMap (fun x => x.2.names) = ["a", "d", "e"] ∧
    leaves.flatMap (fun x => x.2.facts) = ["b", "c", "f"].map .reference ∧
    leaves.Pairwise fun x y => x.1.Before y.1 := by
  obtain ⟨leaves, hordered, -, hnames, hfacts, -⟩ := pattern_leaves isPattern_sample
  exact ⟨leaves, hnames.symm, hfacts.symm, hordered⟩

end Worklet
