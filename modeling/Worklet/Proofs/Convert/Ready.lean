import Worklet.Proofs.Convert.Views

/-!
# Trees ready to be converted

* `accessorSpans` — the spans of the accessors of a tree.

Principal results: `Ready.child` — parts of a tree that is ready are ready; `renders_ofFunction`,
`renders_ofExpr`, `renders_ofGetter`, `renders_ofSetter` — a candidate found in a converted tree
stands for a function of the tree.
-/

set_option autoImplicit false

namespace Worklet

open Syntax Outline Scoping

/-! ### Accessors -/

/-- The span of the function of the accessor that a node is. -/
def ownAccessor : Ast → List Span
  | .node .getter s _ => [s]
  | .node .setter s _ => [s]
  | .node (.classMethod .getter _) _ [_, .node (.function _ _) s _] => [s]
  | .node (.classMethod .setter _) _ [_, .node (.function _ _) s _] => [s]
  | _ => []

mutual

def accessorSpans : Ast → List Span
  | .absent => []
  | .list ts => accessorSpansAll ts
  | .node k s cs => ownAccessor (.node k s cs) ++ accessorSpansAll cs

def accessorSpansAll : List Ast → List Span
  | [] => []
  | t :: ts => accessorSpans t ++ accessorSpansAll ts

end

variable {s : Span} {f : FunctionFacts} {cs : List Ast}

variable {ts rest cs' : List Ast} {t c decorators t' : Ast} {k : Kind} {fs : Span} {a g : Bool}
  {kind : FunctionKind} {name : Option String}

theorem mem_accessorSpansAll :
    s ∈ accessorSpansAll ts ↔ ∃ t ∈ ts, s ∈ accessorSpans t :=
  Joins.mem ⟨rfl, fun _ _ => rfl⟩

/-! ### Ready trees -/

/-- The functions of a tree. A bare function is the business of what stands around it. -/
def functionsWithin : Ast → List FunctionFacts
  | .node (.function _ _) _ cs => functionsOfAll cs
  | t => functionsOf t

/-- The table understands the functions of a tree, what the tree lets out of sight is lost, and its
accessors are given their arguments. -/
structure Ready (table : ScopeTable) (given : Option Span → List String) (lost : List String)
    (t : Ast) : Prop where
  known : ∀ f ∈ functionsWithin t, Understood table f
  leaks : ∀ n ∈ leaks t, n ∈ lost
  accessors : ∀ s ∈ accessorSpans t, ∀ own, table.functionScope? s = some own →
    "arguments" ∈ given (some s)

theorem functionsOf_of_functionsWithin (h : f ∈ functionsWithin t) :
    f ∈ functionsOf t := by
  unfold functionsWithin at h
  split at h
  · simp [functionsOf, h]
  · exact h

theorem functionsWithin_node (hd : isDefaultFunction (.node k s cs) = false) (hc : c ∈ cs)
    (hf : f ∈ functionsWithin c) : f ∈ functionsWithin (.node k s cs) := by
  have hall : f ∈ functionsOfAll cs :=
    mem_functionsOfAll.2 ⟨c, hc, functionsOf_of_functionsWithin hf⟩
  unfold functionsWithin
  split
  · rename_i heq
    cases heq
    exact hall
  · unfold functionsOf
    split
    · rename_i heq
      cases heq
    · rename_i heq
      cases heq
    · rename_i heq
      cases heq
      simp [isDefaultFunction] at hd
    · -- Of a function expression only the parts of its function count.
      rename_i heq
      cases heq
      rcases List.mem_pair.1 hc with rfl | rfl
      · simp [functionsOf_of_functionsWithin hf]
      · simp only [functionsWithin, functionsOfAll, List.mem_append] at hf
        simp only [List.mem_append]
        tauto
    · rename_i heq
      cases heq
      exact List.mem_append_right _ hall

theorem functionsOf_defaultFunction (hc : c ∈ cs) (hf : f ∈ functionsOf c) :
    f ∈ functionsOf (.node .exportDefaultDecl s [.node .funcExpr fs cs]) := by
  rcases cs with _ | ⟨name, _ | ⟨g, _ | ⟨d, ds⟩⟩⟩
  · cases hc
  · simp_all [functionsOf, functionsOfAll]
  · rcases List.mem_pair.1 hc with rfl | rfl <;> simp [functionsOf, hf]
  · have hall : f ∈ functionsOfAll (name :: g :: d :: ds) := mem_functionsOfAll.2 ⟨c, hc, hf⟩
    simp only [functionsOf, functionsOfAll, List.mem_append] at hall ⊢
    exact .inr (.inl (.inr hall))

section Ready

variable {table : ScopeTable} {given : Option Span → List String} {lost : List String}

theorem Ready.item (h : Ready table given lost (.list ts)) (ht : t ∈ ts) :
    Ready table given lost t where
  known f hf := h.known f (by
    simp only [functionsWithin, functionsOf]
    exact mem_functionsOfAll.2 ⟨t, ht, functionsOf_of_functionsWithin hf⟩)
  leaks n hn := h.leaks n (by simpa [Worklet.leaks] using mem_leaksAll.2 ⟨t, ht, hn⟩)
  accessors s hs := h.accessors s (by
    simpa [accessorSpans] using mem_accessorSpansAll.2 ⟨t, ht, hs⟩)

/-- **Parts of a tree that is ready are ready.** -/
theorem Ready.child (h : Ready table given lost (.node k s cs))
    (hd : isDefaultFunction (.node k s cs) = false) (hc : c ∈ cs) :
    Ready table given lost c where
  known f hf := h.known f (functionsWithin_node hd hc hf)
  leaks n hn := h.leaks n (List.mem_append_right _ (mem_leaksAll.2 ⟨c, hc, hn⟩))
  accessors s hs := h.accessors s (List.mem_append_right _ (mem_accessorSpansAll.2 ⟨c, hc, hs⟩))

theorem Ready.defaultChild
    (h : Ready table given lost (.node .exportDefaultDecl s [.node .funcExpr fs cs])) (hc : c ∈ cs) :
    Ready table given lost c where
  known f hf := h.known f (functionsOf_defaultFunction hc (functionsOf_of_functionsWithin hf))
  leaks n hn := h.leaks n (by
    simp only [Worklet.leaks, leaksAll, List.mem_append]
    exact .inr (.inl (.inr (mem_leaksAll.2 ⟨c, hc, hn⟩))))
  accessors a ha := h.accessors a (by
    simp only [accessorSpans, accessorSpansAll, List.mem_append]
    exact .inr (.inl (.inr (mem_accessorSpansAll.2 ⟨c, hc, ha⟩))))

end Ready

/-! ### Roles -/

theorem plainRule_binds (hp : isPatternKind k = false) (s : Span) (cs : List Ast) :
    plainRule .binds (.node k s cs) = plainRule .refers (.node k s cs) := by
  generalize ht : Ast.node k s cs = t
  fun_cases plainRule .binds t
  all_goals simp_all [plainRule, isPatternKind]

/-- Only patterns and blocks are read in more than one way. -/
theorem outlineIn_eq (m : Role) (hp : isPatternKind k = false) (hb : k ≠ .block) (s : Span)
    (cs : List Ast) : outlineIn m (.node k s cs) = outlineAs .refers (.node k s cs) := by
  cases m with
  | refers => rfl
  | binds =>
    rw [outlineIn, ← outlineBy_plainRule, plainRule_binds hp, outlineBy_plainRule]
  | body => exact outlineIn_body (by simp [hb])

/-! ### Functions among facts -/

/-- A candidate stands for a function that the table understands: it keeps the names of the
function, apart from the name by which the function knows itself. -/
structure Renders (table : ScopeTable) (given : Option Span → List String) (lost : List String)
    (c : Candidate) (f : FunctionFacts) : Prop where
  understood : Understood table f
  span : c.span = f.span
  facts : ∃ X, f.facts = declareAll .function (selfName? c).toList ++ X ∧ Keeps given lost [] X c.facts

/-- Facts that end with the scope of a function. Those before it declare only lost names. -/
def Bears (lost : List String) (os : List Outline) (f : FunctionFacts) : Prop :=
  ∃ outer, os = outer ++ [.scope .function (some f.span) f.facts] ∧
    (∀ n ∈ lexicalAll outer, n ∈ lost) ∧ ∀ n ∈ hoistedAll outer, n ∈ lost

/-- An expression that stands for a function: it mentions what the function mentions. -/
structure Wraps (given : Option Span → List String) (lost : List String) (f : FunctionFacts)
    (w : Ast) : Prop where
  isCall : ∃ callee args, w = madeCall callee args
  free : ∀ n ∈ freeAll given (outlineAs .refers w), n ∈ f.free ∨ n ∈ lost

section Views

variable {table : ScopeTable} {given : Option Span → List String} {lost caches : List String}
  {c : Candidate}

theorem Bears.keeps {os os' : List Outline} (h : Bears lost os f)
    (hf : ∀ n ∈ freeAll given os', n ∈ f.free ∨ n ∈ caches ++ lost) :
    Keeps given lost caches os os' := by
  obtain ⟨outer, rfl, hl, hh⟩ := h
  refine .of_free ?_ ?_ fun n hn => ?_
  · simpa [Outline.lexical] using hl
  · simpa [hoistedAll, Outline.hoisted, ScopeKind.isFunctionBoundary] using hh
  · refine (hf n hn).imp_left fun h => ?_
    rw [freeAll_append, List.mem_append]
    exact .inr (by simpa [freeAll, FunctionFacts.free] using h)

theorem lost_of_decorators {params : Ast}
    (hl : ∀ n ∈ leaks (.node (.function a g) s (params :: decorators :: rest)), n ∈ lost) :
    (∀ n ∈ lexicalAll (outlineAs .refers decorators), n ∈ lost) ∧
      ∀ n ∈ hoistedAll (outlineAs .refers decorators), n ∈ lost := by
  have hd : ∀ n ∈ declaredNames decorators, n ∈ lost := fun n hn =>
    hl n (by simp [leaks, exposed, hn])
  exact ⟨fun n hn => hd n (List.mem_append_left _ hn), fun n hn => hd n (List.mem_append_right _ hn)⟩

theorem bears_function {params body : Ast}
    (hl : ∀ n ∈ leaks (.node (.function a g) s (params :: decorators :: body :: rest)), n ∈ lost) :
    Bears lost
      (outlineAs .refers (.node (.function a g) s (params :: decorators :: body :: rest)))
      ⟨s, outlineAs .refers params ++ outlineIn .body body⟩ :=
  ⟨outlineAs .refers decorators, by simp [outlineAs, outlineIn], lost_of_decorators hl⟩

theorem converts_function (h : Converts given lost caches t (.node (.function a g) s cs')) :
    ∃ cs, t = .node (.function a g) s cs ∧ ConvertsAll given lost [] cs cs' := by
  simpa [isRepeated] using h.of_node rfl

/-- **The candidate of a converted function stands for the function.** -/
theorem renders_ofFunction (h : Converts given lost caches t t')
    (hu : ∀ f ∈ functionsOf t, Understood table f) (hl : ∀ n ∈ leaks t, n ∈ lost)
    (hk : kind ≠ .expression) (hc : Candidate.ofFunction kind name t' = some c) :
    ∃ a g s params decorators body rest,
      t = .node (.function a g) s (params :: decorators :: body :: rest) ∧
      Renders table given lost c ⟨s, outlineAs .refers params ++ outlineIn .body body⟩ := by
  obtain ⟨a, g, s, _, _, _, _, _, rfl, -⟩ := Candidate.ofFunction_eq_some hc
  obtain ⟨cs, rfl, hcs⟩ := converts_function h
  have hleaks : ∀ n ∈ leaksAll cs, n ∈ lost := fun n hn => hl n (List.mem_append_right _ hn)
  obtain ⟨hkind, -, hspan, params, decorators, body, rest, rfl, hkeeps⟩ :=
    keeps_ofFunction hcs hleaks hc
  have hself : selfName? c = none := by
    unfold selfName?
    rw [hkind]
    split
    · exact absurd rfl hk
    · rfl
  refine ⟨a, g, s, params, decorators, body, rest, rfl, ?_⟩
  exact ⟨hu _ (mem_functionsOf_function a g), hspan, _, by simp [hself, declareAll], hkeeps⟩

/-- The candidate of a converted function stands for a function that the function's facts bear. -/
theorem bears_ofFunction (h : Converts given lost caches t t')
    (hu : ∀ f ∈ functionsOf t, Understood table f) (hl : ∀ n ∈ leaks t, n ∈ lost)
    (hk : kind ≠ .expression) (c : Candidate) (hc : Candidate.ofFunction kind name t' = some c) :
    ∃ f, Bears lost (outlineAs .refers t) f ∧ Renders table given lost c f := by
  obtain ⟨a, g, s, params, decorators, body, rest, rfl, hrend⟩ := renders_ofFunction h hu hl hk hc
  exact ⟨_, bears_function hl, hrend⟩

/-- The candidate of a converted expression stands for a function that the expression bears. -/
theorem renders_ofExpr (h : Converts given lost caches t t') (hr : Ready table given lost t)
    (hc : Candidate.ofExpr t' = some c) :
    ∃ k s cs f, t = .node k s cs ∧ (k = .funcExpr ∨ ∃ a, k = .arrow a) ∧
      Bears lost (outlineAs .refers t) f ∧ Renders table given lost c f := by
  unfold Candidate.ofExpr at hc
  split at hc
  · rename_i es name' f'
    obtain ⟨cs, rfl, hcs⟩ := h.of_node rfl
    rcases hcs with _ | ⟨hname, _ | ⟨hf, _ | _⟩⟩
    rename_i name fn
    obtain ⟨a, g, s, _, _, _, _, _, rfl, -⟩ := Candidate.ofFunction_eq_some hc
    obtain ⟨cs, rfl, hcs⟩ := converts_function hf
    have hready : Ready table given lost (.node (.function a g) s cs) := hr.child rfl (by simp)
    have hleaks : ∀ n ∈ leaksAll cs, n ∈ lost := fun n hn =>
      hready.leaks n (List.mem_append_right _ hn)
    obtain ⟨hkind, hcname, hspan, params, decorators, body, rest, rfl, hkeeps⟩ :=
      keeps_ofFunction hcs hleaks hc
    have hself : selfName? c = name.identName? := by
      rw [selfName?, hkind, hcname]
      exact hname.identName?_eq
    refine ⟨_, _, _, ⟨s, declareName .function name ++
      (outlineAs .refers params ++ outlineIn .body body)⟩, rfl, .inl rfl, ?_, ?_⟩
    · exact ⟨outlineAs .refers decorators, by simp [outlineAs, outlineIn],
        lost_of_decorators hready.leaks⟩
    · exact ⟨hr.known _ (mem_functionsOf_funcExpr name a g), hspan, _, by
        rw [hself, declareName], hkeeps⟩
  · obtain ⟨a, s, _, _, _, rfl, -⟩ := Candidate.ofArrow_eq_some hc
    obtain ⟨cs, rfl, hcs⟩ := h.of_node rfl
    obtain ⟨hkind, hspan, params, body, rest, rfl, hkeeps⟩ := keeps_ofArrow hcs hc
    have hself : selfName? c = none := by rw [selfName?, hkind]
    refine ⟨_, _, _, ⟨s, outlinePatterns params ++ outlineIn .body body⟩, rfl, .inr ⟨a, rfl⟩,
      ⟨[], by simp [outlineAs, outlineIn], by simp, by simp [hoistedAll]⟩, ?_⟩
    exact ⟨hr.known _ (mem_functionsOf_arrow a params), hspan, _, by simp [hself, declareAll],
      hkeeps⟩

theorem renders_ofGetter (h : ConvertsAll given lost [] cs cs')
    (hr : Ready table given lost (.node .getter s cs))
    (hc : Candidate.ofGetter (.node .getter s cs') = some c) :
    ∃ key type body, cs = [key, type, body] ∧
      Renders table given lost c ⟨s, outlineIn .body body⟩ := by
  obtain ⟨hkind, hspan, key, type, body, rfl, hkeeps⟩ := keeps_ofGetter h hc
  have hself : selfName? c = none := by rw [selfName?, hkind]
  exact ⟨key, type, body, rfl, hr.known _ (mem_functionsOf_getter key type), hspan, _,
    by simp [hself, declareAll], hkeeps⟩

theorem renders_ofSetter (h : ConvertsAll given lost [] cs cs')
    (hr : Ready table given lost (.node .setter s cs))
    (hc : Candidate.ofSetter (.node .setter s cs') = some c) :
    ∃ key this param body, cs = [key, this, param, body] ∧
      Renders table given lost c
        ⟨s, declareAll .param (boundNames param) ++ outlineAs .binds param ++
          outlineIn .body body⟩ := by
  obtain ⟨hkind, hspan, key, this, param, body, rfl, hkeeps⟩ := keeps_ofSetter h hc
  have hself : selfName? c = none := by rw [selfName?, hkind]
  exact ⟨key, this, param, body, rfl, hr.known _ (mem_functionsOf_setter key this param), hspan, _,
    by simp [hself, declareAll], hkeeps⟩

end Views

end Worklet
