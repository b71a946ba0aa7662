import Worklet.Proofs.Convert.Ready
import Worklet.Proofs.Convert.Subjects
import Worklet.Proofs.Scope.Recast

/-!
# Scopes in converted trees

Converting makes functions and moves others, but it brings none into sight: where a converted tree
opens the scope of a function that was read, the tree did.

Principal result: `Becomes.opens` — a converted tree opens the scopes of no other functions.
-/

set_option autoImplicit false

namespace Worklet

open Syntax Outline Scoping

/-- Facts in the place of other facts: the functions whose scopes they open were made, or had their
scopes opened before. -/
def Opens (os os' : List Outline) : Prop :=
  ∀ s ∈ openedAll os', s.isMade = true ∨ s ∈ openedAll os

variable {k : ScopeKind} {f : Ast} {job : Job} {s : Span}

namespace Opens

variable {os os' os'' os₁ os₁' os₂ os₂' : List Outline}

theorem refl (os : List Outline) : Opens os os :=
  fun _ h => .inr h

theorem trans (h : Opens os os') (h' : Opens os' os'') : Opens os os'' :=
  fun s hs => (h' s hs).elim .inl (h s)

theorem append (h₁ : Opens os₁ os₁') (h₂ : Opens os₂ os₂') : Opens (os₁ ++ os₂) (os₁' ++ os₂') := by
  intro s hs
  rw [openedAll_append, List.mem_append] at hs ⊢
  rcases hs with hs | hs
  · exact (h₁ s hs).imp_right .inl
  · exact (h₂ s hs).imp_right .inr

theorem of_nil (h : openedAll os' = []) : Opens os os' := by
  intro s hs
  rw [h] at hs
  cases hs

theorem made_scope (h : Opens os os') :
    Opens os [.scope k (some Span.made) os'] := by
  intro s hs
  simp only [openedAll, opened, Option.toList_some, List.append_nil, List.mem_append,
    List.mem_singleton] at hs
  rcases hs with rfl | hs
  · exact .inl rfl
  · exact h s hs

theorem scope {f : Option Span} (h : Opens os os') :
    Opens [.scope k f os] [.scope k f os'] := by
  intro s hs
  simp only [openedAll, opened, List.append_nil, List.mem_append] at hs ⊢
  rcases hs with hs | hs
  · exact .inr (.inl hs)
  · exact (h s hs).imp_right .inr

theorem inside {f : Option Span} (h : Opens os os') :
    Opens [.scope k f os] os' := by
  intro s hs
  refine (h s hs).imp_right fun h => ?_
  simp [openedAll, opened, h]

theorem left (h : Opens os₁ os') : Opens (os₁ ++ os₂) os' :=
  fun s hs => (h s hs).imp_right fun h => by simp [h]

theorem right (h : Opens os₂ os') : Opens (os₁ ++ os₂) os' :=
  fun s hs => (h s hs).imp_right fun h => by simp [h]

end Opens

theorem congruent_opens : Congruent id Opens where
  nil := .refl _
  append := .append
  mention _ := .refl _
  declare _ _ := .refl _
  scope k f _ _ h := by
    rw [Option.map_id_apply]
    exact h.scope

/-! ### Made code -/

theorem openedAll_references (names : List String) : openedAll (names.map .reference) = [] :=
  Joins.eq_nil ⟨rfl, fun _ _ => rfl⟩ (by simp [opened])

theorem openedAll_declareAll (kind : BindingKind) (names : List String) :
    openedAll (declareAll kind names) = [] :=
  Joins.eq_nil ⟨rfl, fun _ _ => rfl⟩ (by simp [declareAll, opened])

theorem openedAll_metadataStmts (target : String) (m : Metadata) :
    openedAll (outlineAll .refers (metadataStmts target m)) = [] := by
  rw [outline_metadataStmts]
  simp [openedAll, opened, openedAll_references]

variable {k : Kind} {c : Candidate} {p : Prepared} {kind : FunctionKind} {name : Option String}

theorem opens_wrapper (hp : job.prepare c = .ok p) :
    Opens c.facts (outlineAs .refers p.wrapper) := by
  have hfacts : p.candidate.facts = c.facts := by
    rw [(Job.prepare_eq_ok hp).1, Candidate.facts_unmarked]
  have hparts : outlineAll .refers p.candidate.paramList ++
      bodyFacts p.candidate.body (outlineAs .refers p.candidate.body) = c.facts := by
    rw [← hfacts, Candidate.paramList, outlineAll_params]
    rfl
  rw [Prepared.wrapper, Candidate.toFunction, outline_wrap, hparts]
  refine .made_scope ?_
  intro s hs
  simp only [openedAll, opened, openedAll_append, openedAll_metadataStmts, Option.toList_some,
    List.nil_append, List.append_nil, List.cons_append, List.mem_cons] at hs
  rcases hs with rfl | hs
  · exact .inl rfl
  · exact .inr hs

/-- An accessor that hands over opens what its function opened. -/
theorem opens_delegate (hp : job.prepare c = .ok p) (cache : Option String) :
    Opens c.facts (outlineIn .body (delegate p.wrapper cache)) := by
  intro s hs
  refine opens_wrapper hp s ?_
  rw [outlineIn, outline_delegate] at hs
  simpa [delegate, madeBlock, made, bodyFacts, openedAll, opened, openedAll_references] using hs

/-! ### Functions -/

theorem opens_paramPatterns : ∀ {ps patterns : List Ast}, paramPatterns? ps = some patterns →
    Opens (outlineAll .refers ps) (outlinePatterns patterns)
  | [], _, h => by
    cases h
    exact .of_nil rfl
  | t :: ts, patterns, h => by
    obtain ⟨s, d, p, ps, rfl, hps, rfl⟩ := paramPatterns?_cons h
    rw [outlineAll, outlinePatterns, outlineAs, List.append_assoc, List.append_assoc]
    refine .right ?_
    rw [← List.append_assoc]
    exact .append (.refl _) (opens_paramPatterns hps)

theorem opens_ofFunction (h : Candidate.ofFunction kind name f = some c) :
    ∃ a g s ps d body rest, f = .node (.function a g) s (.list ps :: d :: body :: rest) ∧
      c.body = body ∧ c.span = s ∧ Opens (outlineAll .refers ps ++ outlineIn .body body) c.facts := by
  obtain ⟨_, _, _, _, _, _, _, _, rfl, -, hp, rfl⟩ := Candidate.ofFunction_eq_some h
  exact ⟨_, _, _, _, _, _, _, rfl, rfl, rfl, (opens_paramPatterns hp).append (.refl _)⟩

/-- A function opens the scopes of what its decorators, parameters and body open, and its own. -/
theorem openedAll_function (a g : Bool) (s : Span) (ps d body : Ast) (rest : List Ast) :
    openedAll (outlineAs .refers (.node (.function a g) s (ps :: d :: body :: rest))) =
      openedAll (outlineAs .refers d) ++ s :: openedAll (outlineAs .refers ps ++ outlineIn .body body) := by
  simp [outlineAs, openedAll, opened, outlineIn]

theorem opens_facts (h : Candidate.ofFunction kind name f = some c) :
    Opens (outlineAs .refers f) c.facts := by
  obtain ⟨a, g, s, ps, d, body, rest, rfl, -, -, hopens⟩ := opens_ofFunction h
  intro s' hs'
  refine (hopens s' hs').imp_right fun hs' => ?_
  rw [openedAll_function, outlineAs]
  exact List.mem_append_right _ (List.mem_cons_of_mem _ hs')

/-- A function expression opens what its function opens. -/
theorem openedAll_funcExpr (s : Span) (name : Ast)
    (hf : ∃ a g fs ps d body rest, f = .node (.function a g) fs (ps :: d :: body :: rest)) :
    openedAll (outlineAs .refers (.node .funcExpr s [name, f])) = openedAll (outlineAs .refers f) := by
  obtain ⟨a, g, fs, ps, d, body, rest, rfl⟩ := hf
  rw [openedAll_function]
  simp [outlineAs, outlineIn, openedAll, opened, declareName, openedAll_declareAll]

theorem opens_withBody {a g : Bool} {ps d body body' : Ast} {rest : List Ast}
    (h : Opens (outlineAs .refers ps ++ outlineIn .body body) (outlineIn .body body')) :
    Opens (outlineAs .refers (.node (.function a g) s (ps :: d :: body :: rest)))
      (outlineAs .refers (withBody body' (.node (.function a g) s (ps :: d :: body :: rest)))) := by
  intro s' hs'
  rw [withBody, openedAll_function] at hs'
  rw [openedAll_function]
  simp only [openedAll_append, List.mem_append, List.mem_cons] at hs' ⊢
  rcases hs' with hs' | hs' | hs' | hs'
  · exact .inr (.inl hs')
  · exact .inr (.inr (.inl hs'))
  · exact .inr (.inr (.inr (.inl hs')))
  · exact (h s' hs').imp_right fun h => .inr (.inr (by simpa using h))

theorem opens_declared (hc : Candidate.ofFunction kind name f = some c) (hp : job.prepare c = .ok p) :
    Opens (outlineAs .refers f) (outlineAs .refers (withBody p.candidate.body f)) := by
  obtain ⟨a, g, s, ps, d, body, rest, rfl, rfl, -, -⟩ := opens_ofFunction hc
  refine opens_withBody (.right ?_)
  rw [(Job.prepare_eq_ok hp).1, Candidate.unmarked, outlineIn_stripDirective]
  exact .refl _

/-- **What a function gives way to opens the scopes of no other functions.** -/
theorem FormOf.opens {w : Slot} {t : Ast} {f : Form} (h : FormOf w t f)
    (hp : f.subject.prepare job = .ok p) (cache : Option String) :
    Opens (outlineAs .refers t) (outlineAs .refers (f.turned p cache)) := by
  cases h with
  | privateMethod => cases hp
  | constructor => cases hp
  | @expression _ s name f c _ hc =>
    obtain ⟨a, g, fs, ps, d, body, rest, rfl, -⟩ := opens_ofFunction hc
    intro s' hs'
    rw [openedAll_funcExpr s name ⟨a, g, fs, .list ps, d, body, rest, rfl⟩]
    exact (opens_facts hc).trans (opens_wrapper hp) s' hs'
  | @arrow _ a s cs c hc =>
    obtain ⟨_, _, _, _, _, ⟨⟩, rfl⟩ := Candidate.ofArrow_eq_some hc
    rw [outlineAs]
    refine .inside (.trans ?_ (opens_wrapper hp))
    rw [Candidate.facts, outlineIn_arrowBody]
    exact .refl _
  | @declaration _ d s name f n c _ hc =>
    simp only [Form.declared, outlineAs]
    exact .append (.refl _) (opens_declared hc hp)
  | @method _ s key f c hc =>
    simp only [Form.wrapped, made, outlineAs, outlineAll, isTypeKind, List.append_nil]
    exact .append (.refl _) ((opens_facts hc).trans (opens_wrapper hp))
  | @getter _ s key type body c hc =>
    obtain ⟨_, _, _, _, ⟨⟩, -, rfl⟩ := Candidate.ofGetter_eq_some hc
    simp only [Form.accessor, outlineAs]
    exact .append (.refl _) (.scope (opens_delegate hp cache))
  | @setter _ s key this param body c hc =>
    obtain ⟨_, _, _, _, _, ⟨⟩, -, rfl⟩ := Candidate.ofSetter_eq_some hc
    simp only [Form.accessor, outlineAs]
    refine .append (.refl _) (.scope ?_)
    have hdelegate := opens_delegate hp cache
    simp only [Candidate.facts, outlinePatterns, List.append_nil] at hdelegate
    intro s' hs'
    rw [openedAll_append, List.mem_append] at hs'
    rcases hs' with hs' | hs'
    · exact .inr (by rw [openedAll_append]; exact List.mem_append_left _ hs')
    · exact hdelegate s' hs'
  | @classMethod _ kind mods s key f c _ _ hc =>
    simp only [Form.wrapped, outlineAs, outlineAll, isTypeKind, List.append_nil]
    exact .append (.refl _) ((opens_facts hc).trans (opens_wrapper hp))
  | @classAccessor _ kind mods s key f c _ _ hc =>
    simp only [Form.accessor, outlineAs, outlineAll, isTypeKind, List.append_nil]
    refine .append (.refl _) ?_
    obtain ⟨a, g, fs, ps, d, body, rest, rfl, -, -, hopens⟩ := opens_ofFunction hc
    exact opens_withBody (.trans (by simpa [outlineAs] using hopens) (opens_delegate hp cache))
  | @namedDefault s fs name f n c _ hc =>
    simp only [Form.declared, outlineAs]
    exact .append (.refl _) (opens_declared hc hp)
  | @namelessDefault s fs name f c _ hc =>
    simp only [Form.wrapped, outlineAs, outlineAll, isTypeKind, List.append_nil]
    exact .right ((opens_facts hc).trans (opens_wrapper hp))

/-! ### Converted trees -/

section Becomes

variable {w : Slot} {t t' : Ast} {tr : Trace}

theorem openedAll_attached (ms : List (String × Metadata)) :
    openedAll (outlineAll .refers (ms.flatMap fun x => metadataStmts x.1 x.2)) = [] := by
  induction ms with
  | nil => rfl
  | cons x ms ih =>
    rw [List.flatMap_cons, outlineAll_append, openedAll_append, openedAll_metadataStmts, ih]
    rfl

/-- What is put around statements opens nothing. -/
theorem BecomesStmts.opens : ∀ {ss ss' : List Ast} {entries : List Entry},
    BecomesStmts job ss ss' entries →
    (∀ t ∈ ss, ∀ t', BecomesSome job t t' → Opens (outlineAs .refers t) (outlineAs .refers t')) →
    Opens (outlineAll .refers ss) (outlineAll .refers ss') := by
  intro ss
  induction ss with
  | nil =>
    intro _ _ h _
    cases h
    exact .refl _
  | cons t ts hrec =>
    intro _ _ h ih
    obtain _ | @⟨_, t', _, ts', tr, _, h, hs⟩ := h
    have hrest := hrec hs fun t ht => ih t (List.mem_cons_of_mem _ ht)
    have hfirst := ih t List.mem_cons_self t' ⟨_, _, h⟩
    obtain ⟨ms, hms⟩ := h.stmts_eq
    rw [hms, List.append_assoc, outlineAll_append, outlineAll_cacheDecls, List.cons_append,
      outlineAll, outlineAll, outlineAll_append]
    intro s hs
    simp only [openedAll_append, openedAll_attached, List.nil_append, List.mem_append] at hs ⊢
    rcases hs with hs | hs | hs
    · rw [show (tr.caches.map fun n => Outline.declare n .let) = declareAll .let tr.caches from rfl,
        openedAll_declareAll] at hs
      cases hs
    · exact (hfirst s hs).imp_right .inl
    · exact (hrest s hs).imp_right .inr

theorem plain_of_isFunctionKind (h : isFunctionKind k = true) :
    isPatternKind k = false ∧ k ≠ .block := by
  revert h
  fun_cases isFunctionKind k <;> simp [isPatternKind]

theorem plain_of_isTurned (h : isTurned k = true) :
    isPatternKind k = false ∧ k ≠ .block := by
  revert h
  fun_cases isTurned k <;> simp [isPatternKind]

/-- In every role, what a function gives way to opens the scopes of no other functions. -/
theorem FormOf.opensIn {cs : List Ast} {f : Form} (h : FormOf w (.node k s cs) f)
    (hp : f.subject.prepare job = .ok p) (cache : Option String) (m : Role) :
    Opens (outlineIn m (.node k s cs)) (outlineIn m (f.turned p cache)) := by
  have hopens := h.opens hp cache
  obtain ⟨hpat, hblock⟩ := plain_of_isFunctionKind h.isFunctionKind
  obtain ⟨k', s', cs', hturned, hk'⟩ := h.isTurned hp cache
  obtain ⟨hpat', hblock'⟩ := plain_of_isTurned hk'
  rw [hturned] at hopens ⊢
  rw [outlineIn_eq m hpat hblock, outlineIn_eq m hpat' hblock']
  exact hopens

theorem outlineIn_statements (hk : isStatementList k = true) (m : Role) (s : Span) :
    (∀ ss, outlineIn m (.node k s ss) = outlineAll .refers ss) ∨
      ∀ ss, outlineIn m (.node k s ss) = [.scope .block none (outlineAll .refers ss)] := by
  revert hk
  fun_cases isStatementList k with
  | case1 =>
    intro _
    cases m with
    | body => exact .inl fun ss => by rw [outlineIn, bodyFacts_block]
    | refers => exact .inr fun ss => by rw [outlineIn, outlineAs]
    | binds => exact .inr fun ss => by rw [outlineIn, outlineAs]
  | case2 =>
    refine fun _ => .inl fun ss => ?_
    rw [outlineIn_eq m rfl (by simp)]
    simp [outlineAs, isTypeKind]
  | case3 =>
    refine fun _ => .inl fun ss => ?_
    rw [outlineIn_eq m rfl (by simp)]
    simp [outlineAs, isTypeKind]
  | case4 => simp

theorem part_mem_statements (hk : isStatementList k = true) (m : Role) (s : Span) {ss : List Ast}
    {u : Ast} (hu : u ∈ ss) :
    .part .refers u ∈ (plain.rule m (.node k s ss)).here ++ (plain.rule m (.node k s ss)).inside := by
  revert hk
  fun_cases isStatementList k with
  | case4 => simp
  | _ =>
    intro _
    cases m <;>
      simp [plain, plainRuleAs, plainRule, Rule.flat, Rule.block, Rule.inside, isTypeKind, hu]

/-- **A converted tree opens the scopes of no other functions.** -/
theorem Becomes.opens (h : Becomes job w t t' tr) (m : Role) :
    Opens (outlineIn m t) (outlineIn m t') := by
  refine plain.rule_induction (P := fun m t => ∀ t', BecomesSome job t t' →
    Opens (outlineIn m t) (outlineIn m t')) (fun m t ih => ?_) m t t' ⟨w, tr, h⟩
  rintro t' ⟨w, tr, h⟩
  cases h with
  | absent => exact .refl _
  | list h => exact (Likeness.rule_list h.forall₂ m).outlines congruent_opens ih
  | @node _ k s cs cs' _ _ _ _ cache _ hcs htreat _ =>
    have hnode : Opens (outlineIn m (.node k s cs)) (outlineIn m (.node k s cs')) := by
      refine ((likeness_becomes job).toLikeness.rule hcs.forall₂ m (fun _ => rfl) ?_).outlines
        congruent_opens ih
      rintro rfl t t' ht ht'
      exact hcs.defaultsAlike ht ht'
    rcases treat_cases htreat with rfl | ⟨f, p, cache', hf, hp, rfl⟩
    · exact hnode
    · exact hnode.trans ((FormOf.of_form? hf).opensIn hp cache' m)
  | @statements _ k s ss ss' _ hk hss =>
    have hopens := hss.opens fun u hu => ih .refers u (part_mem_statements hk m s hu)
    rcases outlineIn_statements hk m s with ho | ho
    · rw [ho, ho]
      exact hopens
    · rw [ho, ho]
      exact hopens.scope
  | @switchCase _ s test test' ss ss' _ _ _ htest hss _ =>
    have hpart : ∀ u ∈ test :: ss, .part .refers u ∈
        (plain.rule m (.node .switchCase s (test :: ss))).here ++
          (plain.rule m (.node .switchCase s (test :: ss))).inside := by
      have hrule : plain.rule m (.node .switchCase s (test :: ss)) =
          .flat (Item.parts .refers (test :: ss)) := by
        cases m <;> rfl
      intro u hu
      rw [hrule]
      exact List.mem_append_left _ (Item.part_mem_parts.2 ⟨rfl, hu⟩)
    have hopens := hss.opens fun u hu => ih .refers u (hpart u (List.mem_cons_of_mem _ hu))
    have htest := ih .refers test (hpart test List.mem_cons_self) test' ⟨_, _, htest⟩
    rw [outlineIn_eq m rfl (by simp), outlineIn_eq m rfl (by simp)]
    simp only [outlineAs, isTypeKind, outlineAll]
    exact htest.append hopens

end Becomes

end Worklet
