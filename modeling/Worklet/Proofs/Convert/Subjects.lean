import Worklet.Proofs.Convert.Counterparts

/-!
# Functions before and after

A function is recognised again when its parts are converted: it stands where it stood and begins
with a marker if it did.

Principal results: `likeness_becomes` — that the parts of a node were converted is not seen when the
node is read; `subject?_like`, `subject?_becomes` — a node whose parts are converted is the function
that it was.
-/

set_option autoImplicit false

namespace Worklet

open Syntax

/-! ### Functions whose parts are converted -/

/-- The second candidate is the first with parts converted. -/
structure Candidate.Agrees (c c' : Candidate) : Prop where
  kind : c'.kind = c.kind
  name : c'.name = c.name
  span : c'.span = c.span
  isAsync : c'.isAsync = c.isAsync
  isGenerator : c'.isGenerator = c.isGenerator
  marked : ∀ marker, hasDirective marker c'.body = hasDirective marker c.body
  placed : ∀ marker, hasDirective marker c.body = true → c'.body.span = c.body.span
  stripped : ∀ marker, hasDirective marker (stripDirective marker c'.body) =
    hasDirective marker (stripDirective marker c.body)

/-- The second body is the first with parts converted: it begins with a marker as the first does, and
then stands in the same place. -/
structure BodyAgrees (b b' : Ast) : Prop where
  marked : ∀ marker, hasDirective marker b' = hasDirective marker b
  placed : ∀ marker, hasDirective marker b = true → b'.span = b.span

/-- The second function is the first with parts converted. -/
inductive Subject.Agrees : Subject → Subject → Prop
  | candidate {c c' : Candidate} : c.Agrees c' → Subject.Agrees (.candidate c) (.candidate c')
  | unsupported {shape : Shape} {span : Span} {body body' : Ast} : BodyAgrees body body' →
    Subject.Agrees (.unsupported shape span body) (.unsupported shape span body')

theorem Subject.Agrees.span_eq {a b : Subject} (h : a.Agrees b) : b.span = a.span := by
  cases h with
  | candidate h => exact h.span
  | unsupported _ => rfl

theorem Subject.Agrees.hasDirective_eq {a b : Subject} (h : a.Agrees b) (marker : String) :
    hasDirective marker b.body = hasDirective marker a.body := by
  cases h with
  | candidate h => exact h.marked marker
  | unsupported h => exact h.marked marker

theorem Subject.Agrees.placed {a b : Subject} (h : a.Agrees b) {marker : String}
    (hm : hasDirective marker a.body = true) : b.body.span = a.body.span := by
  cases h with
  | candidate h => exact h.placed marker hm
  | unsupported h => exact h.placed marker hm

/-- The second tree is what the first becomes in some slot. -/
def BecomesSome (job : Job) (t t' : Ast) : Prop :=
  ∃ w tr, Becomes job w t t' tr

section Becomes

variable {job : Job} {w : Slot} {ws : Nat → Slot} {t t' f f' : Ast} {ts ts' : List Ast}
  {tr : Trace}

theorem Becomes.bodyAgrees (h : Becomes job w t t' tr) : BodyAgrees t t' := by
  refine ⟨h.hasDirective_eq, fun marker hm => ?_⟩
  by_cases hb : ∃ s ss, t = .node .block s ss
  · obtain ⟨s, ss, rfl⟩ := hb
    cases h with
    | node _ hl _ _ _ => cases hl
    | statements _ _ => rfl
  · have hnone : t.stmts = [] := by
      unfold Ast.stmts
      split
      · exact absurd ⟨_, _, rfl⟩ hb
      · rfl
    simp [hasDirective, hnone] at hm

theorem Becomes.list_or (h : Becomes job w t t' tr) :
    (∃ ts ts', t = .list ts ∧ t' = .list ts' ∧ BecomesAll job w.item ts ts' tr) ∨
      (∀ ts, t ≠ .list ts) ∧ ∀ ts, t' ≠ .list ts := by
  cases h with
  | absent => exact .inr ⟨by simp, by simp⟩
  | list h => exact .inl ⟨_, _, rfl, rfl, h⟩
  | node cache _ _ htreat _ =>
    refine .inr ⟨by simp, ?_⟩
    rcases treat_cases htreat with rfl | ⟨f, p, cache', hf, hp, rfl⟩
    · simp
    · obtain ⟨k', s', cs'', hturned, -⟩ := (FormOf.of_form? hf).isTurned hp cache'
      simp [hturned]
  | statements _ _ => exact .inr ⟨by simp, by simp⟩
  | switchCase _ _ _ => exact .inr ⟨by simp, by simp⟩

/-- A node of a kind that is neither a function nor what one gives way to. -/
theorem Becomes.node_or (h : Becomes job w t t' tr) {k : Kind} (hk : isFunctionKind k = false)
    (hk' : isTurned k = false) (hl : ∀ s cs, holdsStatements (.node k s cs) = false) :
    (∃ s cs cs' tr₁, t = .node k s cs ∧ t' = .node k s cs' ∧
      BecomesAll job (job.config.hooks.childSlot w (.node k s cs)) cs cs' tr₁) ∨
      (∀ s cs, t ≠ .node k s cs) ∧ ∀ s cs, t' ≠ .node k s cs := by
  by_cases ht : ∃ s cs, t = .node k s cs
  · obtain ⟨s, cs, rfl⟩ := ht
    obtain ⟨cs', tr₁, rfl, hcs, -⟩ := h.node_of_not_function hk (hl s cs)
    exact .inl ⟨s, cs, cs', tr₁, rfl, rfl, hcs⟩
  · refine .inr ⟨fun s cs heq => ht ⟨s, cs, heq⟩, ?_⟩
    rintro s cs rfl
    obtain ⟨cs₀, -, -, -, rfl, -⟩ := h.of_node hk' (hl s cs)
    exact ht ⟨s, cs₀, rfl⟩

theorem BecomesAll.forall₂ : ∀ {ws : Nat → Slot} {ts ts' : List Ast} {tr : Trace},
    BecomesAll job ws ts ts' tr → List.Forall₂ (BecomesSome job) ts ts'
  | _, _, _, _, .nil => .nil
  | _, _, _, _, .cons h hs _ => .cons ⟨_, _, h⟩ hs.forall₂

/-- Only a block becomes a block, and a block stays one. -/
theorem Becomes.block_iff (h : Becomes job w t t' tr) :
    (∃ s ss, t = .node .block s ss) ↔ ∃ s ss, t' = .node .block s ss := by
  cases h with
  | absent => simp
  | list _ => simp
  | @node _ k s cs cs' _ _ _ _ cache hl _ htreat _ =>
    have hk : k ≠ .block := by
      rintro rfl
      cases hl
    have hturned : ∀ s ss, t' ≠ .node .block s ss := by
      rintro s ss rfl
      rcases treat_cases htreat with heq | ⟨f, p, cache', hf, hp, heq⟩
      · cases heq
        exact hk rfl
      · obtain ⟨k', s', cs'', hturned, hk'⟩ := (FormOf.of_form? hf).isTurned hp cache'
        rw [hturned] at heq
        cases heq
        cases hk'
    simp [hk, hturned]
  | statements _ _ => simp
  | switchCase _ _ _ => simp

/-- A function in a default export is converted with its parts only. -/
theorem Becomes.exported_or (h : Becomes job .exported t t' tr) :
    (∃ s cs cs' tr₁, t = .node .funcExpr s cs ∧ t' = .node .funcExpr s cs' ∧
      BecomesAll job (fun _ => .plain) cs cs' tr₁) ∨
      (∀ s cs, t ≠ .node .funcExpr s cs) ∧ ∀ s cs, t' ≠ .node .funcExpr s cs := by
  by_cases ht : ∃ s cs, t = .node .funcExpr s cs
  · obtain ⟨s, cs, rfl⟩ := ht
    cases h with
    | @node _ _ _ _ cs' _ tr₁ own _ cache _ hcs htreat hall =>
      have hform : form? .exported (.node .funcExpr s cs') = none := by
        unfold form?
        split <;> simp_all
      simp only [treat, hform, Prod.mk.injEq] at htreat
      exact .inl ⟨s, cs, cs', tr₁, rfl, htreat.1.symm, hcs⟩
    | statements hk _ => cases hk
  · refine .inr ⟨fun s cs heq => ht ⟨s, cs, heq⟩, ?_⟩
    rintro s cs rfl
    obtain ⟨cs₀, -, -, -, rfl, -⟩ := h.of_node rfl rfl
    exact ht ⟨s, cs₀, rfl⟩

/-- What the rules look for is neither a function nor what one gives way to. -/
theorem plain_of_isLookedFor {k : Kind} (h : isLookedFor k = true) :
    isFunctionKind k = false ∧ isTurned k = false ∧
      ∀ s cs, holdsStatements (.node k s cs) = false := by
  cases k <;> first | exact ⟨rfl, rfl, fun _ _ => rfl⟩ | cases h

/-- **That the parts of a node were converted is not seen when the node is read.** -/
theorem likeness_becomes (job : Job) : FunctionLikeness id (BecomesSome job) where
  present := fun ⟨_, _, h⟩ => h.resembles.present
  list := fun ⟨_, _, h⟩ => by
    rcases h.list_or with ⟨ts, ts', rfl, rfl, hts⟩ | hne
    · exact .inl ⟨ts, ts', rfl, rfl, hts.forall₂⟩
    · exact .inr hne
  block := fun ⟨_, _, h⟩ => h.block_iff
  node := fun ⟨_, _, h⟩ hk => by
    obtain ⟨hf, ht, hs⟩ := plain_of_isLookedFor hk
    rcases h.node_or hf ht hs with ⟨s, cs, cs', tr₁, rfl, rfl, hcs⟩ | hne
    · exact .inl ⟨s, s, cs, cs', rfl, rfl, fun _ => rfl, hcs.forall₂⟩
    · exact .inr hne
  absent := ⟨.plain, _, .absent⟩
  key := fun ⟨_, _, h⟩ => h.resembles.key
  privateName := fun ⟨_, _, h⟩ => h.resembles.privateName

/-- The function of a default export stays one until the export is converted. -/
theorem BecomesAll.defaultsAlike {s : Span} {cs cs' : List Ast}
    (h : BecomesAll job (job.config.hooks.childSlot w (.node .exportDefaultDecl s cs)) cs cs' tr)
    (ht : cs = [t]) (ht' : cs' = [t']) : DefaultsAlike (BecomesSome job) t t' := by
  subst ht ht'
  rcases h with _ | ⟨h, _, _⟩
  by_cases hf : ∃ fs ds, t = .node .funcExpr fs ds
  · obtain ⟨fs, ds, rfl⟩ := hf
    rcases Becomes.exported_or h with ⟨_, _, ds', _, heq, rfl, hds⟩ | ⟨hne, -⟩
    · cases heq
      exact .inl ⟨fs, fs, ds, ds', rfl, rfl, hds.forall₂⟩
    · exact absurd rfl (hne _ _)
  · refine .inr ⟨fun fs ds heq => hf ⟨fs, ds, heq⟩, ?_⟩
    rintro fs ds rfl
    obtain ⟨ds₀, -, -, -, rfl, -⟩ := h.of_node rfl rfl
    exact hf ⟨fs, ds₀, rfl⟩

theorem Becomes.bodyAgrees_functionBody (h : Becomes job w f f' tr) :
    BodyAgrees (functionBody f) (functionBody f') := by
  obtain ⟨_, _, hb⟩ := (likeness_becomes job).functionBody ⟨_, _, h⟩
  exact hb.bodyAgrees

theorem hasDirective_arrowBody (marker : String) (t : Ast) :
    hasDirective marker (Candidate.arrowBody t) = hasDirective marker t := by
  unfold Candidate.arrowBody
  split
  · rfl
  · rename_i h
    have hnone : t.stmts = [] := by
      unfold Ast.stmts
      split
      · exact absurd rfl (h _ _)
      · rfl
    simp only [hasDirective, hnone]
    rfl

theorem span_arrowBody (t : Ast) : (Candidate.arrowBody t).span = t.span := by
  unfold Candidate.arrowBody
  split <;> rfl

theorem hasDirective_stripped_arrowBody (marker : String) (t : Ast) :
    hasDirective marker (stripDirective marker (Candidate.arrowBody t)) =
      hasDirective marker (stripDirective marker t) := by
  by_cases hb : ∃ s ss, t = .node .block s ss
  · obtain ⟨s, ss, rfl⟩ := hb
    rfl
  · have hstays : stripDirective marker t = t := by
      unfold stripDirective
      split
      · exact absurd ⟨_, _, rfl⟩ hb
      · rfl
    rw [hstays, ← hasDirective_arrowBody marker t]
    unfold Candidate.arrowBody
    split
    · exact absurd ⟨_, _, rfl⟩ hb
    · rfl

theorem usesSuper_unparen (t : Ast) : usesSuper t.unparen = usesSuper t := by
  induction t using Ast.unparen.induct with
  | case1 s e ih => simp [Ast.unparen, ih, usesSuper, usesSuperAny]
  | case2 t h => rw [unparen_eq_self h]

theorem usesSuper_arrowBody (t : Ast) : usesSuper (Candidate.arrowBody t) = usesSuper t := by
  unfold Candidate.arrowBody
  split
  · rfl
  · simp [usesSuper, usesSuperAny, usesSuper_unparen]

/-! ### The function that a node is -/

theorem Candidate.Like.agrees {c c' : Candidate} (h : c.Like id (BecomesSome job) c') :
    c.Agrees c' := by
  obtain ⟨hkind, hname, hspan, hasync, hgen, -, ⟨_, _, hb⟩ | ⟨b, b', ⟨_, _, hb⟩, hbody, hbody'⟩⟩ := h
  · exact ⟨hkind, hname, hspan, hasync, hgen, hb.hasDirective_eq, hb.bodyAgrees.placed,
      hb.hasDirective_stripped⟩
  · refine ⟨hkind, hname, hspan, hasync, hgen, fun marker => ?_, fun marker hm => ?_, fun marker => ?_⟩
    · rw [hbody, hbody', hasDirective_arrowBody, hasDirective_arrowBody, hb.hasDirective_eq]
    · rw [hbody, hasDirective_arrowBody] at hm
      rw [hbody, hbody', span_arrowBody, span_arrowBody, hb.bodyAgrees.placed marker hm]
    · rw [hbody, hbody', hasDirective_stripped_arrowBody, hasDirective_stripped_arrowBody,
        hb.hasDirective_stripped]

section Node

variable {k : Kind} {s : Span} {cs cs' : List Ast}
  (h : BecomesAll job (job.config.hooks.childSlot w (.node k s cs)) cs cs' tr)
include h

/-- The function that a node is has its parts converted with those of the node. -/
theorem subject?_like :
    Option.Rel (Subject.Like id (BecomesSome job) s s) (subject? w (.node k s cs))
      (subject? w (.node k s cs')) := by
  refine (likeness_becomes job).subject? h.forall₂ w (fun _ => rfl) ?_
  rintro rfl t t' ht ht'
  exact h.defaultsAlike ht ht'

/-- **A node whose parts are converted is the function that it was.** -/
theorem subject?_becomes :
    Option.Rel Subject.Agrees (subject? w (.node k s cs)) (subject? w (.node k s cs')) := by
  refine rel_imp ?_ (subject?_like h)
  rintro _ _ (h | ⟨_, _, _, hb⟩)
  · exact .candidate h.agrees
  · exact .unsupported hb.bodyAgrees

end Node

end Becomes

end Worklet
