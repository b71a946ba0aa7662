import Worklet.Proofs.Convert.Counterparts
import Worklet.Proofs.Convert.Sealed

/-!
# Candidates of converted trees

A candidate is found in a tree whose parts are converted already. Here its facts are compared with
those of the function in the tree that was read.

Principal results: `keeps_ofFunction`, `keeps_ofArrow`, `keeps_ofGetter`, `keeps_ofSetter` — the
candidate of a converted function keeps the names of the function.
-/

set_option autoImplicit false

namespace Worklet

open Syntax Outline Scoping

variable {t : Ast} {s : Span} {cs cs' : List Ast} {c : Candidate}

section Views

variable {given : Option Span → List String} {lost : List String}

/-- Decorators may be left out: what they declare is let out of sight. -/
theorem keeps_undecorated (h : ∀ n ∈ declaredNames t, n ∈ lost) :
    Keeps given lost [] (outlineAs .refers t) [] :=
  .nil_right (fun n hn => h n (List.mem_append_left _ hn))
    fun n hn => h n (List.mem_append_right _ hn)

theorem keeps_pattern {p p' : Ast} (h : Converts given lost [] p p') :
    Keeps given lost [] (declareAll .param (boundNames p) ++ outlineAs .binds p)
      (declareAll .param (boundNames p') ++ outlineAs .binds p') := by
  rw [h.boundNames_eq]
  exact (Keeps.refl _).append (h.keeps .binds)

theorem keeps_patterns : ∀ {ps ps' : List Ast}, ConvertsAll given lost [] ps ps' →
    Keeps given lost [] (outlinePatterns ps) (outlinePatterns ps')
  | _, _, .nil => .refl _
  | _, _, .cons h hs => by
    rw [outlinePatterns, outlinePatterns]
    exact (keeps_pattern h).append (keeps_patterns hs)

theorem paramPatterns?_cons {ts patterns : List Ast} (h : paramPatterns? (t :: ts) = some patterns) :
    ∃ s d p ps, t = .node .param s [d, p] ∧ paramPatterns? ts = some ps ∧ patterns = p :: ps := by
  unfold paramPatterns? at h
  split at h
  · rename_i heq
    cases heq
  · rename_i s d p ts' heq
    cases heq
    obtain ⟨ps, hps, rfl⟩ := Option.map_eq_some_iff.1 h
    exact ⟨s, d, p, ps, rfl, hps, rfl⟩
  · cases h

theorem keeps_paramPatterns : ∀ {ps ps' : List Ast}, ConvertsAll given lost [] ps ps' →
    (∀ n ∈ leaksAll ps, n ∈ lost) → ∀ {patterns : List Ast}, paramPatterns? ps' = some patterns →
      Keeps given lost [] (outlineAll .refers ps) (outlinePatterns patterns)
  | _, _, .nil, _, patterns, hp => by
    cases hp
    exact .refl _
  | t :: ts, t' :: ts', .cons h hs, hl, patterns, hp => by
    obtain ⟨s, d', p', ps, rfl, hps, rfl⟩ := paramPatterns?_cons hp
    have ih := keeps_paramPatterns hs (fun n hn => hl n (by simp [leaksAll, hn])) hps
    rw [outlineAll, outlinePatterns]
    refine .append ?_ ih
    obtain ⟨cs, rfl, hcs⟩ := h.of_node rfl
    rcases hcs with _ | ⟨hd, _ | ⟨hpat, _ | _⟩⟩
    rename_i d p
    have hd : Keeps given lost [] (outlineAs .refers d) [] :=
      keeps_undecorated fun n hn => hl n (by simp [leaksAll, leaks, exposed, hn])
    have := hd.append (keeps_pattern hpat)
    simpa [outlineAs] using this

theorem keeps_ofFunction {kind : FunctionKind} {name : Option String} {a g : Bool}
    (h : ConvertsAll given lost [] cs cs') (hl : ∀ n ∈ leaksAll cs, n ∈ lost)
    (hc : Candidate.ofFunction kind name (.node (.function a g) s cs') = some c) :
    c.kind = kind ∧ c.name = name ∧ c.span = s ∧ ∃ params decorators body rest,
      cs = params :: decorators :: body :: rest ∧
      Keeps given lost [] (outlineAs .refers params ++ outlineIn .body body) c.facts := by
  obtain ⟨_, _, _, _, _, _, _, _, ⟨⟩, -, hp, rfl⟩ := Candidate.ofFunction_eq_some hc
  refine ⟨rfl, rfl, rfl, ?_⟩
  rcases h with _ | ⟨h₁, _ | ⟨h₂, _ | ⟨h₃, h⟩⟩⟩
  rcases converts_list_or h₁ with ⟨ts, _, rfl, ⟨⟩, hts⟩ | ⟨-, ht'⟩
  · refine ⟨_, _, _, _, rfl, ?_⟩
    have hparams := keeps_paramPatterns hts (fun n hn => hl n (by simp [leaksAll, leaks, hn])) hp
    rw [outlineAs]
    exact hparams.append (h₃.keeps .body)
  · exact absurd rfl (ht' _)

theorem outlineAs_unparen (t : Ast) : outlineAs .refers t.unparen = outlineAs .refers t := by
  fun_induction Ast.unparen t with
  | case1 s e ih => simp [outlineAs, outlineAll, isTypeKind, ih]
  | case2 t h => rfl

theorem outlineIn_body (ht : ∀ s ss, t ≠ .node .block s ss) :
    outlineIn .body t = outlineAs .refers t := by
  rw [outlineIn, bodyFacts_eq ht]

theorem outlineIn_arrowBody (t : Ast) :
    outlineIn .body (Candidate.arrowBody t) = outlineIn .body t := by
  unfold Candidate.arrowBody
  split
  · rfl
  · rename_i h
    rw [outlineIn_body fun s ss => h s ss, outlineIn, bodyFacts_block]
    simp [outlineAll, outlineAs, isTypeKind, outlineAs_unparen]

theorem keeps_ofArrow {a : Bool} (h : ConvertsAll given lost [] cs cs')
    (hc : Candidate.ofArrow (.node (.arrow a) s cs') = some c) :
    c.kind = .arrow ∧ c.span = s ∧ ∃ params body rest, cs = .list params :: body :: rest ∧
      Keeps given lost [] (outlinePatterns params ++ outlineIn .body body) c.facts := by
  obtain ⟨_, _, _, _, _, ⟨⟩, rfl⟩ := Candidate.ofArrow_eq_some hc
  refine ⟨rfl, rfl, ?_⟩
  rcases h with _ | ⟨h₁, _ | ⟨h₂, h⟩⟩
  rcases converts_list_or h₁ with ⟨ts, _, rfl, ⟨⟩, hts⟩ | ⟨-, ht'⟩
  · refine ⟨_, _, _, rfl, (keeps_patterns hts).append ?_⟩
    rw [outlineIn_arrowBody]
    exact h₂.keeps .body
  · exact absurd rfl (ht' _)

theorem keeps_ofGetter (h : ConvertsAll given lost [] cs cs')
    (hc : Candidate.ofGetter (.node .getter s cs') = some c) :
    c.kind = .objectGetter ∧ c.span = s ∧ ∃ key type body, cs = [key, type, body] ∧
      Keeps given lost [] (outlineIn .body body) c.facts := by
  obtain ⟨_, _, _, _, ⟨⟩, -, rfl⟩ := Candidate.ofGetter_eq_some hc
  refine ⟨rfl, rfl, ?_⟩
  rcases h with _ | ⟨h₁, _ | ⟨h₂, _ | ⟨h₃, _ | _⟩⟩⟩
  refine ⟨_, _, _, rfl, ?_⟩
  simpa [Candidate.facts, outlinePatterns] using h₃.keeps .body

theorem keeps_ofSetter (h : ConvertsAll given lost [] cs cs')
    (hc : Candidate.ofSetter (.node .setter s cs') = some c) :
    c.kind = .objectSetter ∧ c.span = s ∧ ∃ key this param body, cs = [key, this, param, body] ∧
      Keeps given lost []
        (declareAll .param (boundNames param) ++ outlineAs .binds param ++ outlineIn .body body)
        c.facts := by
  obtain ⟨_, _, _, _, _, ⟨⟩, -, rfl⟩ := Candidate.ofSetter_eq_some hc
  refine ⟨rfl, rfl, ?_⟩
  rcases h with _ | ⟨h₁, _ | ⟨h₂, _ | ⟨h₃, _ | ⟨h₄, _ | _⟩⟩⟩⟩
  refine ⟨_, _, _, _, rfl, ?_⟩
  simpa [Candidate.facts, outlinePatterns] using (keeps_pattern h₃).append (h₄.keeps .body)

end Views

/-! ### The functions that nodes are -/

section Entries

variable {fs : Span} {params decorators body : Ast} {rest : List Ast}

theorem mem_functionsOf_function (a g : Bool) :
    ⟨s, outlineAs .refers params ++ outlineIn .body body⟩ ∈
      functionsOf (.node (.function a g) s (params :: decorators :: body :: rest)) := by
  apply mem_functionsOf_own
  simp [ownFunction, plainRule, Rule.function, outlineIn]

theorem mem_functionsOf_funcExpr (name : Ast) (a g : Bool) :
    ⟨fs, declareName .function name ++ (outlineAs .refers params ++ outlineIn .body body)⟩ ∈
      functionsOf (.node .funcExpr s
        [name, .node (.function a g) fs (params :: decorators :: body :: rest)]) := by
  apply mem_functionsOf_own
  simp [ownFunction, plainRule, Rule.function, outlineIn]

theorem mem_functionsOf_arrow (a : Bool) (ps : List Ast) :
    ⟨s, outlinePatterns ps ++ outlineIn .body body⟩ ∈
      functionsOf (.node (.arrow a) s (.list ps :: body :: rest)) := by
  apply mem_functionsOf_own
  simp [ownFunction, plainRule, Rule.function, outlineIn]

theorem mem_functionsOf_getter (key type : Ast) :
    ⟨s, outlineIn .body body⟩ ∈ functionsOf (.node .getter s [key, type, body]) := by
  apply mem_functionsOf_own
  simp [ownFunction, plainRule, Rule.function, outlineIn]

theorem mem_functionsOf_setter (key this param : Ast) :
    ⟨s, declareAll .param (boundNames param) ++ outlineAs .binds param ++ outlineIn .body body⟩ ∈
      functionsOf (.node .setter s [key, this, param, body]) := by
  apply mem_functionsOf_own
  simp [ownFunction, plainRule, Rule.function, outlineIn]

end Entries

end Worklet
