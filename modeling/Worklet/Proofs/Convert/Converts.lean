import Worklet.Proofs.Convert.Keeps
import Worklet.Proofs.Scope.Likeness

/-!
# Converted trees

How a converted tree relates to the tree that it comes from.

Principal results: `likeness_converts` — the rules of scopes do not see that the parts of a node were
converted; `Converts.keeps` — a converted tree keeps the names.
-/

set_option autoImplicit false

namespace Worklet

open Syntax Outline Scoping

/-- The second tree may be put in the place of the first. -/
def givesWay : Ast → Ast → Bool
  | .node .block _ _, .node .block _ _ => true
  | .node .moduleBlock _ _, .node .moduleBlock _ _ => true
  | .node (.module _) _ _, .node (.module _) _ _ => true
  | .node .switchCase _ _, .node .switchCase _ _ => true
  | .node .funcExpr _ _, .node .call _ _ => true
  | .node (.arrow _) _ _, .node .call _ _ => true
  | .node .method _ _, .node .keyValue _ [_, .node .call _ _] => true
  | .node .getter _ _, .node .getter _ _ => true
  | .node .setter _ _, .node .setter _ _ => true
  | .node (.classMethod _ _) _ _, .node (.classMethod _ _) _ _ => true
  | .node (.classMethod _ _) _ _, .node (.classProp _) _ _ => true
  | .node .exportDefaultDecl _ [.node .funcExpr _ _], .node .exportDefaultDecl _ _ => true
  | .node .exportDefaultDecl _ [.node .funcExpr _ _], .node .exportDefaultExpr _ _ => true
  | _, _ => false

/-- A function that a module exports by default. Its name is no name inside it. -/
def isDefaultFunction : Ast → Bool
  | .node .exportDefaultDecl _ [.node .funcExpr _ _] => true
  | _ => false

mutual

/-- A tree and what it is converted to. The new tree may mention the names of `caches`, but not
inside a function or loop, and those of `lost`. -/
inductive Converts (given : Option Span → List String) (lost : List String) :
    List String → Ast → Ast → Prop
  | absent {caches : List String} : Converts given lost caches .absent .absent
  | list {caches : List String} {ts ts' : List Ast} :
    ConvertsAll given lost caches ts ts' → Converts given lost caches (.list ts) (.list ts')
  | node {caches : List String} {k : Kind} {s : Span} {cs cs' : List Ast} :
    isDefaultFunction (.node k s cs) = false →
    ConvertsAll given lost (if isRepeated k then [] else caches) cs cs' →
    Converts given lost caches (.node k s cs) (.node k s cs')
  | replaced {caches : List String} {t t' : Ast} :
    givesWay t t' = true →
    (∀ m, Keeps given lost caches (outlineIn m t) (outlineIn m t')) →
    Converts given lost caches t t'

inductive ConvertsAll (given : Option Span → List String) (lost : List String) :
    List String → List Ast → List Ast → Prop
  | nil {caches : List String} : ConvertsAll given lost caches [] []
  | cons {caches : List String} {t t' : Ast} {ts ts' : List Ast} :
    Converts given lost caches t t' → ConvertsAll given lost caches ts ts' →
    ConvertsAll given lost caches (t :: ts) (t' :: ts')

end

variable {caches : List String} {t t' : Ast} {k : Kind} {s : Span} {cs' : List Ast}

section Converts

variable {given : Option Span → List String} {lost : List String}

mutual

theorem Converts.mono : ∀ {caches more : List String} {t t' : Ast},
    Converts given lost caches t t' → (∀ n ∈ caches, n ∈ more) →
      Converts given lost more t t'
  | _, _, _, _, .absent, _ => .absent
  | _, _, _, _, .list h, hm => .list (h.mono hm)
  | caches, more, .node k s cs, _, .node hd h, hm => .node hd (h.mono (by
      intro n hn
      split at hn
      · cases hn
      · rename_i hk
        rw [if_neg hk]
        exact hm n hn))
  | _, _, _, _, .replaced hg h, hm => .replaced hg fun m => (h m).mono hm

theorem ConvertsAll.mono : ∀ {caches more : List String} {ts ts' : List Ast},
    ConvertsAll given lost caches ts ts' → (∀ n ∈ caches, n ∈ more) →
      ConvertsAll given lost more ts ts'
  | _, _, _, _, .nil, _ => .nil
  | _, _, _, _, .cons h hs, hm => .cons (h.mono hm) (hs.mono hm)

end

/-- The kinds of nodes that are put in the place of others. -/
def isReplacement : Kind → Bool
  | .block | .moduleBlock | .module _ | .switchCase | .call | .keyValue | .getter | .setter
  | .classMethod .. | .classProp _ | .exportDefaultDecl | .exportDefaultExpr => true
  | _ => false

/-- A node that is not put in the place of another comes from the same node. -/
theorem Converts.of_node (h : Converts given lost caches t (.node k s cs'))
    (hk : isReplacement k = false) :
    ∃ cs, t = .node k s cs ∧
      ConvertsAll given lost (if isRepeated k then [] else caches) cs cs' := by
  generalize ht : Ast.node k s cs' = t' at h
  cases h with
  | absent => cases ht
  | list _ => cases ht
  | node _ h =>
    cases ht
    exact ⟨_, rfl, h⟩
  | replaced hg _ =>
    revert hg
    fun_cases givesWay t t' <;> simp_all [isReplacement]

/-! ### What stays -/

theorem ConvertsAll.forall₂ : ∀ {ts ts' : List Ast},
    ConvertsAll given lost caches ts ts' → List.Forall₂ (Converts given lost caches) ts ts'
  | _, _, .nil => .nil
  | _, _, .cons h hs => .cons h hs.forall₂

/-- The children of a converted node, which may mention the names that the node may. -/
theorem ConvertsAll.children {cs : List Ast}
    (h : ConvertsAll given lost (if isRepeated k then [] else caches) cs cs') :
    List.Forall₂ (Converts given lost caches) cs cs' :=
  (h.mono fun n hn => by
    split at hn
    · cases hn
    · exact hn).forall₂

theorem converts_list_or (h : Converts given lost caches t t') :
    (∃ ts ts', t = .list ts ∧ t' = .list ts' ∧ ConvertsAll given lost caches ts ts') ∨
      (∀ ts, t ≠ .list ts) ∧ ∀ ts, t' ≠ .list ts := by
  cases h with
  | absent => exact .inr ⟨by simp, by simp⟩
  | list h => exact .inl ⟨_, _, rfl, rfl, h⟩
  | node _ _ => exact .inr ⟨by simp, by simp⟩
  | replaced hg _ =>
    refine .inr ?_
    revert hg
    fun_cases givesWay t t' <;> simp

theorem converts_function_or (h : Converts given lost caches t t') :
    (∃ a g s cs cs', t = .node (.function a g) s cs ∧ t' = .node (.function a g) s cs' ∧
      ConvertsAll given lost [] cs cs') ∨
      (∀ a g s cs, t ≠ .node (.function a g) s cs) ∧ ∀ a g s cs, t' ≠ .node (.function a g) s cs := by
  cases h with
  | absent => exact .inr ⟨by simp, by simp⟩
  | list h => exact .inr ⟨by simp, by simp⟩
  | @node _ k s cs cs' _ h =>
    by_cases hk : ∃ a g, k = .function a g
    · obtain ⟨a, g, rfl⟩ := hk
      exact .inl ⟨a, g, s, cs, cs', rfl, rfl, h⟩
    · refine .inr ⟨?_, ?_⟩
      all_goals
        intro a g s cs heq
        cases heq
        exact hk ⟨a, g, rfl⟩
  | replaced hg _ =>
    refine .inr ?_
    revert hg
    fun_cases givesWay t t' <;> simp

/-- The rules do not see that a tree was converted. -/
theorem likeness_converts (caches : List String) : Likeness id (Converts given lost caches) where
  present {t t'} h := by
    cases h with
    | absent => rfl
    | list _ => rfl
    | node _ _ => rfl
    | replaced hg _ =>
      revert hg
      fun_cases givesWay t t' <;> simp [Ast.isPresent, Ast.isAbsent]
  list h := by
    rcases converts_list_or h with ⟨ts, ts', rfl, rfl, hts⟩ | hne
    · exact .inl ⟨ts, ts', rfl, rfl, hts.forall₂⟩
    · exact .inr hne
  block {t t'} h := by
    cases h with
    | absent => simp
    | list _ => simp
    | node _ _ => simp
    | replaced hg _ =>
      revert hg
      fun_cases givesWay t t' <;> simp
  node {t t' k} h hk := by
    cases h with
    | absent => exact .inr ⟨by simp, by simp⟩
    | list _ => exact .inr ⟨by simp, by simp⟩
    | @node _ k' s cs cs' _ h =>
      by_cases heq : k' = k
      · subst heq
        exact .inl ⟨s, s, cs, cs', rfl, rfl, fun _ => rfl, h.children⟩
      · exact .inr ⟨by simp [heq], by simp [heq]⟩
    | replaced hg _ =>
      refine .inr ?_
      revert hg hk
      fun_cases givesWay t t' <;> simp <;> grind [isLookedFor, isPatternKind]

section Stays

variable {caches : List String} {t t' : Ast} (h : Converts given lost caches t t')
include h

theorem Converts.identName?_eq : t'.identName? = t.identName? :=
  (likeness_converts caches).identName?_eq h

theorem Converts.isPresent_eq : t'.isPresent = t.isPresent :=
  (likeness_converts caches).present h

theorem Converts.boundNames_eq : boundNames t' = boundNames t :=
  (likeness_converts caches).boundNames_eq t h

end Stays

/-! ### Names -/

theorem congruent_keeps : Congruent id (Keeps given lost caches) where
  nil := .refl _
  append h h' := h.append h'
  mention _ := .refl _
  declare _ _ := .refl _
  scope k f _ _ h := by
    rw [Option.map_id_fun, id]
    exact h.scope k f

/-- What is exported by default is no function, before and after. -/
theorem defaultsAlike_converts {cs : List Ast}
    (hd : isDefaultFunction (.node .exportDefaultDecl s cs) = false)
    (h : List.Forall₂ (Converts given lost caches) cs cs') (ht : cs = [t]) (ht' : cs' = [t']) :
    DefaultsAlike (Converts given lost caches) t t' := by
  subst ht ht'
  rcases h with _ | ⟨h, _⟩
  have hne : ∀ s cs, t ≠ .node .funcExpr s cs := by
    rintro s cs rfl
    simp [isDefaultFunction] at hd
  refine .inr ⟨hne, ?_⟩
  rintro s cs rfl
  obtain ⟨cs₀, rfl, -⟩ := h.of_node rfl
  exact hne _ _ rfl

/-- **A converted tree keeps the names.** -/
theorem Converts.keeps (m : Role) (h : Converts given lost caches t t') :
    Keeps given lost caches (outlineIn m t) (outlineIn m t') := by
  refine plain.rule_induction (P := fun m t => ∀ t', Converts given lost caches t t' →
    Keeps given lost caches (outlineIn m t) (outlineIn m t')) (fun m t ih => ?_) m t t' h
  intro t' h
  cases h with
  | absent => exact .refl _
  | list h => exact (Likeness.rule_list h.forall₂ m).outlines congruent_keeps ih
  | @node _ k s cs cs' hd h =>
    refine ((likeness_converts caches).rule h.children m (fun _ => rfl) ?_).outlines congruent_keeps ih
    rintro rfl t t' ht ht'
    exact defaultsAlike_converts hd h.children ht ht'
  | replaced _ h => exact h m

end Converts

end Worklet
