import Worklet.Canonical
import Worklet.Proofs.Scope.Likeness

/-!
# Trees in other places

Two trees can differ only in where their parts stand and how their literals are spelled.

Principal results: `exists_recast` — a tree, no two functions of which stand in one place, can be
recast to any tree of its skeleton; `openedAll_recast` — the outline of a recast tree opens the
scopes of the same functions.
-/

set_option autoImplicit false

namespace Worklet

open Syntax Outline Scoping

mutual

/-- The tree with its functions where `φ` says. Other places and the spelling of literals are left
out. -/
def recast (φ : Span → Span) : Ast → Ast
  | .absent => .absent
  | .list ts => .list (recastAll φ ts)
  | .node k s cs =>
    .node (normalKind k) (if opensFunction k then φ s else Span.made) (recastAll φ cs)

def recastAll (φ : Span → Span) : List Ast → List Ast
  | [] => []
  | t :: ts => recast φ t :: recastAll φ ts

end

/-- The tree without places and spellings. -/
def skeleton (t : Ast) : Ast :=
  recast (fun _ => Span.made) t

mutual

/-- Where the functions of a tree stand. -/
def functionSpans : Ast → List Span
  | .absent => []
  | .list ts => functionSpansAll ts
  | .node k s cs => (if opensFunction k then [s] else []) ++ functionSpansAll cs

def functionSpansAll : List Ast → List Span
  | [] => []
  | t :: ts => functionSpans t ++ functionSpansAll ts

end

/-! ### Kinds -/

@[simp] theorem normalKind_normalKind (k : Kind) : normalKind (normalKind k) = normalKind k := by
  cases k <;> rfl

@[simp] theorem opensFunction_normalKind (k : Kind) :
    opensFunction (normalKind k) = opensFunction k := by
  cases k <;> rfl

/-- The kinds of nodes that can be spelled in several ways. -/
def isLiteral : Kind → Bool
  | .strLit _ _ | .numLit _ _ => true
  | _ => false

theorem isLiteral_normalKind (k : Kind) : isLiteral (normalKind k) = isLiteral k := by
  cases k <;> rfl

theorem normalKind_of_not_literal {k : Kind} (h : isLiteral k = false) : normalKind k = k := by
  revert h
  unfold normalKind
  split <;> simp [isLiteral]

/-- Only the spelling of literals is lost. -/
theorem normalKind_eq_iff {k k' : Kind} (h : isLiteral k' = false) : normalKind k = k' ↔ k = k' := by
  constructor
  · rintro rfl
    exact (normalKind_of_not_literal ((isLiteral_normalKind k).symm.trans h)).symm
  · rintro rfl
    exact normalKind_of_not_literal h

theorem isLiteral_of_isLookedFor {k : Kind} (h : isLookedFor k = true) : isLiteral k = false := by
  revert h
  cases k <;> simp [isLookedFor, isPatternKind, isLiteral]

theorem rule_literal (m : Role) {k : Kind} (h : isLiteral k = true) (s : Span) (cs : List Ast) :
    plain.rule m (.node k s cs) = .flat (Item.parts .refers cs) := by
  revert h
  fun_cases isLiteral k with
  | case3 => nofun
  | _ => cases m <;> exact fun _ => rfl

/-! ### Parts -/

section Parts

variable (φ : Span → Span)

theorem recastAll_eq_map (ts : List Ast) : recastAll φ ts = ts.map (recast φ) := by
  induction ts with
  | nil => rw [recastAll, List.map_nil]
  | cons t ts ih => rw [recastAll, ih, List.map_cons]

theorem recastAll_forall₂ (ts : List Ast) :
    List.Forall₂ (fun t u => u = recast φ t) ts (recastAll φ ts) := by
  induction ts with
  | nil => exact .nil
  | cons t ts ih => exact .cons rfl ih

@[simp] theorem isAbsent_recast (t : Ast) : (recast φ t).isAbsent = t.isAbsent := by
  cases t <;> simp [recast, Ast.isAbsent]

theorem isPrivateName_recast (t : Ast) : (recast φ t).isPrivateName = t.isPrivateName := by
  cases t with
  | node k s cs => cases k <;> simp [recast, normalKind, Ast.isPrivateName]
  | _ => simp [recast, Ast.isPrivateName]

theorem recastAll_eq_nil {ts : List Ast} : recastAll φ ts = [] ↔ ts = [] := by
  rw [recastAll_eq_map, List.map_eq_nil_iff]

theorem recastAll_eq_cons {ts us : List Ast} {u : Ast} :
    recastAll φ ts = u :: us ↔ ∃ t ts', ts = t :: ts' ∧ recast φ t = u ∧ recastAll φ ts' = us := by
  simp only [recastAll_eq_map, List.map_eq_cons_iff]

theorem child_recast (t : Ast) (i : Nat) : (recast φ t).child i = recast φ (t.child i) := by
  cases t with
  | node k s cs =>
    rw [recast]
    simp only [Ast.child, Ast.children, recastAll_eq_map, List.getD_eq_getElem?_getD, List.getElem?_map]
    cases cs[i]? with
    | none => exact (recast.eq_1 φ).symm
    | some c => rfl
  | _ => simp [recast, Ast.child, Ast.children]

variable {φ}

theorem recast_eq_node {t : Ast} {k : Kind} {s : Span} {cs : List Ast}
    (h : recast φ t = .node k s cs) :
    ∃ k' s' cs', t = .node k' s' cs' ∧ normalKind k' = k ∧ recastAll φ cs' = cs := by
  cases t with
  | node k' s' cs' =>
    rw [recast, Ast.node.injEq] at h
    exact ⟨k', s', cs', rfl, h.1, h.2.2⟩
  | _ => simp [recast] at h

mutual

/-- The functions of a recast tree stand where they were put. -/
theorem functionSpans_recast : ∀ t, functionSpans (recast φ t) = (functionSpans t).map φ
  | .absent => by simp [recast, functionSpans]
  | .list ts => by rw [recast, functionSpans, functionSpans, functionSpansAll_recast ts]
  | .node k s cs => by
    rw [recast, functionSpans, functionSpans, functionSpansAll_recast cs, opensFunction_normalKind,
      List.map_append]
    split <;> rfl

theorem functionSpansAll_recast : ∀ ts,
    functionSpansAll (recastAll φ ts) = (functionSpansAll ts).map φ
  | [] => rfl
  | t :: ts => by
    rw [recastAll, functionSpansAll, functionSpansAll, functionSpans_recast t,
      functionSpansAll_recast ts, List.map_append]

end

end Parts

/-! ### Trees of one skeleton -/

theorem length_functionSpans {t u : Ast} (h : skeleton t = skeleton u) :
    (functionSpans t).length = (functionSpans u).length := by
  have := congrArg (fun t => (functionSpans t).length) h
  simpa only [skeleton, functionSpans_recast, List.length_map] using this

theorem length_functionSpansAll {ts us : List Ast}
    (h : recastAll (fun _ => Span.made) ts = recastAll (fun _ => Span.made) us) :
    (functionSpansAll ts).length = (functionSpansAll us).length := by
  have := congrArg (fun ts => (functionSpansAll ts).length) h
  simpa only [functionSpansAll_recast, List.length_map] using this

section Skeleton

variable {φ : Span → Span}

mutual

/-- A tree whose functions are put where those of another tree of its skeleton stand is that
tree. -/
theorem recast_eq_of_skeleton : ∀ t u, skeleton t = skeleton u →
    (functionSpans t).map φ = functionSpans u → recast φ t = recast id u
  | .absent, u, h, _ => by
    cases u with
    | absent => rw [recast, recast]
    | _ => simp [skeleton, recast] at h
  | .list ts, u, h, hs => by
    cases u with
    | list us =>
      rw [skeleton, skeleton, recast, recast, Ast.list.injEq] at h
      rw [recast, recast, recastAll_eq_of_skeleton ts us h hs]
    | _ => simp [skeleton, recast] at h
  | .node k s cs, u, h, hs => by
    cases u with
    | node k' s' cs' =>
      simp only [skeleton, recast, Ast.node.injEq] at h
      obtain ⟨hk, -, hcs⟩ := h
      have hopens : opensFunction k = opensFunction k' := by
        rw [← opensFunction_normalKind k, hk, opensFunction_normalKind]
      simp only [functionSpans, hopens, List.map_append] at hs
      obtain ⟨hspan, hrest⟩ := List.append_inj' hs (by
        rw [List.length_map]
        exact length_functionSpansAll hcs)
      simp only [recast, hk, hopens, recastAll_eq_of_skeleton cs cs' hcs hrest]
      split
      · rename_i hopen
        have hspan : φ s = s' := by simpa [hopen] using hspan
        rw [hspan, id]
      · rfl
    | _ => simp [skeleton, recast] at h

theorem recastAll_eq_of_skeleton : ∀ ts us,
    recastAll (fun _ => Span.made) ts = recastAll (fun _ => Span.made) us →
    (functionSpansAll ts).map φ = functionSpansAll us → recastAll φ ts = recastAll id us
  | [], us, h, _ => by
    cases us with
    | nil => rfl
    | cons u us => simp [recastAll] at h
  | t :: ts, us, h, hs => by
    cases us with
    | nil => simp [recastAll] at h
    | cons u us =>
      rw [recastAll, recastAll, List.cons.injEq] at h
      rw [functionSpansAll, functionSpansAll, List.map_append] at hs
      obtain ⟨hs, hrest⟩ := List.append_inj hs (by
        rw [List.length_map]
        exact length_functionSpans h.1)
      rw [recastAll, recastAll, recast_eq_of_skeleton t u h.1 hs,
        recastAll_eq_of_skeleton ts us h.2 hrest]

end

theorem exists_map_eq {α β : Type} [DecidableEq α] [Inhabited β] {l : List α} {l' : List β}
    (hd : l.Nodup) (hl : l.length = l'.length) : ∃ f : α → β, l.map f = l' := by
  refine ⟨fun a => l'.getD (l.idxOf a) default, List.ext_getElem (by simpa using hl) ?_⟩
  intro i hi hi'
  rw [List.getElem_map, hd.idxOf_getElem i (by simpa using hi), List.getD_eq_getElem?_getD,
    List.getElem?_eq_getElem hi', Option.getD_some]

/-- **A tree can be recast to any tree of its skeleton**, if no two of its functions stand in one
place. -/
theorem exists_recast {t u : Ast} (h : skeleton t = skeleton u) (hd : (functionSpans t).Nodup) :
    ∃ φ, recast φ t = recast id u := by
  obtain ⟨φ, hφ⟩ := exists_map_eq hd (length_functionSpans h)
  exact ⟨φ, recast_eq_of_skeleton t u h hφ⟩

end Skeleton

/-! ### Scopes of functions -/

namespace Outline

mutual

/-- Where the functions stand whose scopes a fact opens. -/
def opened : Outline → List Span
  | .reference _ => []
  | .declare _ _ => []
  | .scope _ f body => f.toList ++ openedAll body

def openedAll : List Outline → List Span
  | [] => []
  | o :: os => opened o ++ openedAll os

end

@[simp] theorem openedAll_append (os os' : List Outline) :
    openedAll (os ++ os') = openedAll os ++ openedAll os' :=
  Joins.append ⟨rfl, fun _ _ => rfl⟩ _ _

mutual

theorem map_span_sites : ∀ (o : Outline) (around : List (List String)),
    (sites around o).map (·.span) = opened o
  | .reference _, _ => rfl
  | .declare _ _, _ => rfl
  | .scope k f body, around => by
    rw [sites, opened, List.map_append, map_span_sitesAll body, List.map_map]
    congr 1
    exact List.map_id _

/-- The functions that are read are those whose scopes are opened. -/
theorem map_span_sitesAll : ∀ (os : List Outline) (around : List (List String)),
    (sitesAll around os).map (·.span) = openedAll os
  | [], _ => rfl
  | o :: os, around => by
    rw [sitesAll, openedAll, List.map_append, map_span_sites o, map_span_sitesAll os]

end

end Outline

/-- A module's table has a scope for a place exactly if the outline opens one there. -/
theorem functionScope?_isSome_iff (module : Ast) (span : Span) :
    ((ScopeTable.ofModule module).functionScope? span).isSome = true ↔
      span.isMade = false ∧ span ∈ openedAll (outline module) := by
  rw [ScopeTable.ofModule_eq, ScopeTable.functionScope?_isSome, ScopeTable.moduleSites,
    ← map_span_sitesAll (outline module) [declared .module (outline module)], List.mem_map]

/-! ### The outline of a recast tree -/

section Recast

variable (φ : Span → Span)

/-- The rules do not see that a tree was recast. -/
theorem likeness_recast : Likeness φ fun t u => u = recast φ t where
  present {t t'} h := by
    subst h
    cases t <;> rfl
  list {t t'} h := by
    subst h
    cases t with
    | list ts => exact .inl ⟨ts, _, rfl, rfl, recastAll_forall₂ φ ts⟩
    | _ => exact .inr ⟨by simp, by simp [recast]⟩
  block {t t'} h := by
    subst h
    cases t with
    | node k s cs => cases k <;> simp [recast, normalKind]
    | _ => simp [recast]
  node {t t' k} h hk := by
    subst h
    cases t with
    | node k' s cs =>
      by_cases heq : k' = k
      · subst heq
        refine .inl ⟨s, if opensFunction k' then φ s else Span.made, cs, recastAll φ cs, rfl, ?_,
          fun hopen => if_pos hopen, recastAll_forall₂ φ cs⟩
        rw [recast, normalKind_of_not_literal (isLiteral_of_isLookedFor hk)]
      · refine .inr ⟨by simp [heq], ?_⟩
        intro s' cs' h
        rw [recast, Ast.node.injEq, normalKind_eq_iff (isLiteral_of_isLookedFor hk)] at h
        exact heq h.1
    | _ => exact .inr ⟨by simp, by simp [recast]⟩

theorem defaultsAlike_recast (t : Ast) :
    DefaultsAlike (fun t u => u = recast φ t) t (recast φ t) := by
  cases t with
  | node k s cs =>
    by_cases hk : k = .funcExpr
    · subst hk
      exact .inl ⟨s, _, cs, recastAll φ cs, rfl, rfl, recastAll_forall₂ φ cs⟩
    · refine .inr ⟨by simp [hk], ?_⟩
      intro s' cs' h
      rw [recast, Ast.node.injEq, normalKind_eq_iff rfl] at h
      exact hk h.1
  | _ => exact .inr ⟨by simp, by simp [recast]⟩

theorem rule_recast (m : Role) (t : Ast) :
    RuleAlike φ (fun t u => u = recast φ t) (plain.rule m t) (plain.rule m (recast φ t)) := by
  cases t with
  | absent => cases m <;> exact .flat .nil
  | list ts => exact Likeness.rule_list (recastAll_forall₂ φ ts) m
  | node k s cs =>
    have hcs := recastAll_forall₂ φ cs
    by_cases hk : normalKind k = k
    · rw [recast, hk]
      refine (likeness_recast φ).rule hcs m (fun hopen => by rw [if_pos hopen]) ?_
      rintro rfl t t' rfl ht'
      rw [recastAll, recastAll, List.cons.injEq] at ht'
      rw [← ht'.1]
      exact defaultsAlike_recast φ t
    · have hliteral : isLiteral k = true := by
        by_contra hne
        exact hk (normalKind_of_not_literal (Bool.eq_false_iff.2 hne))
      rw [recast, rule_literal m hliteral, rule_literal m ((isLiteral_normalKind k).trans hliteral)]
      exact .flat (itemsAlike_parts .refers hcs)

theorem congruent_openedAll : Congruent φ fun os os' => openedAll os' = (openedAll os).map φ where
  nil := rfl
  append h h' := by rw [openedAll_append, openedAll_append, h, h', List.map_append]
  mention _ := rfl
  declare _ _ := rfl
  scope _ f _ _ h := by cases f <;> simp [openedAll, Outline.opened, h]

/-- **The outline of a recast tree opens the scopes of the same functions.** -/
theorem openedAll_recast (m : Role) (t : Ast) :
    openedAll (outlineIn m (recast φ t)) = (openedAll (outlineIn m t)).map φ := by
  refine plain.rule_induction (P := fun m t =>
    openedAll (outlineIn m (recast φ t)) = (openedAll (outlineIn m t)).map φ) (fun m t ih => ?_) m t
  refine (rule_recast φ m t).outlines (congruent_openedAll φ) ?_
  rintro m' u hu u' rfl
  exact ih m' u hu

end Recast

end Worklet
