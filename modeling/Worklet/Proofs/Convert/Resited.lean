import Worklet.Proofs.Convert.Subjects
import Worklet.Proofs.Scope.Recast

/-!
# The functions of a tree in other places

Principal result: `functionSites_recast` — the functions of a recast tree are those of the tree, in
their new places.
-/

set_option autoImplicit false

namespace Worklet

open Syntax

section Recast

variable (φ : Span → Span)

/-! ### What others see of a recast tree -/

theorem resembles_literal (hooks : HookRegistry) {k : Kind} (hk : isLiteral k = true) (s s' : Span)
    (cs cs' : List Ast) : Resembles hooks (.node k s cs) (.node (normalKind k) s' cs') := by
  revert hk
  fun_cases isLiteral k with
  | case3 => simp
  | _ =>
    intro _
    constructor <;>
      simp [normalKind, Ast.isAbsent, Ast.unparen, Ast.identName?, Ast.isPrivateName, wordText?,
        keyText, keyText?, calleeName?, HookRegistry.isRooted, HookRegistry.isRootedCallee,
        HookRegistry.isBuilderCall, isObjectLiteral, isFunctionLiteral]

mutual

theorem resembles_recast (hooks : HookRegistry) : ∀ t, Resembles hooks t (recast φ t)
  | .absent => ⟨rfl, rfl, rfl, rfl, rfl, rfl, rfl, rfl, rfl, rfl, rfl, id⟩
  | .list ts => .of_bland (.of_not_isTelling rfl) (.of_not_isTelling rfl) id
  | .node k s cs => by
    rw [recast]
    cases hk : isLiteral k with
    | false =>
      rw [normalKind_of_not_literal hk]
      exact .node (resembles_recastAll hooks cs)
    | true => exact resembles_literal hooks hk s _ cs _

theorem resembles_recastAll (hooks : HookRegistry) : ∀ ts,
    List.Forall₂ (Resembles hooks) ts (recastAll φ ts)
  | [] => .nil
  | t :: ts => .cons (resembles_recast hooks t) (resembles_recastAll hooks ts)

end

theorem unparen_recast : ∀ t : Ast, (recast φ t).unparen = recast φ t.unparen
  | .absent => rfl
  | .list _ => rfl
  | .node k s cs => by
    by_cases hk : k = .paren ∧ ∃ e, cs = [e]
    · obtain ⟨rfl, e, rfl⟩ := hk
      exact unparen_recast e
    · rw [unparen_eq_self, unparen_eq_self]
      · rintro s e ⟨⟩
        exact hk ⟨rfl, e, rfl⟩
      · intro s' e' heq
        rw [recast, Ast.node.injEq, normalKind_eq_iff rfl] at heq
        obtain ⟨e, cs', rfl, -, hnil⟩ := (recastAll_eq_cons φ).1 heq.2.2
        obtain rfl := (recastAll_eq_nil φ).1 hnil
        exact hk ⟨heq.1, e, rfl⟩

theorem isFunctionLiteral_recast (t : Ast) : isFunctionLiteral (recast φ t) = isFunctionLiteral t := by
  unfold isFunctionLiteral
  rw [unparen_recast]
  cases t.unparen with
  | node k s cs => cases k <;> rfl
  | _ => rfl

/-- The same worklets are detected among the arguments of a recast call. -/
theorem detect_recast (hooks : HookRegistry) (t : Ast) :
    hooks.detect (recast φ t) = hooks.detect t := by
  have hother {k : Kind} {s : Span} {cs : List Ast}
      (h : ∀ callee args rest, k = .call → cs ≠ callee :: .list args :: rest) :
      hooks.detect (.node k s cs) = [] := by
    unfold HookRegistry.detect
    split
    · rename_i heq
      cases heq
      exact absurd rfl (h _ _ _ rfl)
    · rfl
  cases t with
  | node k s cs =>
    by_cases hcall : k = .call ∧ ∃ callee args rest, cs = callee :: .list args :: rest
    · obtain ⟨rfl, callee, args, rest, rfl⟩ := hcall
      have hcallee := resembles_recast φ hooks callee
      simp only [recast, recastAll, normalKind, HookRegistry.detect, hcallee.callee, hcallee.builder]
      split
      · rfl
      · rw [recastAll_eq_map, List.zipIdx_map, List.filterMap_map]
        refine List.filterMap_congr fun x _ => ?_
        simp only [Function.comp, Prod.map, id, HookRegistry.detectArg, isFunctionLiteral_recast,
          (resembles_recast φ hooks x.1).object]
    · rw [recast, hother, hother]
      · rintro callee args rest rfl rfl
        exact hcall ⟨rfl, callee, args, rest, rfl⟩
      · rintro callee args rest hk hcs
        rw [normalKind_eq_iff rfl] at hk
        obtain ⟨c, cs', rfl, -, hcs⟩ := (recastAll_eq_cons φ).1 hcs
        obtain ⟨l, rest', rfl, hl, -⟩ := (recastAll_eq_cons φ).1 hcs
        cases l with
        | list args' => exact hcall ⟨hk, c, args', rest', rfl⟩
        | _ => simp [recast] at hl
  | _ => rfl

/-! ### Bodies -/

theorem stmts_recast (t : Ast) : (recast φ t).stmts = recastAll φ t.stmts := by
  cases t with
  | node k s cs => cases k <;> rfl
  | _ => rfl

theorem isDirective_recast (marker : String) (t : Ast) :
    isDirective marker (recast φ t) = isDirective marker t := by
  cases h : isDirective marker t with
  | true =>
    obtain ⟨s, s', v, raw, rfl, rfl⟩ := isDirective_eq_true h
    simp [recast, recastAll, normalKind, isDirective]
  | false =>
    by_contra hne
    obtain ⟨s, s', v, raw, heq, rfl⟩ := isDirective_eq_true (by simpa using hne)
    obtain ⟨k, s₁, cs, rfl, hk, hcs⟩ := recast_eq_node heq
    obtain ⟨e, cs', rfl, he, hnil⟩ := (recastAll_eq_cons φ).1 hcs
    obtain rfl := (recastAll_eq_nil φ).1 hnil
    obtain ⟨k', s₂, cs', rfl, hk', hnil⟩ := recast_eq_node he
    obtain rfl := (recastAll_eq_nil φ).1 hnil
    rw [normalKind_eq_iff rfl] at hk
    subst hk
    revert hk'
    unfold normalKind
    split
    · rintro ⟨⟩
      simp [isDirective] at h
    · simp
    · rintro rfl
      simp [isDirective] at h

theorem hasDirective_recast (marker : String) (t : Ast) :
    hasDirective marker (recast φ t) = hasDirective marker t := by
  unfold hasDirective
  rw [stmts_recast]
  cases t.stmts with
  | nil => rfl
  | cons t ts => simp [recastAll, isDirective_recast φ marker t]

mutual

theorem usesSuper_recast : ∀ t, usesSuper (recast φ t) = usesSuper t
  | .absent => rfl
  | .list ts => by rw [recast, usesSuper, usesSuper, usesSuperAny_recast ts]
  | .node k s cs => by
    have hcs := usesSuperAny_recast cs
    cases k
    case class_ =>
      rcases cs with _ | ⟨a, _ | ⟨b, _ | ⟨base, cs⟩⟩⟩
      case cons.cons.cons => simp only [recast, recastAll, normalKind, usesSuper, usesSuper_recast base]
      case cons.cons.nil => simpa only [recast, recastAll, normalKind, usesSuper] using hcs
      case cons.nil => simpa only [recast, recastAll, normalKind, usesSuper] using hcs
      case nil => rfl
    all_goals simp only [recast, normalKind, usesSuper, hcs]

theorem usesSuperAny_recast : ∀ ts, usesSuperAny (recastAll φ ts) = usesSuperAny ts
  | [] => rfl
  | t :: ts => by
    rw [recastAll, usesSuperAny, usesSuperAny, usesSuper_recast t, usesSuperAny_recast ts]

end

/-! ### Functions -/

/-- The second candidate is the first in its new place. -/
structure Candidate.Recasts (φ : Span → Span) (c c' : Candidate) : Prop where
  span : c'.span = φ c.span
  isGenerator : c'.isGenerator = c.isGenerator
  usesSuper : c'.usesSuper = c.usesSuper
  marked : ∀ marker, hasDirective marker c'.body = hasDirective marker c.body

/-- The second function is the first in its new place. -/
inductive Subject.Recasts (φ : Span → Span) : Subject → Subject → Prop
  | candidate {c c' : Candidate} : c.Recasts φ c' → Subject.Recasts φ (.candidate c) (.candidate c')
  | unsupported {shape : Shape} {span span' : Span} {body body' : Ast} :
    (∀ marker, hasDirective marker body' = hasDirective marker body) →
    Subject.Recasts φ (.unsupported shape span body) (.unsupported shape span' body')

theorem likeness_recast_functions : FunctionLikeness φ fun t u => u = recast φ t where
  toLikeness := likeness_recast φ
  absent := rfl
  key := fun h => h ▸ (resembles_recast φ default _).key
  privateName := fun h => h ▸ isPrivateName_recast φ _

theorem forall₂_recast {ts us : List Ast} (h : List.Forall₂ (fun t u => u = recast φ t) ts us) :
    us = recastAll φ ts := by
  induction h with
  | nil => rfl
  | cons h _ ih => rw [recastAll, h, ih]

theorem Candidate.Like.recasts {c c' : Candidate} (h : c.Like φ (fun t u => u = recast φ t) c') :
    c.Recasts φ c' := by
  obtain ⟨-, -, hspan, -, hgen, hparams, hbody | ⟨b, b', rfl, hbody, hbody'⟩⟩ := h
  · refine ⟨hspan, hgen, ?_, fun marker => ?_⟩
    · simp only [Candidate.usesSuper, forall₂_recast φ hparams, hbody, usesSuperAny_recast,
        usesSuper_recast]
    · rw [hbody, hasDirective_recast]
  · refine ⟨hspan, hgen, ?_, fun marker => ?_⟩
    · simp only [Candidate.usesSuper, forall₂_recast φ hparams, hbody, hbody', usesSuperAny_recast,
        usesSuper_arrowBody, usesSuper_recast]
    · rw [hbody, hbody', hasDirective_arrowBody, hasDirective_arrowBody, hasDirective_recast]

/-- A recast node is the function that it was. -/
theorem subject?_recast (w : Slot) (t : Ast) :
    Option.Rel (Subject.Recasts φ) (subject? w t) (subject? w (recast φ t)) := by
  cases t with
  | node k s cs =>
    cases hk : isFunctionKind k with
    | false =>
      have hk' : isFunctionKind (normalKind k) = false := by
        cases k <;> exact hk
      rw [recast, subject?_eq_none hk, subject?_eq_none hk']
      exact .none
    | true =>
      have hplain : normalKind k = k := by
        revert hk
        fun_cases isFunctionKind k <;> first | exact fun _ => rfl | simp
      rw [recast, hplain]
      refine rel_imp ?_ ((likeness_recast_functions φ).subject? (recastAll_forall₂ φ cs) w
        (fun hopen => if_pos hopen) ?_)
      · rintro _ _ (h | ⟨_, rfl⟩)
        · exact .candidate h.recasts
        · exact .unsupported fun marker => hasDirective_recast φ marker _
      · rintro - t t' rfl ht'
        cases ht'
        exact defaultsAlike_recast φ t
  | _ => exact .none

/-! ### Sites -/

/-- The second function is the first in its new place, and its slot says the same. -/
structure FunctionSite.Recasts (φ : Span → Span) (site site' : FunctionSite) : Prop where
  subject : site.subject.Recasts φ site'.subject
  detected : site'.detected = site.detected

theorem detects_recast (w : Slot) (t : Ast) : w.detects (recast φ t) = w.detects t := by
  cases t with
  | node k s cs => cases w <;> cases k <;> rfl
  | _ => cases w <;> rfl

/-- The parts of a recast node stand in the slots in which they stood. -/
theorem childSlot_recast (hooks : HookRegistry) (w : Slot) (t : Ast) :
    hooks.childSlot w (recast φ t) = hooks.childSlot w t := by
  funext i
  cases t with
  | node k s cs =>
    cases k
    case exportDefaultDecl =>
      rcases cs with _ | ⟨c, _ | ⟨c', cs⟩⟩
      case cons.nil =>
        cases c with
        | node k s cs => cases k <;> rfl
        | _ => rfl
      all_goals simp [recast, recastAll, normalKind, HookRegistry.childSlot]
    case call =>
      have hdetect := detect_recast φ hooks (.node .call s cs)
      rcases cs with _ | ⟨callee, _ | ⟨args, rest⟩⟩
      case cons.cons =>
        cases args with
        | list args =>
          rcases i with _ | _ | i
          · rfl
          · exact congrArg Slot.arguments hdetect
          · rfl
        | _ => rfl
      all_goals rfl
    case paren => rcases cs with _ | ⟨c, _ | ⟨c', cs⟩⟩ <;> rfl
    case keyValue =>
      rcases cs with _ | ⟨key, _ | ⟨value, _ | ⟨c, cs⟩⟩⟩
      case cons.cons.nil =>
        rcases i with _ | _ | i
        · rfl
        · simp only [recast, recastAll, normalKind, HookRegistry.childSlot]
          unfold Slot.atValue
          rw [isFunctionLiteral_recast]
        · rfl
      all_goals rfl
    case switchCase => cases i <;> rfl
    all_goals rfl
  | _ => rfl

mutual

/-- **The functions of a recast tree are those of the tree, in their new places.** -/
theorem functionSites_recast (hooks : HookRegistry) : ∀ (w : Slot) (t : Ast),
    List.Forall₂ (FunctionSite.Recasts φ) (functionSites hooks w t)
      (functionSites hooks w (recast φ t))
  | _, .absent => .nil
  | w, .list ts => by
    rw [recast, functionSites, functionSites]
    exact functionSitesAll_recast hooks w.item ts
  | w, .node k s cs => by
    have hslot := childSlot_recast φ hooks w (.node k s cs)
    have hdetects := detects_recast φ w (.node k s cs)
    have hsubject := subject?_recast φ w (.node k s cs)
    rw [recast] at hslot hdetects hsubject ⊢
    rw [functionSites, functionSites, hslot, hdetects]
    refine List.rel_append (functionSitesAll_recast hooks _ cs) ?_
    generalize subject? w (.node k s cs) = a at hsubject
    generalize subject? w (.node (normalKind k) _ (recastAll φ cs)) = b at hsubject
    cases hsubject with
    | none => exact .nil
    | some h => exact .cons ⟨h, rfl⟩ .nil

theorem functionSitesAll_recast (hooks : HookRegistry) : ∀ (ws : Nat → Slot) (ts : List Ast),
    List.Forall₂ (FunctionSite.Recasts φ) (functionSitesAll hooks ws ts)
      (functionSitesAll hooks ws (recastAll φ ts))
  | _, [] => .nil
  | ws, t :: ts => by
    rw [recastAll, functionSitesAll, functionSitesAll]
    exact List.rel_append (functionSites_recast hooks (ws 0) t)
      (functionSitesAll_recast hooks (fun i => ws (i + 1)) ts)

end

end Recast

end Worklet
