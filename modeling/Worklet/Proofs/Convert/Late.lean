import Worklet.Proofs.Convert.Traced

/-!
# Detected functions

A call is looked at when its parts are converted, and what is detected then is converted late. Here
that is traced back to the call as it was read.

Principal results: `lookup_detect` — what is detected in an argument; `convertCall_proceeds` — a call
whose parts are converted becomes what the call as it was read becomes.
-/

set_option autoImplicit false

namespace Worklet

open Syntax

/-! ### Detections -/

theorem lookup_filterMap_zipIdx {α β : Type} (g : Nat → α → Option β) (i : Nat) (xs : List α)
    (k : Nat) :
    ((xs.zipIdx k).filterMap fun x => (g x.2 x.1).map fun d => (x.2, d)).lookup i =
      if k ≤ i then xs[i - k]?.bind (g i) else none := by
  induction xs generalizing k with
  | nil => simp
  | cons x xs ih =>
    rw [List.zipIdx_cons, List.filterMap_cons]
    by_cases hi : i = k
    · subst hi
      have hrest := ih (i + 1)
      rw [if_neg (by omega)] at hrest
      cases hg : g i x <;> simp [hg, hrest]
    · have hne : (i == k) = false := by simpa using hi
      have hrest : (x :: xs)[i - k]? = if k < i then xs[i - (k + 1)]? else some x := by
        split
        · rw [show i - k = i - (k + 1) + 1 by omega, List.getElem?_cons_succ]
        · rw [show i - k = 0 by omega, List.getElem?_cons_zero]
      cases hg : g k x <;> simp only [Option.map_none, Option.map_some, List.lookup_cons, hne, ih]
      all_goals
        by_cases hlt : k < i
        · rw [if_pos (by omega), if_pos (by omega), hrest, if_pos hlt]
        · rw [if_neg (by omega), if_neg (by omega)]

/-- What is detected in an argument depends on the callee and on the argument. -/
theorem lookup_detect (hooks : HookRegistry) (s : Span) (callee : Ast) (args rest : List Ast)
    (i : Nat) :
    (hooks.detect (.node .call s (callee :: .list args :: rest))).lookup i =
      (calleeName? callee.unparen).bind fun name =>
        args[i]?.bind (hooks.detectArg name (hooks.isBuilderCall callee.unparen) i) := by
  unfold HookRegistry.detect
  cases hname : calleeName? callee.unparen with
  | none => simp [hname]
  | some name =>
    simpa [hname] using lookup_filterMap_zipIdx
      (hooks.detectArg name (hooks.isBuilderCall callee.unparen)) i args 0

/-! ### Other slots -/

variable {s : Span} {cs : List Ast} {hooks : HookRegistry}

variable {k : Kind} {cs' : List Ast} {w : Slot} {reason : Reason} {sp : Span} {name : String}
  {b : Bool} {i : Nat}

section Slots

variable {job : Job} {near : Bool} {n n' : UsedNames} {w' : Slot} {t t' : Ast} {tr : Trace}

/-- A tree becomes the same in a slot that says the same. -/
theorem Proceeds.reslot (h : Proceeds job near n w t t' tr n') (hitem : w.item = w'.item)
    (hchild : job.config.hooks.childSlot w t = job.config.hooks.childSlot w' t)
    (htreat : ∀ k s cs cs' tr, t = .node k s cs →
      BecomesAll job (job.config.hooks.childSlot w t) cs cs' tr →
      form? w (.node k s cs') = form? w' (.node k s cs') ∧
        w.detects (.node k s cs') = w'.detects (.node k s cs')) :
    Proceeds job near n w' t t' tr n' := by
  cases h with
  | absent => exact .absent
  | list h => exact .list (hitem ▸ h)
  | node hl hcs ht hall hn =>
    obtain ⟨hform, hdetects⟩ := htreat _ _ _ _ _ rfl hcs.becomes
    have hcache : ∀ t, form? w t = form? w' t → ∀ n, cacheFor job near n w t = cacheFor job near n w' t := by
      intro t ht n
      rw [cacheFor, cacheFor, ht]
    rw [hcache _ hform] at ht hn
    refine .node hl (hchild ▸ hcs) ?_ hall hn
    rw [← ht, treat, treat, hform, hdetects]
  | statements hk h => exact .statements hk h
  | switchCase h hs hall => exact .switchCase h hs hall

theorem form?_eq (he : w = .exported ↔ w' = .exported) (hs : w = .statement ↔ w' = .statement)
    (t : Ast) : form? w t = form? w' t := by
  unfold form?
  split <;> simp [he, hs]

/-- A node that is no function, and whose parts run as often, becomes the same node. -/
theorem Proceeds.node_intro (hk : isFunctionKind k = false) (hr : isRepeated k = false)
    (hl : holdsStatements (.node k s cs) = false)
    (h : ProceedsAll job near n (job.config.hooks.childSlot w (.node k s cs)) cs cs' tr n') :
    Proceeds job near n w (.node k s cs) (.node k s cs') (tr.through k) n' := by
  have hform : form? w (.node k s cs') = none := form?_eq_none hk s cs'
  refine .node hl (by simpa [hr] using h) (treat_none hform _) (by simp) ?_
  rw [cacheFor_none hform]

/-- A node that is no function, and whose parts run as often, stays the same node. -/
theorem Proceeds.node_of_not_function (h : Proceeds job near n w (.node k s cs) t' tr n')
    (hk : isFunctionKind k = false) (hr : isRepeated k = false)
    (hl : holdsStatements (.node k s cs) = false) :
    ∃ cs' tr₁, t' = .node k s cs' ∧
      ProceedsAll job near n (job.config.hooks.childSlot w (.node k s cs)) cs cs' tr₁ n' ∧
      tr = tr₁.through k := by
  cases h with
  | @node _ _ _ _ _ _ _ _ cs' _ tr₁ own _ _ hcs htreat hall hn =>
    have hform : form? w (.node k s cs') = none := form?_eq_none hk s cs'
    rw [treat_none hform, Prod.mk.injEq] at htreat
    rw [cacheFor_none hform] at hn
    obtain ⟨rfl, rfl⟩ := htreat
    subst hn
    exact ⟨_, _, rfl, by simpa [hr] using hcs, by rw [hall, Trace.append_empty]⟩
  | statements hk' _ => simp [holdsStatements_of_isStatementList hk'] at hl
  | switchCase _ _ _ => cases hl

theorem Proceeds.paren (h : Proceeds job near n w.inParen t t' tr n') :
    Proceeds job near n w (.node .paren s [t]) (.node .paren s [t']) tr n' := by
  have hall : ProceedsAll job near n (job.config.hooks.childSlot w (.node .paren s [t])) [t] [t'] tr
      n' :=
    .cons h .nil (by simp)
  simpa [Trace.through_of_ne] using Proceeds.node_intro rfl rfl rfl hall

theorem Proceeds.of_paren (h : Proceeds job near n w (.node .paren s [t]) t' tr n') :
    ∃ e', t' = .node .paren s [e'] ∧ Proceeds job near n w.inParen t e' tr n' := by
  obtain ⟨cs', tr₁, rfl, hcs, rfl⟩ := h.node_of_not_function rfl rfl rfl
  rcases hcs with _ | ⟨he, _ | _, rfl⟩
  rw [Trace.append_empty]
  exact ⟨_, rfl, he⟩

end Slots

/-! ### Functions -/

section Upgrade

variable {job : Job} {near : Bool} {n n' : UsedNames} {t t' : Ast} {tr : Trace} {s : Progress}

theorem Trace.append_late {a b : Trace} (h : (a ++ b).late = []) : a.late = [] ∧ b.late = [] := by
  simpa [Trace.append_def] using h

/-- A late step makes of a tree that was converted, and of which nothing came late, what it becomes
in a slot. -/
def Finishes (job : Job) (near : Bool) (n : UsedNames) (w : Slot) (t : Ast) (tr : Trace)
    (n' : UsedNames) (s : Progress) (x : Converting Ast) : Prop :=
  Ensures x s fun t' s' => ∃ es,
    Proceeds job near n w t t' { tr with late := es } n' ∧ Moved es [] [] s.names s s'

theorem Finishes.same (h : Proceeds job near n w t t' tr n') (hl : tr.late = []) :
    Finishes job near n w t tr n' s (pure t') :=
  .pure ⟨[], by rwa [← hl], .refl _⟩

theorem isFunctionLiteral_paren (sp : Span) (e : Ast) :
    isFunctionLiteral (.node .paren sp [e]) = isFunctionLiteral e := by
  simp only [isFunctionLiteral, Ast.unparen]

/-- A candidate that is asked for late was converted before, or is converted now. -/
theorem treat_late {place : Ast → Ast} {c : Option Candidate} {cache : Option String} {own : Trace}
    (hf : form? .plain t = c.map (.wrapped place)) (hf' : form? w t = form? .plain t)
    (hd : w.detects t = some reason) (h : treat job .plain t cache = (t', own)) :
    (treat job w t cache = (t', own) ∧ ∃ p : Prepared, t' = place p.wrapper) ∨
      (t' = t ∧ ∀ {k : Option Ast → Converting Ast}, (∀ e, k (some e) = pure (place e)) →
        k none = pure t →
        Ensures (wrapped job c reason >>= k) s fun t'' s' => ∃ es,
          treat job w t cache = (t'', { own with late := es }) ∧ Moved es [] [] s.names s s') := by
  cases c with
  | none =>
    rw [treat_none hf] at h
    obtain ⟨rfl, rfl⟩ := Prod.mk.inj h
    refine .inr ⟨rfl, fun {k} _ hnone => ?_⟩
    change Ensures (k none) s _
    rw [hnone]
    exact .pure ⟨[], treat_none (hf'.trans hf) cache, .refl _⟩
  | some c =>
    have hform : form? w t = some (.wrapped place c) := hf'.trans hf
    simp only [treat, hf, Option.map_some, Slot.detects] at h
    rcases Form.treat_cases h with
      ⟨refusal, hp, rfl, rfl⟩ | ⟨p, hp, ⟨hm, _, rfl, rfl⟩ | ⟨hm, rfl, rfl⟩ | ⟨_, _, h, _⟩⟩
    · refine .inr ⟨rfl, fun {k} hsome hnone => .bind (wrapped_moved job c reason) ?_⟩
      rintro r s' (⟨p, hp', -, -⟩ | ⟨refusal', hp', rfl, hmoved⟩)
      · cases hp.symm.trans hp'
      · cases hp.symm.trans hp'
        rw [hnone]
        refine .pure ⟨_, ?_, hmoved⟩
        simp only [treat, hform, hd, Form.treat, hp, Option.isSome_some, if_true]
        rfl
    · refine .inr ⟨rfl, fun {k} hsome hnone => .bind (wrapped_moved job c reason) ?_⟩
      rintro r s' (⟨p', hp', rfl, hmoved⟩ | ⟨refusal', hp', -, -⟩)
      · cases hp.symm.trans hp'
        rw [hsome]
        refine .pure ⟨_, ?_, hmoved⟩
        simp only [treat, hform, hd, Form.treat, hp, hm]
        rfl
      · cases hp.symm.trans hp'
    · refine .inl ⟨?_, p, rfl⟩
      exact treat_ok hform hm hp cache
    · cases h

/-- A node that no accessor is, in a slot where its parts are converted alike: it becomes what is
made of it there. -/
theorem Proceeds.node_late (h : Proceeds job near n .plain (.node k sp cs) t' tr n')
    (hl : tr.late = []) (hk : k ≠ .call) (hs : holdsStatements (.node k sp cs) = false)
    (hchild : job.config.hooks.childSlot w (.node k sp cs) =
      job.config.hooks.childSlot .plain (.node k sp cs))
    (hform : ∀ t, form? w t = form? .plain t)
    (hplain : ∀ {cs f}, FormOf .plain (.node k sp cs) f → f.isAccessor = false) :
    ∃ cs' own, treat job .plain (.node k sp cs') none = (t', own) ∧ own.late = [] ∧
      ∀ {t'' es}, treat job w (.node k sp cs') none = (t'', { own with late := es }) →
        Proceeds job near n w (.node k sp cs) t'' { tr with late := es } n' := by
  cases h with
  | statements hk' _ => simp [holdsStatements_of_isStatementList hk'] at hs
  | switchCase _ _ _ => cases hs
  | @node _ _ n₁ _ _ _ _ _ cs' _ tr₁ own _ hs hcs htreat hall hn =>
    rw [Trace.through_of_ne hk] at hall
    subst hall
    obtain ⟨hl₁, hown⟩ := Trace.append_late hl
    have hcache (w : Slot) (hw : form? w (.node k sp cs') = form? .plain (.node k sp cs')) :
        cacheFor job near n₁ w (.node k sp cs') = (none, n₁) := by
      cases hf : form? .plain (.node k sp cs') with
      | none => exact cacheFor_none (hw.trans hf)
      | some f => exact cacheFor_of_not_accessor (hw.trans hf) (hplain (FormOf.of_form? hf))
    rw [hcache _ rfl] at htreat hn
    refine ⟨cs', own, htreat, hown, fun h => ?_⟩
    rw [← hcache _ (hform _)] at hn
    refine .node hs (hchild ▸ hcs) (by rw [hcache _ (hform _)]; exact h) ?_ hn
    rw [Trace.through_of_ne hk]
    simp [Trace.append_def, hl₁]

/-- A literal that was asked for late, too, becomes what its form says. -/
theorem convertLiteral_proceeds (hk : k = .funcExpr ∨ ∃ a, k = .arrow a) (reason : Reason)
    (h : Proceeds job near n .plain (.node k sp cs) t' tr n') (hl : tr.late = []) :
    (isFunctionLiteral t' = false →
      Proceeds job near n (.function reason) (.node k sp cs) t' tr n') ∧
      (isFunctionLiteral t' = true →
        Finishes job near n (.function reason) (.node k sp cs) tr n' s
          (convertFunctionExpr job reason t')) := by
  have hliteral (cs : List Ast) : isFunctionLiteral (.node k sp cs) = true := by
    rcases hk with rfl | ⟨a, rfl⟩ <;> simp [isFunctionLiteral, Ast.unparen]
  have hdetects (cs : List Ast) : Slot.detects (.function reason) (.node k sp cs) = some reason := by
    rcases hk with rfl | ⟨a, rfl⟩ <;> rfl
  have hof (cs : List Ast) :
      form? .plain (.node k sp cs) = (Candidate.ofExpr (.node k sp cs)).map (.wrapped id) := by
    rcases hk with rfl | ⟨a, rfl⟩
    · rcases cs with _ | ⟨name, _ | ⟨f, _ | ⟨_, _⟩⟩⟩ <;> rfl
    · rfl
  have hexpr (cs : List Ast) : convertFunctionExpr job reason (.node k sp cs) =
      (do return (← wrapped job (Candidate.ofExpr (.node k sp cs)) reason).getD (.node k sp cs)) := by
    rcases hk with rfl | ⟨a, rfl⟩ <;> simp [convertFunctionExpr]
  have hform (t : Ast) : form? (.function reason) t = form? .plain t :=
    form?_eq (by simp) (by simp) t
  obtain ⟨cs', own, htreat, hown, intro⟩ :=
    h.node_late (w := .function reason) hl (by rcases hk with rfl | ⟨a, rfl⟩ <;> simp)
      (by rcases hk with rfl | ⟨a, rfl⟩ <;> rfl) (by rcases hk with rfl | ⟨a, rfl⟩ <;> rfl) hform
      (by rcases hk with rfl | ⟨a, rfl⟩ <;> rintro cs f ⟨⟩ <;> rfl)
  rcases treat_late (s := s) (hof cs') (hform _) (hdetects cs') htreat with ⟨hsame, p, rfl⟩ | ⟨rfl, hlate⟩
  · refine ⟨fun _ => ?_, fun hne => by cases hne⟩
    have hb := @intro _ [] (by rwa [← hown])
    rwa [← hl] at hb
  · refine ⟨fun hne => absurd hne (by simp [hliteral]), fun _ => ?_⟩
    rw [hexpr]
    refine (hlate (fun _ => rfl) rfl).imp ?_
    rintro t'' s' ⟨es, htreat', hmoved⟩
    exact ⟨es, intro htreat', hmoved⟩

/-- A function literal that was asked for late, too, becomes what its form says. -/
theorem convertFunctionExpr_proceeds (reason : Reason) (hf : isFunctionLiteral t = true)
    (h : Proceeds job near n .plain t t' tr n') (hl : tr.late = []) :
    (isFunctionLiteral t' = false → Proceeds job near n (.function reason) t t' tr n') ∧
      (isFunctionLiteral t' = true →
        Finishes job near n (.function reason) t tr n' s (convertFunctionExpr job reason t')) := by
  fun_induction Ast.unparen t generalizing t' tr with
  | case1 sp e ih =>
    obtain ⟨e', rfl, he⟩ := h.of_paren
    rw [isFunctionLiteral_paren] at hf ⊢
    obtain ⟨hconverted, hliteral⟩ := ih hf he hl
    refine ⟨fun hne => (hconverted hne).paren, fun heq => ?_⟩
    rw [convertFunctionExpr]
    refine .bind (hliteral heq) ?_
    rintro e'' s' ⟨es, he'', hmoved⟩
    exact .pure ⟨es, he''.paren, hmoved⟩
  | case2 t ht =>
    unfold isFunctionLiteral at hf
    rw [unparen_eq_self ht] at hf
    split at hf
    · exact convertLiteral_proceeds (.inl rfl) reason h hl
    · exact convertLiteral_proceeds (.inr ⟨_, rfl⟩) reason h hl
    · cases hf

/-! ### Objects -/

theorem mapM_proceeds {g : Ast × Nat → Converting Ast} :
    ∀ (ws : Nat → Slot) {n n' : UsedNames} {ts ts' : List Ast} {tr : Trace} {s : Progress} (k : Nat),
      ProceedsAll job near n (fun _ => .plain) ts ts' tr n' → tr.late = [] →
      (∀ i n n' t t' tr s, ts[i]? = some t → ts'[i]? = some t' →
        Proceeds job near n .plain t t' tr n' → tr.late = [] →
        Finishes job near n (ws i) t tr n' s (g (t', k + i))) →
      Ensures ((ts'.zipIdx k).mapM g) s fun ts'' s' => ∃ es,
        ProceedsAll job near n ws ts ts'' { tr with late := es } n' ∧ Moved es [] [] s.names s s'
  | _, _, _, _, _, _, s, _, .nil, _, _ => by
    rw [List.zipIdx_nil, List.mapM_nil]
    exact .pure ⟨[], .nil, .refl s⟩
  | ws, _, _, _, _, _, s, k, @ProceedsAll.cons _ _ _ _ _ _ _ _ _ _ tr₁ tr₂ _ h hs hall, hl, hg => by
    subst hall
    obtain ⟨hl₁, hl₂⟩ := Trace.append_late hl
    rw [List.zipIdx_cons, List.mapM_cons]
    refine .bind (hg 0 _ _ _ _ _ s rfl rfl h hl₁) ?_
    rintro t'' s₁ ⟨es₁, ht'', hm₁⟩
    refine .bind (mapM_proceeds (fun i => ws (i + 1)) (k + 1) hs hl₂ ?_) ?_
    · intro i n n' t t' tr s ht ht' hb hl
      have := hg (i + 1) n n' t t' tr s ht ht' hb hl
      rwa [show k + (i + 1) = k + 1 + i by omega] at this
    · rintro ts'' s₂ ⟨es₂, hts'', hm₂⟩
      refine .pure ⟨es₁ ++ es₂, .cons ht'' hts'' rfl, ?_⟩
      rw [hm₁.names] at hm₂
      simpa using hm₁.trans hm₂

/-- Only a method gives way to a property. -/
theorem Becomes.of_keyValue (h : Becomes job w t (.node .keyValue sp cs') tr) :
    (∃ cs, t = .node .keyValue sp cs) ∨ ∃ sp cs, t = .node .method sp cs := by
  generalize ht' : Ast.node .keyValue sp cs' = t' at h
  cases h with
  | absent => cases ht'
  | list _ => cases ht'
  | node cache _ _ htreat _ =>
    rcases treat_cases htreat with rfl | ⟨f, p, cache', hf, hp, rfl⟩
    · cases ht'
      exact .inl ⟨_, rfl⟩
    · cases FormOf.of_form? hf with
      | method _ => exact .inr ⟨_, _, rfl⟩
      | _ => cases ht'
  | statements hk _ =>
    cases ht'
    cases hk
  | switchCase _ _ _ => cases ht'

/-- A method among the properties of a hook's object. -/
theorem convertHookMethod_finishes (h : Proceeds job near n .plain (.node .method sp cs) t' tr n')
    (hl : tr.late = []) :
    Finishes job near n .property (.node .method sp cs) tr n' s (convertHookProp job t') := by
  have hform (t : Ast) : form? .property t = form? .plain t := form?_eq (by simp) (by simp) t
  obtain ⟨cs', own, htreat, hown, intro⟩ :=
    h.node_late (w := .property) hl (by simp) rfl rfl hform (by rintro cs f ⟨⟩; rfl)
  by_cases hlen : ∃ key f, cs' = [key, f]
  · obtain ⟨key, f, rfl⟩ := hlen
    rcases treat_late (s := s) rfl (hform _) rfl htreat with ⟨hsame, p, rfl⟩ | ⟨rfl, hlate⟩
    · -- the property that the method became holds a call
      refine .pure ⟨[], intro ?_, .refl _⟩
      rwa [← hown]
    · refine (hlate (fun _ => rfl) rfl).imp ?_
      rintro t'' s' ⟨es, htreat', hmoved⟩
      exact ⟨es, intro htreat', hmoved⟩
  · have hnone : form? .plain (.node .method sp cs') = none := by
      unfold form?
      split <;> grind
    have hconvert : convertMethod job .objectHookProperty (.node .method sp cs') =
        pure (.node .method sp cs') := by
      unfold convertMethod
      split <;> grind
    rw [treat_none hnone] at htreat
    obtain ⟨rfl, rfl⟩ := Prod.mk.inj htreat
    rw [convertHookProp, hconvert]
    exact .pure ⟨[], intro (treat_none ((hform _).trans hnone) none), .refl _⟩

theorem convertHookProp_finishes (h : Proceeds job near n .plain t t' tr n') (hl : tr.late = []) :
    Finishes job near n .property t tr n' s (convertHookProp job t') := by
  by_cases hm : ∃ sp cs, t = .node .method sp cs
  · obtain ⟨sp, cs, rfl⟩ := hm
    exact convertHookMethod_finishes h hl
  by_cases hv : ∃ sp key value, t = .node .keyValue sp [key, value]
  · obtain ⟨sp, key, value, rfl⟩ := hv
    obtain ⟨cs', tr₁, rfl, hcs, rfl⟩ := h.node_of_not_function rfl rfl rfl
    rcases hcs with _ | ⟨hkey, _ | ⟨hvalue, _ | _, rfl⟩, rfl⟩
    rename_i n₁ key' tr₁ value' tr₂
    rw [Trace.append_empty] at hl ⊢
    obtain ⟨hl₁, hl₂⟩ := Trace.append_late hl
    have intro {value'' : Ast} {es : List Entry}
        (h : Proceeds job near n₁ (Slot.atValue value .property) value value''
          { tr₂ with late := es } n') :
        Proceeds job near n .property (.node .keyValue sp [key, value])
          (.node .keyValue sp [key', value'']) { tr₁ ++ tr₂ with late := es } n' := by
      refine .node_intro rfl rfl rfl (.cons hkey (.cons h .nil (Trace.append_empty _).symm) ?_)
      simp [Trace.append_def, hl₁]
    unfold Slot.atValue at intro
    rw [convertHookProp]
    cases hf : isFunctionLiteral value with
    | true =>
      rw [hf, if_pos rfl] at intro
      obtain ⟨hconverted, hliteral⟩ :=
        convertFunctionExpr_proceeds (s := s) .objectHookProperty hf hvalue hl₂
      cases hf' : isFunctionLiteral value' with
      | true =>
        refine .bind (hliteral hf') ?_
        rintro value'' s' ⟨es, hvalue'', hmoved⟩
        exact .pure ⟨es, intro hvalue'', hmoved⟩
      | false =>
        refine .pure ⟨[], intro ?_, .refl _⟩
        rw [← hl₂]
        exact hconverted hf'
    | false =>
      rw [hf, if_neg (by simp)] at intro
      have hf' : isFunctionLiteral value' = false := by
        by_contra hne
        simp [hvalue.becomes.resembles.function (by simpa using hne)] at hf
      rw [hf', if_neg (by simp)]
      refine .pure ⟨[], intro ?_, .refl _⟩
      rw [← hl₂]
      exact hvalue
  · have hstays : convertHookProp job t' = pure t' := by
      unfold convertHookProp
      split
      · obtain ⟨cs, _, _, _, rfl, -⟩ := h.becomes.of_node rfl rfl
        exact absurd ⟨_, _, rfl⟩ hm
      · rcases h.becomes.of_keyValue with ⟨cs, rfl⟩ | ⟨sp, cs, rfl⟩
        · obtain ⟨cs', tr₁, hcs', hcs, -⟩ := h.node_of_not_function rfl rfl rfl
          cases hcs'
          rcases hcs with _ | ⟨_, _ | ⟨_, _ | _, _⟩, _⟩
          exact absurd ⟨_, _, _, rfl⟩ hv
        · exact absurd ⟨_, _, rfl⟩ hm
      · rfl
    rw [hstays]
    refine .same (h.reslot rfl ?_ ?_) hl
    · funext i
      unfold HookRegistry.childSlot
      split <;> first | rfl | exact absurd ⟨_, _, _, rfl⟩ hv
    · rintro k sp cs cs' tr rfl -
      refine ⟨form?_eq (by simp) (by simp) _, ?_⟩
      unfold Slot.detects
      split <;> grind

theorem convertHookObject_finishes (ho : isObjectLiteral t = true)
    (h : Proceeds job near n .plain t t' tr n') (hl : tr.late = []) :
    Finishes job near n .object t tr n' s (convertHookObject job t') := by
  fun_induction Ast.unparen t generalizing t' tr with
  | case1 sp e ih =>
    obtain ⟨e', rfl, he⟩ := h.of_paren
    have ho : isObjectLiteral e = true := by simpa only [isObjectLiteral, Ast.unparen] using ho
    rw [convertHookObject]
    refine .bind (ih ho he hl) ?_
    rintro e'' s' ⟨es, he'', hmoved⟩
    exact .pure ⟨es, he''.paren, hmoved⟩
  | case2 t ht =>
    unfold isObjectLiteral at ho
    rw [unparen_eq_self ht] at ho
    split at ho
    · rename_i sp ps
      obtain ⟨ps', tr₁, rfl, hps, rfl⟩ := h.node_of_not_function rfl rfl rfl
      have hmap : ps'.mapM (convertHookProp job) =
          (ps'.zipIdx 0).mapM fun x => convertHookProp job x.1 := by
        conv_lhs => rw [← List.zipIdx_map_fst 0 ps', List.mapM_map]
        rfl
      rw [convertHookObject, hmap]
      refine .bind (mapM_proceeds (fun _ => .property) 0 hps hl ?_) ?_
      · exact fun i n n' t t' tr s _ _ h hl => convertHookProp_finishes h hl
      · rintro ps'' s' ⟨es, hps'', hmoved⟩
        exact .pure ⟨es, .node_intro rfl rfl rfl hps'', hmoved⟩
    · cases ho

/-! ### Calls -/

theorem isFunctionLiteral_of_detectArg (h : hooks.detectArg name b i t = some (.function reason)) :
    isFunctionLiteral t = true := by
  unfold HookRegistry.detectArg at h
  grind

theorem isObjectLiteral_of_detectArg (h : hooks.detectArg name b i t = some .objectProperties) :
    isObjectLiteral t = true := by
  unfold HookRegistry.detectArg at h
  grind

theorem isObjectLiteral_of_isFunctionLiteral (h : isFunctionLiteral t = true) :
    isObjectLiteral t = false := by
  unfold isFunctionLiteral at h
  unfold isObjectLiteral
  split at h <;> simp_all

/-- An argument that was converted is detected as it was read, unless it is no function any more. -/
theorem Resembles.detectArg (h : Resembles hooks t t') (name : String) (b : Bool) (i : Nat) :
    hooks.detectArg name b i t' = hooks.detectArg name b i t ∨
      isFunctionLiteral t = true ∧ isFunctionLiteral t' = false ∧
        hooks.detectArg name b i t' = none := by
  by_cases hsame : isFunctionLiteral t' = isFunctionLiteral t
  · exact .inl (by simp only [HookRegistry.detectArg, hsame, h.object])
  · have hf : isFunctionLiteral t = true := by
      by_contra hne
      refine hsame (Eq.trans ?_ (Bool.eq_false_iff.2 hne).symm)
      exact Bool.eq_false_iff.2 fun hf' => hne (h.function hf')
    have hf' : isFunctionLiteral t' = false := by
      rw [hf] at hsame
      simpa using hsame
    refine .inr ⟨hf, hf', ?_⟩
    simp [HookRegistry.detectArg, hf', h.object, isObjectLiteral_of_isFunctionLiteral hf]

/-- An argument is converted late for what it was detected as. -/
theorem convertArg_finishes {detections : List (Nat × Detection)}
    (h : Proceeds job near n .plain t t' tr n') (hl : tr.late = [])
    (hd : detections.lookup i = job.config.hooks.detectArg name b i t') :
    Finishes job near n (Slot.ofDetection (job.config.hooks.detectArg name b i t)) t tr n' s
      (convertArg job detections (t', i)) := by
  unfold convertArg
  rw [hd]
  rcases h.becomes.resembles.detectArg name b i with heq | ⟨hf, hf', hnone⟩
  · rw [heq]
    cases harg : job.config.hooks.detectArg name b i t with
    | none => exact .same h hl
    | some d =>
      cases d with
      | function reason =>
        have hf := isFunctionLiteral_of_detectArg harg
        exact (convertFunctionExpr_proceeds reason hf h hl).2
          (isFunctionLiteral_of_detectArg (heq.trans harg))
      | objectProperties =>
        exact convertHookObject_finishes (isObjectLiteral_of_detectArg harg) h hl
  · -- a function that was converted for its marker
    rw [hnone]
    cases harg : job.config.hooks.detectArg name b i t with
    | none => exact .same h hl
    | some d =>
      cases d with
      | function reason => exact .same ((convertFunctionExpr_proceeds (s := s) reason hf h hl).1 hf') hl
      | objectProperties =>
        have ho := isObjectLiteral_of_isFunctionLiteral hf
        rw [isObjectLiteral_of_detectArg harg] at ho
        cases ho

/-- **A call whose parts are converted becomes what it becomes as it was read.** -/
theorem convertCall_proceeds (h : ProceedsAll job near n (fun _ => .plain) cs cs' tr n')
    (hl : tr.late = []) :
    Ensures (convertCall job (.node .call sp cs')) s fun t' s' => ∃ es,
      Proceeds job near n .plain (.node .call sp cs) t' { tr with now := tr.now ++ es } n' ∧
        Moved es [] [] s.names s s' := by
  by_cases hargs : ∃ callee args rest, cs = callee :: .list args :: rest
  · obtain ⟨callee, args, rest, rfl⟩ := hargs
    rcases h with _ | ⟨hcallee, _ | ⟨hargs, hrest, rfl⟩, rfl⟩
    rename_i n₁ callee' tr₁ n₂ args' rest' tr₂ tr₃
    cases hargs with
    | @list _ _ _ _ _ args' _ hargs =>
    obtain ⟨hl₁, hl₂⟩ := Trace.append_late hl
    obtain ⟨hl₂, hl₃⟩ := Trace.append_late hl₂
    rw [convertCall]
    have hmap := mapM_proceeds (s := s) (g := convertArg job
        (job.config.hooks.detect (.node .call sp (callee' :: .list args' :: rest'))))
      (Slot.arguments (job.config.hooks.detect
        (.node .call sp (callee :: .list args :: rest)))).item 0 hargs hl₂ ?_
    · refine .bind hmap ?_
      rintro args'' s' ⟨es, hargs'', hmoved⟩
      refine .pure ⟨es, ?_, hmoved⟩
      have hb : Proceeds job near n .plain (.node .call sp (callee :: .list args :: rest)) _ _ _ :=
        .node_intro rfl rfl rfl (.cons hcallee (.cons (.list hargs'') hrest rfl) rfl)
      simpa [Trace.append_def, Trace.through, Trace.entries, hl₁, hl₂, hl₃] using hb
    · intro i n n' t t' tr s ht ht' hb hl
      rw [Nat.zero_add, Slot.item, lookup_detect, ht]
      have hlookup := lookup_detect job.config.hooks sp callee' args' rest' i
      rw [ht', hcallee.becomes.resembles.callee, hcallee.becomes.resembles.builder] at hlookup
      cases hname : calleeName? callee.unparen with
      | none =>
        rw [hname] at hlookup
        unfold convertArg
        rw [hlookup]
        exact .same hb hl
      | some name =>
        rw [hname] at hlookup
        exact convertArg_finishes hb hl hlookup
  · have hstays : convertCall job (.node .call sp cs') = pure (.node .call sp cs') := by
      unfold convertCall
      split
      · rename_i heq
        cases heq
        rcases h with _ | ⟨_, _ | ⟨hlist, _, _⟩, _⟩
        rcases hlist.becomes.list_or with ⟨_, _, rfl, _⟩ | ⟨_, hne⟩
        · exact absurd ⟨_, _, _, rfl⟩ hargs
        · exact absurd rfl (hne _)
      · rfl
    have hslots : (fun _ => .plain) = job.config.hooks.childSlot .plain (.node .call sp cs) := by
      funext i
      unfold HookRegistry.childSlot
      split <;> first | rfl | grind
    rw [hstays]
    refine .pure ⟨[], ?_, .refl _⟩
    rw [hslots] at h
    have hb := Proceeds.node_intro (s := sp) rfl rfl rfl h
    simpa [Trace.through, Trace.entries, hl] using hb

end Upgrade

end Worklet
