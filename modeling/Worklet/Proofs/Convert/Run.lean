import Worklet.Proofs.Convert.Late
import Worklet.Transform

/-!
# Converting a program leaves a trace

What a whole run does, said without the state: the module becomes what it becomes, and what is
recorded and reported are the entries of its trace.

Principal results: `convertTree_proceeds` — every tree leaves its trace; `transform_proceeds`,
`transform_becomes` — a program's conversions and diagnostics are the entries of one trace.
-/

set_option autoImplicit false

namespace Worklet

open Syntax

/-- Converting the tree makes what it becomes, and moves the state by the trace. -/
def Leaves (job : Job) (t : Ast) : Prop :=
  ∀ (s : Progress) (near : Bool), s.Stands near → Ensures (convertTree job t) s fun t' s' => ∃ tr n',
    Proceeds job near s.names .plain t t' tr n' ∧ tr.late = [] ∧
      Moved tr.now tr.caches tr.stmts n' s s'

variable {t : Ast} {tr : Trace} {cs cs' : List Ast} {p : Program}

section Run

variable {job : Job} {near : Bool} {n n' : UsedNames} {s : Progress}

/-! ### Parts -/

theorem convertAll_proceeds : ∀ (ts : List Ast) (s : Progress), (∀ t ∈ ts, Leaves job t) →
    s.Stands near → Ensures (convertAll job ts) s fun ts' s' => ∃ tr n',
      ProceedsAll job near s.names (fun _ => .plain) ts ts' tr n' ∧ tr.late = [] ∧
        Moved tr.now tr.caches tr.stmts n' s s'
  | [], s, _, _ => .pure ⟨{}, s.names, .nil, rfl, .refl s⟩
  | t :: ts, s, hw, hs => by
    rw [convertAll]
    refine .bind (hw t (by simp) s near hs) ?_
    rintro t' s₁ ⟨tr₁, n₁, ht, hl₁, hm₁⟩
    refine .bind (convertAll_proceeds ts s₁ (fun u hu => hw u (by simp [hu])) (hm₁.stands hs)) ?_
    rintro ts' s₂ ⟨tr₂, n₂, hts, hl₂, hm₂⟩
    rw [hm₁.names] at hts
    exact .pure ⟨tr₁ ++ tr₂, n₂, .cons ht hts rfl, by simp [Trace.append_def, hl₁, hl₂], hm₁.trans hm₂⟩

/-- One function or loop deeper, no list of statements is near. -/
theorem Progress.Stands.deeper (hs : s.Stands near) :
    ({ s with depth := s.depth + 1 } : Progress).Stands false := by
  obtain ⟨hne, hsound, -⟩ := hs
  unfold Progress.Sound at hsound
  cases hf : s.frames with
  | nil => exact absurd hf hne
  | cons frame frames =>
    have hle : frame.depth ≤ s.depth := hsound frame (by simp [hf])
    refine ⟨by simp, ?_, ?_⟩
    · intro frame' hframe'
      simp only [List.head?_cons, Option.mem_some_iff] at hframe'
      subst hframe'
      exact Nat.le_succ_of_le hle
    · simp only [Progress.atFrame, beq_eq_false_iff_ne]
      omega

theorem within_proceeds (k : Kind) {ts : List Ast} (hw : ∀ t ∈ ts, Leaves job t)
    (hs : s.Stands near) :
    Ensures (within k (convertAll job ts)) s fun ts' s' => ∃ tr n',
      ProceedsAll job (near && !isRepeated k) s.names (fun _ => .plain) ts ts' tr n' ∧ tr.late = [] ∧
        Moved tr.now tr.caches tr.stmts n' s s' := by
  unfold within
  split
  · rename_i hk
    have hall := convertAll_proceeds ts { s with depth := s.depth + 1 } hw hs.deeper
    refine deeper_ensures (hall.imp ?_)
    rintro ts' s' ⟨tr, n', hts, hl, hm⟩
    exact ⟨tr, n', by simpa [hk] using hts, hl, hm.deeper⟩
  · rename_i hk
    simpa [hk] using convertAll_proceeds ts s hw hs

/-! ### Statements -/

theorem Becomes.isDefaultFunction_eq {t' : Ast} (h : Becomes job .plain t t' tr)
    (ht : isDefaultFunction t = false) : isDefaultFunction t' = false := by
  by_contra hne
  obtain ⟨sp, fs, cs, rfl⟩ := isDefaultFunction_eq_true (by simpa using hne)
  generalize ht' : Ast.node .exportDefaultDecl sp [.node .funcExpr fs cs] = t' at h
  cases h with
  | absent => cases ht'
  | list _ => cases ht'
  | node cache _ hcs htreat _ =>
    rcases treat_cases htreat with rfl | ⟨f, p, cache', hf, hp, rfl⟩
    · cases ht'
      rcases hcs with _ | ⟨hc, _ | _, _⟩
      obtain ⟨cs, _, _, _, rfl, -⟩ := hc.of_node rfl rfl
      cases ht
    · cases FormOf.of_form? hf <;> cases ht'
  | statements hk _ =>
    cases ht'
    cases hk
  | switchCase _ _ _ => cases ht'

/-- A tree that is no function exported by default becomes the same among statements. -/
theorem Proceeds.statement {t' : Ast} (h : Proceeds job near n .plain t t' tr n')
    (ht : isDefaultFunction t = false) : Proceeds job near n .statement t t' tr n' := by
  refine h.reslot rfl ?_ ?_
  · funext i
    unfold HookRegistry.childSlot
    split <;> rfl
  · rintro k sp cs cs' tr rfl hcs
    refine ⟨?_, ?_⟩
    · unfold form?
      split <;> try simp
      rename_i heq
      cases heq
      rcases hcs with _ | ⟨hc, _ | _, _⟩
      obtain ⟨cs, _, _, _, rfl, -⟩ := hc.of_node rfl rfl
      cases ht
    · unfold Slot.detects
      split <;> grind

/-- The function of a default export only has its parts converted. -/
theorem proceeds_exported (fs : Span) (h : ProceedsAll job near n (fun _ => .plain) cs cs' tr n') :
    Proceeds job near n .exported (.node .funcExpr fs cs) (.node .funcExpr fs cs') tr n' := by
  have hform := form?_exported fs cs'
  have hparts : ProceedsAll job (near && !isRepeated .funcExpr) n
      (job.config.hooks.childSlot .exported (.node .funcExpr fs cs)) cs cs' tr n' := by
    rw [near_and_not_isRepeated rfl]
    exact h
  exact .node rfl hparts (treat_none hform _) (by simp [Trace.through_of_ne]) (by rw [cacheFor_none hform])

theorem proceedsAll_default {w : Slot} (sp fs : Span)
    (h : ProceedsAll job near n (fun _ => .plain) cs cs' tr n') :
    ProceedsAll job (near && !isRepeated .exportDefaultDecl) n
      (job.config.hooks.childSlot w (.node .exportDefaultDecl sp [.node .funcExpr fs cs]))
      [.node .funcExpr fs cs] [.node .funcExpr fs cs'] tr n' := by
  rw [near_and_not_isRepeated rfl]
  exact .cons (proceeds_exported fs h) .nil (Trace.append_empty tr).symm

theorem statement_proceeds (hw : Leaves job t)
    (hd : ∀ sp fs cs, t = .node .exportDefaultDecl sp [.node .funcExpr fs cs] → ∀ c ∈ cs, Leaves job c)
    (hs : s.Stands near) :
    Ensures (do convertItem job (← convertTree job t)) s fun t' s' => ∃ tr n',
      Proceeds job near s.names .statement t t' tr n' ∧ tr.late = [] ∧
        Moved tr.now tr.caches tr.stmts n' s s' := by
  cases hdef : isDefaultFunction t with
  | false =>
    refine .bind (hw s near hs) ?_
    rintro t' s' ⟨tr, n', ht', hl, hm⟩
    rw [convertItem_eq (ht'.becomes.isDefaultFunction_eq hdef)]
    exact .pure ⟨tr, n', ht'.statement hdef, hl, hm⟩
  | true =>
    obtain ⟨sp, fs, cs, rfl⟩ := isDefaultFunction_eq_true hdef
    rw [convertTree, bind_assoc]
    refine .bind (convertAll_proceeds cs s (hd sp fs cs rfl) hs) ?_
    rintro cs' s₁ ⟨tr, n₁, hcs, hl, hm⟩
    rw [pure_bind]
    refine (convertItem_treats (hm.stands hs).frames sp fs cs').imp ?_
    rintro t' s₂ ⟨own, htreat, hl', hm'⟩
    rw [(hm.stands hs).atFrame, hm.names] at htreat hm'
    refine ⟨tr ++ own, _, ?_, by simp [Trace.append_def, hl, hl'], hm.trans hm'⟩
    exact .node rfl (proceedsAll_default sp fs hcs) htreat (by rw [Trace.through_of_ne (by simp)]) rfl

/-- The nearest list of statements, when nothing waits there, is near. -/
theorem Progress.Fresh.stands (h : s.Fresh) : s.Stands true := by
  refine ⟨?_, h.sound, ?_⟩ <;> obtain ⟨frames, hf⟩ := h <;> simp [hf, Progress.atFrame]

/-- **A list of statements leaves its entries.** -/
theorem convertStmts_proceeds : ∀ (ts : List Ast) (s : Progress),
    (∀ t, sizeOf t < sizeOf ts → Leaves job t) → s.Fresh →
    Ensures (convertStmts job ts) s fun ts' s' => ∃ entries n',
      ProceedsStmts job s.names ts ts' entries n' ∧ Moved entries [] [] n' s s'
  | [], s, _, _ => .pure ⟨[], s.names, .nil, .refl s⟩
  | t :: ts, s, hw, hs => by
    have hd : ∀ sp fs cs, t = .node .exportDefaultDecl sp [.node .funcExpr fs cs] →
        ∀ c ∈ cs, Leaves job c := by
      rintro sp fs cs rfl c hc
      have := List.sizeOf_lt_of_mem hc
      exact hw c (by simp; omega)
    rw [convertStmts, ← bind_assoc]
    refine .bind (statement_proceeds (hw t (by simp; omega)) hd hs.stands) ?_
    rintro t' s₁ ⟨tr, n₁, ht', hl, hm₁⟩
    refine .bind (takeQueued_moved hs hm₁) ?_
    rintro _ s₂ ⟨rfl, hm₂⟩
    have hfresh : s₂.Fresh := by
      obtain ⟨frames, hf⟩ := hs
      exact ⟨frames, by rw [hm₂.frames, hm₂.depth, hf, queued_nil]⟩
    refine .bind (convertStmts_proceeds ts s₂ (fun u hu => hw u (by simp; omega)) hfresh) ?_
    rintro ts' s₃ ⟨entries, n₃, hts, hm₃⟩
    rw [hm₂.names] at hts
    refine .pure ⟨tr.entries ++ entries, n₃, .cons ht' hts, ?_⟩
    simpa [Trace.entries, hl] using hm₂.trans hm₃

theorem inFrame_convertStmts_proceeds (ts : List Ast)
    (hw : ∀ t, sizeOf t < sizeOf ts → Leaves job t) :
    Ensures (inFrame (convertStmts job ts)) s fun ts' s' => ∃ entries n',
      ProceedsStmts job s.names ts ts' entries n' ∧ Moved entries [] [] n' s s' := by
  refine inFrame_ensures ((convertStmts_proceeds ts _ hw ⟨s.frames, rfl⟩).imp ?_)
  rintro ts' s' ⟨entries, n', hts, hm⟩
  exact ⟨entries, n', hts, hm.inFrame⟩

/-! ### Trees -/

/-- The children of most nodes stand nowhere in particular. -/
theorem ProceedsAll.childSlot_plain {k : Kind} {sp : Span}
    (h : ProceedsAll job near n (fun _ => .plain) cs cs' tr n')
    (hl : holdsStatements (.node k sp cs) = false) (hd : isDefaultFunction (.node k sp cs) = false)
    (hk : k ≠ .call) :
    ProceedsAll job near n (job.config.hooks.childSlot .plain (.node k sp cs)) cs cs' tr n' := by
  by_cases hcase : k = .switchCase
  · subst hcase
    cases h with
    | nil => exact .nil
    | cons _ _ _ => cases hl
  · have hslots : (fun _ => .plain) = job.config.hooks.childSlot .plain (.node k sp cs) := by
      funext i
      unfold HookRegistry.childSlot
      split <;> first | rfl | grind [holdsStatements, isStatementList, isDefaultFunction]
    rwa [← hslots]

/-- **Every tree leaves its trace.** -/
theorem convertTree_proceeds (t : Ast) : Leaves job t := by
  induction hn : sizeOf t using Nat.strongRecOn generalizing t with
  | ind n ih =>
  have hw : ∀ u, sizeOf u < sizeOf t → Leaves job u := fun u hu => ih _ (hn ▸ hu) u rfl
  clear ih hn
  intro s near hs
  unfold convertTree
  split
  · exact .pure ⟨{}, s.names, .absent, rfl, .refl _⟩
  · rename_i ts
    refine .bind (convertAll_proceeds ts s (fun t ht => hw t (sizeOf_lt_of_mem_list ht)) hs) ?_
    rintro ts' s' ⟨tr, n', hts', hl, hm⟩
    exact .pure ⟨tr, n', .list hts', hl, hm⟩
  case h_3 sp ss | h_4 sp ss | h_5 shebang sp ss =>
    refine .bind (inFrame_convertStmts_proceeds ss fun u hu => hw u (by simp; omega)) ?_
    rintro ss' s' ⟨entries, n', hss, hm⟩
    exact .pure ⟨_, n', .statements rfl hss, rfl, hm⟩
  · rename_i sp test ss
    refine .bind (hw test (by simp; omega) s near hs) ?_
    rintro test' s₁ ⟨tr, n₁, htest, hl, hm₁⟩
    refine .bind (inFrame_convertStmts_proceeds ss fun u hu => hw u (by simp; omega)) ?_
    rintro ss' s₂ ⟨entries, n₂, hss, hm₂⟩
    rw [hm₁.names] at hss
    refine .pure ⟨tr ++ { now := entries }, n₂, .switchCase htest hss rfl, ?_, hm₁.trans hm₂⟩
    simp [Trace.append_def, hl]
  · rename_i sp fs cs
    have hcs : ∀ c ∈ cs, Leaves job c := fun c hc =>
      hw c (Nat.lt_trans (sizeOf_lt_of_mem_node hc) (sizeOf_lt_of_mem_node (List.mem_singleton.2 rfl)))
    refine .bind (convertAll_proceeds cs s hcs hs) ?_
    rintro cs' s' ⟨tr, n', hcs', hl, hm⟩
    refine .pure ⟨tr, n', ?_, hl, hm⟩
    have hform := @form?_default .plain (by simp) sp fs cs'
    exact .node rfl (proceedsAll_default sp fs hcs') (treat_none hform _)
      (by simp [Trace.through_of_ne]) (by rw [cacheFor_none hform])
  · rename_i k sp cs h₁ h₂ h₃ h₄ h₅
    have hd : isDefaultFunction (.node k sp cs) = false := by
      by_contra hne
      obtain ⟨sp', fs, cs', heq⟩ := isDefaultFunction_eq_true (by simpa using hne)
      cases heq
      exact h₅ _ _ rfl rfl
    have hl : holdsStatements (.node k sp cs) = false := by
      unfold holdsStatements
      split <;> grind [isStatementList]
    refine .bind (within_proceeds k (fun c hc => hw c (sizeOf_lt_of_mem_node hc)) hs) ?_
    rintro cs' s₁ ⟨tr, n₁, hcs', hlate, hm⟩
    by_cases hk : k = .call
    · subst hk
      simp only [isRepeated, Bool.not_false, Bool.and_true] at hcs'
      refine (convertCall_proceeds hcs' hlate).imp ?_
      rintro t' s₂ ⟨es, ht', hm'⟩
      rw [hm.names] at hm'
      exact ⟨_, n₁, ht', hlate, by simpa using hm.trans hm'⟩
    · refine (convertNode_treats (hm.stands hs).frames hk sp cs').imp ?_
      rintro t' s₂ ⟨own, htreat, hlate', hm'⟩
      rw [(hm.stands hs).atFrame, hm.names] at htreat hm'
      refine ⟨tr ++ own, _, .node hl (hcs'.childSlot_plain hl hd hk) htreat ?_ rfl, ?_, hm.trans hm'⟩
      · rw [Trace.through_of_ne hk]
      · simp [Trace.append_def, hlate, hlate']

end Run

/-! ### Programs -/

def isModule : Ast → Bool
  | .node (.module _) _ _ => true
  | _ => false

theorem isModule_eq_true (h : isModule t = true) :
    ∃ shebang s items, t = .node (.module shebang) s items := by
  unfold isModule at h
  split at h
  · exact ⟨_, _, _, rfl⟩
  · cases h

/-- What is read from a file is a module. -/
theorem isModule_of_parse {filename source : String} (h : Program.parse filename source = .ok p) :
    isModule p.module = true := by
  unfold Program.parse at h
  dsimp only at h
  split at h
  · rename_i module s hread
    cases h
    unfold readModule at hread
    dsimp only at hread
    split at hread
    · cases hread
      rfl
    · cases hread
  · cases h

theorem transform_of_not_module (config : Config) (hroot : isModule p.module = false) :
    (transform config p).conversions = [] := by
  have hmodule : convertModule (.ofProgram config p) p.module = pure p.module := by
    unfold convertModule
    split
    · rename_i heq
      rw [heq] at hroot
      cases hroot
    · rfl
  simp only [transform, hmodule]
  rfl

/-- What is recorded, reported and left of the comments follows from the trace of the module. -/
theorem transform_proceeds (config : Config) (hroot : isModule p.module = true) :
    ∃ module entries n',
      Proceeds (.ofProgram config p) true (UsedNames.ofTree p.module) .plain p.module module
        { now := entries } n' ∧
        (transform config p).module = (if config.strictMode then ensureStrict module else module) ∧
        (transform config p).conversions = convertedIn entries ∧
        (transform config p).diagnostics = refusedIn entries ∧
        (transform config p).comments = leftComments p.comments (convertedIn entries) := by
  let job := Job.ofProgram config p
  let start : Progress := { names := UsedNames.ofTree p.module, comments := p.comments }
  obtain ⟨shebang, sp, items, hmodule⟩ := isModule_eq_true hroot
  have hrun : Ensures (convertModule job p.module) start fun t' s' => ∃ entries n',
      Proceeds job true start.names .plain p.module t' { now := entries } n' ∧
        Moved entries [] [] n' start s' := by
    rw [hmodule, convertModule]
    refine .bind (inFrame_convertStmts_proceeds items fun u _ => convertTree_proceeds u) ?_
    rintro items' s' ⟨entries, n', hitems, hm⟩
    exact .pure ⟨entries, n', .statements rfl hitems, hm⟩
  obtain ⟨entries, n', hb, hm⟩ := hrun
  refine ⟨_, entries, n', hb, rfl, ?_, ?_, hm.comments⟩
  · exact (congrArg List.reverse hm.conversions).trans (by simp [start])
  · exact (congrArg List.reverse hm.diagnostics).trans (by simp [start])

/-- **A program's conversions and diagnostics are the entries of the trace of its module.** -/
theorem transform_becomes (config : Config) (hroot : isModule p.module = true) :
    ∃ module entries,
      Becomes (.ofProgram config p) .plain p.module module { now := entries } ∧
        (transform config p).module = (if config.strictMode then ensureStrict module else module) ∧
        (transform config p).conversions = convertedIn entries ∧
        (transform config p).diagnostics = refusedIn entries ∧
        (transform config p).comments = leftComments p.comments (convertedIn entries) := by
  obtain ⟨module, entries, n', h, hrest⟩ := transform_proceeds config hroot
  exact ⟨module, entries, h.becomes, hrest⟩

end Worklet
