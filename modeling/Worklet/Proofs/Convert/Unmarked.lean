import Worklet.Proofs.Convert.Echoes
import Worklet.Proofs.Convert.Fates

/-!
# Functions that stay as they are

A function that cannot be converted is reported, and that is all: the rest of the program is converted
as if the function had no marker.

Principal results: `Proceeds.unmark` — a tree without some markers becomes what the tree becomes,
without them; `refused_like_unmarked` — a function that stays as it is leaves only a diagnostic.
-/

set_option autoImplicit false

namespace Worklet

open Syntax

/-! ### Two traces -/

/-- The second conversion is of the first one's function without the markers of some blocks. -/
structure Conversion.Echoes (config : Config) (cleared : List Span) (e e' : Conversion) : Prop where
  prepared : e.prepared.Echoes config cleared e'.prepared
  reason : e'.reason = e.reason
  callable : Worklet.Echoes config cleared e.callable e'.callable

/-- The second entries are the first without some diagnostics, whose locations are listed. -/
inductive EchoesEntries (config : Config) (cleared : List Span) :
    List Location → List Entry → List Entry → Prop
  | nil : EchoesEntries config cleared [] [] []
  | converted {e e' : Conversion} {gone : List Location} {es es' : List Entry} :
    e.Echoes config cleared e' → EchoesEntries config cleared gone es es' →
    EchoesEntries config cleared gone (.converted e :: es) (.converted e' :: es')
  | refused (d : Diagnostic) {gone : List Location} {es es' : List Entry} :
    EchoesEntries config cleared gone es es' →
    EchoesEntries config cleared gone (.refused d :: es) (.refused d :: es')
  | gone (d : Diagnostic) {gone : List Location} {es es' : List Entry} :
    EchoesEntries config cleared gone es es' →
    EchoesEntries config cleared (d.location :: gone) (.refused d :: es) es'

/-- The second trace is the first without some diagnostics. Only markers are lost, so none that comes
late is. -/
structure Trace.Echoes (config : Config) (cleared : List Span) (gone : List Location)
    (tr tr' : Trace) : Prop where
  now : EchoesEntries config cleared gone tr.now tr'.now
  late : EchoesEntries config cleared [] tr.late tr'.late
  caches : tr'.caches = tr.caches
  stmts : EchoesAll config cleared tr.stmts tr'.stmts

section Traces

variable {config : Config} {cleared : List Span} {gone gone' : List Location}
  {es es' fs fs' : List Entry} {a a' b b' : Trace}

theorem EchoesEntries.append (h : EchoesEntries config cleared gone es es')
    (h' : EchoesEntries config cleared gone' fs fs') :
    EchoesEntries config cleared (gone ++ gone') (es ++ fs) (es' ++ fs') := by
  induction h with
  | nil => exact h'
  | converted he _ ih => exact .converted he ih
  | refused d _ ih => exact .refused d ih
  | gone d _ ih => exact .gone d ih

theorem EchoesEntries.converted_forall₂ (h : EchoesEntries config cleared gone es es') :
    List.Forall₂ (Conversion.Echoes config cleared) (convertedIn es) (convertedIn es') := by
  induction h with
  | nil => exact .nil
  | converted he _ ih => exact .cons he ih
  | refused _ _ ih => exact ih
  | gone _ _ ih => exact ih

theorem EchoesEntries.refused_sublist (h : EchoesEntries config cleared gone es es') :
    (refusedIn es').Sublist (refusedIn es) := by
  induction h with
  | nil => exact .slnil
  | converted _ _ ih => exact ih
  | refused d _ ih => exact ih.cons_cons d
  | gone d _ ih => exact ih.cons d

theorem EchoesEntries.refused_perm (h : EchoesEntries config cleared gone es es') :
    ((refusedIn es).map (·.location)).Perm (gone ++ (refusedIn es').map (·.location)) := by
  induction h with
  | nil => exact .nil
  | converted _ _ ih => exact ih
  | refused d _ ih => exact (ih.cons d.location).trans List.perm_middle.symm
  | gone d _ ih => exact ih.cons d.location

namespace Trace.Echoes

theorem empty : Trace.Echoes config cleared [] {} {} :=
  ⟨.nil, .nil, rfl, .nil⟩

theorem append (h : a.Echoes config cleared gone a') (h' : b.Echoes config cleared gone' b') :
    (a ++ b).Echoes config cleared (gone ++ gone') (a' ++ b') where
  now := h.now.append h'.now
  late := h.late.append h'.late
  caches := by rw [Trace.append_caches, Trace.append_caches, h.caches, h'.caches]
  stmts := h.stmts.append h'.stmts

theorem entries (h : a.Echoes config cleared gone a') :
    EchoesEntries config cleared gone a.entries a'.entries := by
  have hall := h.now.append h.late
  rwa [List.append_nil] at hall

theorem through (k : Kind) (h : a.Echoes config cleared gone a') :
    (a.through k).Echoes config cleared gone (a'.through k) := by
  unfold Trace.through
  split
  · exact ⟨h.entries, .nil, h.caches, h.stmts⟩
  · exact h

end Trace.Echoes

end Traces

/-! ### Functions that lose their markers -/

/-- Where the functions stand that lose their markers. -/
def lostMarkers (marker : String) (cleared : List Span) (sites : List FunctionSite) : List Span :=
  (sites.filter fun s => s.isMarked marker && isCleared cleared s.subject.body.span).map (·.span)

theorem lostMarkers_append (marker : String) (cleared : List Span) (a b : List FunctionSite) :
    lostMarkers marker cleared (a ++ b) = lostMarkers marker cleared a ++ lostMarkers marker cleared b := by
  rw [lostMarkers, lostMarkers, lostMarkers, List.filter_append, List.map_append]

/-- No function of a block that loses its markers is converted. -/
def Exempts (cleared : List Span) (entries : List Entry) : Prop :=
  ∀ e, .converted e ∈ entries → isCleared cleared e.prepared.candidate.body.span = false

theorem exempts_append {cleared : List Span} {es fs : List Entry} :
    Exempts cleared (es ++ fs) ↔ Exempts cleared es ∧ Exempts cleared fs := by
  simp only [Exempts, List.mem_append, or_imp, forall_and]

section Unmark

variable {job : Job} {cleared : List Span} {near : Bool} {n n' : UsedNames} {w : Slot} {t t' u : Ast}
  {own : Trace}

theorem exempts_trace_append {a b : Trace} :
    Exempts cleared (a ++ b).entries ↔ Exempts cleared a.entries ∧ Exempts cleared b.entries := by
  simp only [Exempts, Trace.mem_entries_append, or_imp, forall_and]

theorem Form.Echoes.treat {f f' : Form} (h : f.Echoes job.config cleared f')
    (ht : Worklet.Echoes job.config cleared t u) {detected : Option Reason} {cache : Option String}
    (htreat : f.treat job detected t cache = (t', own)) (hs : Exempts cleared own.entries) :
    ∃ u' own', f'.treat job detected u cache = (u', own') ∧ Worklet.Echoes job.config cleared t' u' ∧
      own.Echoes job.config cleared
        (if job.isMarked f.subject.body && isCleared cleared f.subject.body.span then
          [job.locate f.subject.span] else []) own' := by
  have hm : job.isMarked f'.subject.body =
      (job.isMarked f.subject.body && !isCleared cleared f.subject.body.span) :=
    h.subject.body.hasDirective_eq
  unfold Form.treat at htreat ⊢
  obtain ⟨refusal, hp, hp'⟩ | ⟨p, p', hp, hp', hspan, hecho⟩ := h.subject.prepare rfl
  · simp only [hp, hp', h.subject.span_eq, hm, Prod.mk.injEq] at htreat ⊢
    obtain ⟨rfl, rfl⟩ := htreat
    refine ⟨u, _, ⟨rfl, rfl⟩, ht, ?_, ?_, rfl, .nil⟩
    · cases job.isMarked f.subject.body <;> cases isCleared cleared f.subject.body.span
      · exact .nil
      · exact .nil
      · exact .refused _ .nil
      · exact .gone ⟨_, _⟩ .nil
    · dsimp only
      split
      · exact .refused _ .nil
      · exact .nil
  · simp only [hp, hp', hm] at htreat ⊢
    have hclear {e : Conversion} (he : .converted e ∈ own.entries) (hep : e.prepared = p) :
        isCleared cleared f.subject.body.span = false := by
      rw [← hspan, ← hep]
      exact hs e he
    cases hmark : job.isMarked f.subject.body with
    | true =>
      simp only [hmark, if_true, Prod.mk.injEq] at htreat
      obtain ⟨rfl, rfl⟩ := htreat
      have hc := hclear (e := ⟨p, .directive, f.callable p⟩) (by simp [Trace.entries]) rfl
      refine ⟨f'.turned p' cache, _, by rw [hc]; rfl, h.turned cache (hecho hc), ?_⟩
      rw [hc]
      refine ⟨.converted ⟨hecho hc, rfl, h.callable (hecho hc)⟩ .nil, .nil, ?_, h.attached (hecho hc)⟩
      rw [h.isAccessor]
    | false =>
      simp only [hmark, Bool.false_eq_true, if_false] at htreat
      cases detected with
      | none =>
        cases htreat
        exact ⟨u, {}, rfl, ht, .empty⟩
      | some reason =>
        simp only [Prod.mk.injEq] at htreat
        obtain ⟨rfl, rfl⟩ := htreat
        have hc := hclear (e := ⟨p, reason, f.callable p⟩) (by simp [Trace.entries]) rfl
        exact ⟨f'.turned p' none, _, rfl, h.turned none (hecho hc),
          .nil, .converted ⟨hecho hc, rfl, h.callable (hecho hc)⟩ .nil, rfl, .nil⟩

/-- A function of which such an accessor is made gets the same variable. -/
theorem Form.Echoes.cacheFor {f f' : Form} (h : f.Echoes job.config cleared f')
    (hf : form? w t = some f) (hf' : form? w u = some f') (hbase : cacheBase u = cacheBase t)
    (hs : ∀ p, job.isMarked f.subject.body = true → f.subject.prepare job = .ok p →
      isCleared cleared p.candidate.body.span = false) :
    cacheFor job near n w u = cacheFor job near n w t := by
  have hm : job.isMarked f'.subject.body =
      (job.isMarked f.subject.body && !isCleared cleared f.subject.body.span) :=
    h.subject.body.hasDirective_eq
  simp only [Worklet.cacheFor, hf, hf', hbase, h.isAccessor, hm]
  obtain ⟨refusal, hp, hp'⟩ | ⟨p, p', hp, hp', hspan, -⟩ := h.subject.prepare rfl
  · simp [hp, hp', Except.isOk, Except.toBool]
  · cases hmark : job.isMarked f.subject.body with
    | true => simp [hp, hp', Except.isOk, Except.toBool, ← hspan, hs p hmark hp]
    | false => simp

/-- Where diagnostics go if the functions of some sites lose their markers. -/
def goneAt (job : Job) (cleared : List Span) (sites : List FunctionSite) : List Location :=
  (lostMarkers job.config.marker cleared sites).map job.locate

theorem goneAt_append (sites sites' : List FunctionSite) :
    goneAt job cleared (sites ++ sites') = goneAt job cleared sites ++ goneAt job cleared sites' := by
  rw [goneAt, lostMarkers_append, List.map_append, goneAt, goneAt]

theorem cacheBase_node (k : Kind) (s : Span) (cs us : List Ast) :
    cacheBase (.node k s us) = cacheBase (.node k s cs) := by
  cases k with
  | classMethod kind mods => cases kind <;> rfl
  | _ => rfl

/-- What becomes of two such nodes. The function that the node is, before its parts are converted,
tells whether a marker is lost. -/
theorem EchoesAll.treat {k : Kind} {s : Span} {ts cs us : List Ast} {inner : List Span}
    (h : EchoesAll job.config cleared cs us) (hk : isClearedBlock cleared k s = false)
    (ha : Option.Rel Subject.Agrees (subject? w (.node k s ts)) (subject? w (.node k s cs)))
    (htreat : treat job w (.node k s cs) (cacheFor job near n w (.node k s cs)).1 = (t', own))
    (hs : Exempts cleared own.entries) :
    cacheFor job near n w (.node k s us) = cacheFor job near n w (.node k s cs) ∧
    ∃ u' own', treat job w (.node k s us) (cacheFor job near n w (.node k s cs)).1 = (u', own') ∧
      Echoes job.config cleared t' u' ∧
      own.Echoes job.config cleared (goneAt job cleared ((subject? w (.node k s ts)).map fun subject =>
        FunctionSite.mk subject (w.detects (.node k s ts)) inner).toList) own' := by
  have hnode : Echoes job.config cleared (.node k s cs) (.node k s us) := .node hk h
  rw [← subject?_form? w (.node k s cs)] at ha
  unfold Worklet.treat at htreat ⊢
  rw [detects_node w k s cs us]
  have hform := h.form? (k := k) (s := s) w
  generalize hf : Worklet.form? w (.node k s cs) = a at hform htreat ha
  generalize hf' : Worklet.form? w (.node k s us) = b at hform ⊢
  cases hform with
  | none =>
    cases htreat
    refine ⟨by rw [cacheFor_none hf, cacheFor_none hf'], _, _, rfl, hnode, ?_⟩
    generalize subject? w (.node k s ts) = a at ha
    cases ha
    exact .empty
  | @some f f' hform =>
    generalize subject? w (.node k s ts) = a at ha
    cases ha with
    | @some a _ ha =>
      refine ⟨hform.cacheFor hf hf' (cacheBase_node k s cs us) fun p hm hp => ?_, ?_⟩
      · refine hs ⟨p, .directive, f.callable p⟩ ?_
        simp only [Form.treat, hp, hm, if_true, Prod.mk.injEq] at htreat
        rw [← htreat.2]
        simp [Trace.entries]
      · obtain ⟨u', own', hu, he, htr⟩ := hform.treat hnode htreat hs
        refine ⟨u', own', hu, he, ?_⟩
        have hmark : job.isMarked f.subject.body = hasDirective job.config.marker a.body :=
          ha.hasDirective_eq _
        convert htr using 1
        simp only [goneAt, lostMarkers, FunctionSite.isMarked, FunctionSite.span, Option.map_some,
          Option.toList_some, List.filter_cons, List.filter_nil, hmark, ha.span_eq]
        cases hd : hasDirective job.config.marker a.body with
        | false => rfl
        | true =>
          rw [ha.placed hd]
          split <;> simp_all

theorem unmark_of_not_holdsStatements {k : Kind} {s : Span} {cs : List Ast} (marker : String)
    (cleared : List Span) (h : holdsStatements (.node k s cs) = false) :
    isClearedBlock cleared k s = false ∧
      unmark marker cleared (.node k s cs) = .node k s (unmarkAll marker cleared cs) ∧
      holdsStatements (.node k s (unmarkAll marker cleared cs)) = false := by
  cases k with
  | block => cases h
  | switchCase =>
    cases cs with
    | nil => exact ⟨rfl, rfl, rfl⟩
    | cons t ts => cases h
  | _ => exact ⟨rfl, rfl, h⟩

theorem Proceeds.of_isDirective {marker : String} {tr : Trace}
    (h : Proceeds job near n w t t' tr n') (ht : isDirective marker t = true) :
    t' = t ∧ tr = {} ∧ n' = n := by
  obtain ⟨s, s', v, raw, rfl, -⟩ := isDirective_eq_true ht
  obtain ⟨cs', tr₁, rfl, hcs, rfl⟩ := h.node_of_not_function rfl rfl rfl
  rcases hcs with _ | ⟨h₁, _ | _, rfl⟩
  obtain ⟨cs', tr₂, rfl, hcs, rfl⟩ := h₁.node_of_not_function rfl rfl rfl
  cases hcs
  exact ⟨rfl, rfl, rfl⟩

/-- Markers at the head of statements may go before or after these are converted. -/
theorem ProceedsStmts.dropWhile (marker : String) : ∀ {n n' : UsedNames} {ss ss' : List Ast}
    {entries : List Entry}, ProceedsStmts job n ss ss' entries n' →
    ProceedsStmts job n (ss.dropWhile (isDirective marker)) (ss'.dropWhile (isDirective marker))
      entries n' := by
  intro n n' ss
  induction ss generalizing n with
  | nil =>
    intro _ _ h
    cases h
    exact .nil
  | cons t ts ih =>
    intro _ _ h
    obtain _ | ⟨h, hs⟩ := h
    by_cases ht : isDirective marker t = true
    · obtain ⟨rfl, rfl, rfl⟩ := h.of_isDirective ht
      simpa [List.dropWhile_cons, ht, Trace.entries] using ih hs
    · have hss := ProceedsStmts.cons h hs
      have hhead := hss.becomes.head_isDirective marker
      have hsame {ss : List Ast} (h : ss.head?.any (isDirective marker) = false) :
          ss.dropWhile (isDirective marker) = ss := by
        cases ss with
        | nil => rfl
        | cons t ts => exact List.dropWhile_cons_of_neg (by simpa using h)
      have hno : (t :: ts).head?.any (isDirective marker) = false := by simpa using ht
      rw [hsame hno, hsame (hhead.trans hno)]
      exact hss

theorem functionSites_node (hooks : HookRegistry) (w : Slot) (k : Kind) (s : Span) (cs : List Ast) :
    functionSites hooks w (.node k s cs) =
      functionSitesAll hooks (hooks.childSlot w (.node k s cs)) cs ++
        ((subject? w (.node k s cs)).map fun subject =>
          FunctionSite.mk subject (w.detects (.node k s cs))
            ((functionSitesAll hooks (hooks.childSlot w (.node k s cs)) cs).map (·.span))).toList := by
  rw [functionSites]

theorem echoesAll_cacheDecls (names : List String) :
    EchoesAll job.config cleared (names.map cacheDecl) (names.map cacheDecl) := by
  induction names with
  | nil => exact .nil
  | cons n ns ih =>
    refine .cons (.made (.cons (.made (.cons ?_ (.cons .absent .nil))) .nil)) ih
    exact .made (.cons (echoes_madeIdent n) (.cons .absent .nil))

mutual

/-- **A tree without some markers becomes what the tree becomes, without them.** -/
theorem Proceeds.unmark : ∀ {near : Bool} {n n' : UsedNames} {w : Slot} {t t' : Ast} {tr : Trace},
    Proceeds job near n w t t' tr n' → Exempts cleared tr.entries →
    ∃ u tr', Proceeds job near n w (Worklet.unmark job.config.marker cleared t) u tr' n' ∧
      Echoes job.config cleared t' u ∧
      tr.Echoes job.config cleared (goneAt job cleared (functionSites job.config.hooks w t)) tr'
  | _, _, _, _, _, _, _, .absent, _ => ⟨.absent, {}, .absent, .absent, .empty⟩
  | _, _, _, _, _, _, _, .list h, hs => by
    obtain ⟨us, tr', hu, he, htr⟩ := h.unmark hs
    exact ⟨.list us, tr', .list hu, .list he, htr⟩
  | _, _, _, _, .node k s cs, _, _, .node hl hcs htreat rfl hn, hs => by
    rw [exempts_trace_append, Trace.through_entries] at hs
    obtain ⟨us, tr', hus, he, htr⟩ := hcs.unmark hs.1
    obtain ⟨hk, hunmark, hl'⟩ := unmark_of_not_holdsStatements job.config.marker cleared hl
    obtain ⟨hcache, u, own', hu, he', hown⟩ :=
      he.treat hk (subject?_becomes hcs.becomes) htreat hs.2
    rw [← hcache] at hu
    rw [hunmark, functionSites_node, goneAt_append]
    refine ⟨u, _, .node hl' ?_ hu rfl (by rw [hn, hcache]), he', (htr.through k).append hown⟩
    rwa [(echoesAll_unmark cs).childSlot_eq]
  | _, _, _, _, .node k s ss, _, _, .statements hk h, hs => by
    obtain ⟨us, entries', hu, he, hentries⟩ := h.unmark (by simpa [Trace.entries] using hs)
    rw [functionSites_statements hk]
    have htr : Trace.Echoes job.config cleared _ { now := _ } { now := entries' } :=
      ⟨hentries, .nil, rfl, .nil⟩
    cases hc : isClearedBlock cleared k s with
    | true =>
      obtain ⟨rfl, hclear⟩ := isClearedBlock_eq_true hc
      refine ⟨_, _, ?_, .cleared hclear (he.dropWhile _), htr⟩
      rw [Worklet.unmark, hc]
      exact .statements hk (hu.dropWhile _)
    | false =>
      refine ⟨_, _, ?_, .node hc he, htr⟩
      rw [Worklet.unmark, hc]
      exact .statements hk hu
  | _, _, _, _, _, _, _, .switchCase h hss rfl, hs => by
    rw [exempts_trace_append] at hs
    obtain ⟨test, tr', hu, he, htr⟩ := h.unmark hs.1
    obtain ⟨us, entries', hus, hes, hentries⟩ := hss.unmark (by simpa [Trace.entries] using hs.2)
    rw [functionSites_switchCase, goneAt_append]
    exact ⟨_, _, .switchCase hu hus rfl, .node rfl (.cons he hes),
      htr.append ⟨hentries, .nil, rfl, .nil⟩⟩

theorem ProceedsAll.unmark : ∀ {near : Bool} {n n' : UsedNames} {ws : Nat → Slot}
    {ts ts' : List Ast} {tr : Trace},
    ProceedsAll job near n ws ts ts' tr n' → Exempts cleared tr.entries →
    ∃ us tr', ProceedsAll job near n ws (unmarkAll job.config.marker cleared ts) us tr' n' ∧
      EchoesAll job.config cleared ts' us ∧
      tr.Echoes job.config cleared (goneAt job cleared (functionSitesAll job.config.hooks ws ts)) tr'
  | _, _, _, _, _, _, _, .nil, _ => ⟨[], {}, .nil, .nil, .empty⟩
  | _, _, _, _, _, _, _, .cons h hs rfl, hspare => by
    rw [exempts_trace_append] at hspare
    obtain ⟨u, tr₁, hu, he, htr₁⟩ := h.unmark hspare.1
    obtain ⟨us, tr₂, hus, hes, htr₂⟩ := hs.unmark hspare.2
    rw [functionSitesAll, goneAt_append]
    exact ⟨u :: us, _, .cons hu hus rfl, .cons he hes, htr₁.append htr₂⟩

theorem ProceedsStmts.unmark : ∀ {n n' : UsedNames} {ss ss' : List Ast} {entries : List Entry},
    ProceedsStmts job n ss ss' entries n' → Exempts cleared entries →
    ∃ us entries', ProceedsStmts job n (unmarkAll job.config.marker cleared ss) us entries' n' ∧
      EchoesAll job.config cleared ss' us ∧
      EchoesEntries job.config cleared
        (goneAt job cleared (functionSitesAll job.config.hooks (fun _ => .statement) ss))
        entries entries'
  | _, _, _, _, _, .nil, _ => ⟨[], [], .nil, .nil, .nil⟩
  | _, _, _, _, _, .cons h hs, hspare => by
    rw [exempts_append] at hspare
    obtain ⟨u, tr', hu, he, htr⟩ := h.unmark hspare.1
    obtain ⟨us, entries', hus, hes, hentries⟩ := hs.unmark hspare.2
    rw [functionSitesAll, goneAt_append]
    refine ⟨_, _, .cons hu hus, ?_, htr.entries.append hentries⟩
    rw [htr.caches]
    exact .append (.append (echoesAll_cacheDecls _) (.cons he htr.stmts)) hes

end

end Unmark

/-! ### Functions that are reported -/

/-- What is left when a function is reported and nothing else happens. -/
def Progress.reporting (s : Progress) (d : Diagnostic) : Progress :=
  { s with diagnostics := d :: s.diagnostics }

/-- A function that cannot be prepared is reported, and stays: whichever step meets it, the node is the
same and the diagnostic is all that is left. -/
structure Job.ReportsOnly (job : Job) : Prop where
  /-- A candidate, whatever it is a worklet for. -/
  attempt : ∀ (s : Progress) (c : Candidate) (reason : Reason) (callable : Prepared → Ast)
    (refusal : Refusal), job.prepare c = .error refusal →
    (Worklet.attempt job c reason callable).run s = (none, s.reporting ⟨refusal, job.locate c.span⟩)
  /-- A marked function of any form. Around it are statements. -/
  node : ∀ (s : Progress) (t : Ast) (f : Form) (refusal : Refusal), s.frames ≠ [] →
    form? .plain t = some f → job.isMarked f.subject.body = true →
    f.subject.prepare job = .error refusal →
    (convertNode job t).run s = (t, s.reporting ⟨refusal, job.locate f.subject.span⟩)
  /-- A marked function that is a default export. -/
  item : ∀ (s : Progress) (span : Span) (e : Ast) (f : Form) (refusal : Refusal), s.frames ≠ [] →
    form? .statement (.node .exportDefaultDecl span [e]) = some f →
    job.isMarked f.subject.body = true → f.subject.prepare job = .error refusal →
    (convertItem job (.node .exportDefaultDecl span [e])).run s =
      (.node .exportDefaultDecl span [e], s.reporting ⟨refusal, job.locate f.subject.span⟩)
  /-- A function expression that a hook asks for. -/
  expression : ∀ (s : Progress) (t : Ast) (c : Candidate) (reason : Reason) (refusal : Refusal),
    Candidate.ofExpr t.unparen = some c → job.prepare c = .error refusal →
    (convertFunctionExpr job reason t).run s = (t, s.reporting ⟨refusal, job.locate c.span⟩)
  /-- A method of an object that a hook asks for. -/
  method : ∀ (s : Progress) (span : Span) (key f : Ast) (c : Candidate) (reason : Reason)
    (refusal : Refusal), Candidate.ofFunction .objectMethod (keyText key) f = some c →
    job.prepare c = .error refusal →
    (convertMethod job reason (.node .method span [key, f])).run s =
      (.node .method span [key, f], s.reporting ⟨refusal, job.locate c.span⟩)

section Reported

variable {job : Job} {s s' : Progress} {c : Candidate} {reason : Reason} {refusal : Refusal}
  {d : Diagnostic} {w : Slot} {t : Ast} {f : Form}

theorem Moved.eq_reporting (h : Moved [.refused d] [] [] s.names s s') : s' = s.reporting d := by
  obtain ⟨names, frames, depth, conversions, diagnostics, comments⟩ := s'
  obtain ⟨hdepth, hframes, hconversions, hdiagnostics, hcomments, hnames⟩ := h
  simp only at hdepth hframes hconversions hdiagnostics hcomments hnames
  subst hdepth hframes hconversions hdiagnostics hcomments hnames
  simp [Progress.reporting, convertedIn, refusedIn, leftComments]

theorem attempt_refused (hp : job.prepare c = .error refusal) (callable : Prepared → Ast) :
    (attempt job c reason callable).run s =
      (none, s.reporting ⟨refusal, job.locate c.span⟩) := by
  rw [attempt, hp]
  rfl

theorem wrapped_refused (hp : job.prepare c = .error refusal) :
    (wrapped job (some c) reason).run s = (none, s.reporting ⟨refusal, job.locate c.span⟩) := by
  rw [wrapped, StateT.run_bind, attempt_refused hp]
  rfl

theorem convertFunctionExpr_refused (hc : Candidate.ofExpr t.unparen = some c)
    (hp : job.prepare c = .error refusal) :
    (convertFunctionExpr job reason t).run s = (t, s.reporting ⟨refusal, job.locate c.span⟩) := by
  fun_induction Ast.unparen t with
  | case1 span e ih =>
    rw [convertFunctionExpr, StateT.run_bind, ih hc]
    rfl
  | case2 t ht =>
    rw [convertFunctionExpr, StateT.run_bind, hc, wrapped_refused hp]
    · rfl
    · exact ht

theorem convertMethod_refused {span : Span} {key f : Ast}
    (hc : Candidate.ofFunction .objectMethod (keyText key) f = some c)
    (hp : job.prepare c = .error refusal) :
    (convertMethod job reason (.node .method span [key, f])).run s =
      (.node .method span [key, f], s.reporting ⟨refusal, job.locate c.span⟩) := by
  rw [convertMethod, StateT.run_bind, hc, wrapped_refused hp]
  rfl

/-- A step that does what the form of a node says reports a function that cannot be prepared. -/
theorem Treats.refused {x : Converting Ast} (h : Treats job w t s x) (hf : form? w t = some f)
    (hm : job.isMarked f.subject.body = true) (hd : w.detects t = Option.none)
    (hp : f.subject.prepare job = .error refusal) :
    x.run s = (t, s.reporting ⟨refusal, job.locate f.subject.span⟩) := by
  obtain ⟨own, htreat, -, hmoved⟩ := h
  rw [cacheFor_refused hf hp] at htreat hmoved
  rw [treat_refused hf hm hd hp, Prod.mk.injEq] at htreat
  obtain ⟨ht, rfl⟩ := htreat
  exact Prod.ext ht.symm hmoved.eq_reporting

/-- **A function that cannot be prepared is reported, and that is all.** -/
theorem Job.reportsOnly (job : Job) : job.ReportsOnly where
  attempt s c reason callable refusal hp := attempt_refused hp callable
  node s t f refusal hs hf hm hp := by
    obtain ⟨k, span, cs, rfl, hk⟩ : ∃ k span cs, t = .node k span cs ∧ k ≠ .call := by
      cases t with
      | node k span cs =>
        refine ⟨k, span, cs, rfl, ?_⟩
        rintro rfl
        cases (FormOf.of_form? hf).isFunctionKind
      | _ => cases hf
    exact (convertNode_treats hs hk span cs).refused hf hm rfl hp
  item s span e f refusal hs hf hm hp := by
    obtain ⟨fs, cs, rfl⟩ : ∃ fs cs, e = .node .funcExpr fs cs := by
      cases FormOf.of_form? hf <;> exact ⟨_, _, rfl⟩
    exact (convertItem_treats hs span fs cs).refused hf hm rfl hp
  expression s t c reason refusal hc hp := convertFunctionExpr_refused hc hp
  method s span key f c reason refusal hc hp := convertMethod_refused hc hp

end Reported

/-! ### Programs -/

section Programs

variable {config : Config} {cleared : List Span} {t t' : Ast}

theorem Echoes.ensureStrict (h : Echoes config cleared t t') :
    Echoes config cleared (ensureStrict t) (ensureStrict t') := by
  have hnot {t : Ast} (ht : isModule t = false) : Worklet.ensureStrict t = t := by
    unfold Worklet.ensureStrict
    split
    · cases ht
    · rfl
  cases hmodule : isModule t with
  | true =>
    obtain ⟨shebang, s, cs, rfl⟩ := isModule_eq_true hmodule
    obtain ⟨cs', rfl, hcs⟩ := h.children (by simp) (by simp)
    rw [Worklet.ensureStrict, Worklet.ensureStrict, hcs.head_isDirective]
    split
    · exact .node rfl hcs
    · exact .node rfl (.cons (.made (.cons (.made .nil) .nil)) hcs)
  | false =>
    rw [hnot hmodule, hnot]
    · exact h
    · by_contra hne
      obtain ⟨shebang, s, cs', rfl⟩ := isModule_eq_true (by simpa using hne)
      obtain ⟨cs, rfl⟩ := h.kind
      cases hmodule

theorem leftComments_congr {es es' : List Conversion} (comments : Comments)
    (h : List.Forall₂ (Conversion.Echoes config cleared) es es') :
    leftComments comments es' = leftComments comments es := by
  induction h generalizing comments with
  | nil => rfl
  | cons h _ ih =>
    have hspan := congrArg Candidate.span h.prepared.candidate.rest
    simp only [leftComments, List.foldl_cons] at ih ⊢
    rw [hspan, ih]

/-- The program without the markers of some blocks. -/
def Syntax.Program.unmark (marker : String) (cleared : List Span) (p : Program) : Program :=
  { p with module := Worklet.unmark marker cleared p.module }

theorem Job.ofProgram_unmark (p : Program) :
    Job.ofProgram config (p.unmark config.marker cleared) = .ofProgram config p := by
  rw [Job.ofProgram, Job.ofProgram, Program.unmark, ofModule_unmark]
  rfl

end Programs

/-- **A function that stays as it is leaves only a diagnostic.** No step changes anything else when it
meets a function that cannot be prepared. And the program is converted as if functions that stay as
they are had no markers: the modules and the worklets differ in these markers only, no comment is lost
for them, and the diagnostics differ in one for each marker that a function has lost. -/
theorem refused_like_unmarked (config : Config) (p : Program) (hroot : isModule p.module = true)
    (cleared : List Span)
    (hspare : ∀ e ∈ (transform config p).conversions,
      isCleared cleared e.prepared.candidate.body.span = false) :
    (Job.ofProgram config p).ReportsOnly ∧
      Echoes config cleared (transform config p).module
        (transform config (p.unmark config.marker cleared)).module ∧
      List.Forall₂ (Conversion.Echoes config cleared) (transform config p).conversions
        (transform config (p.unmark config.marker cleared)).conversions ∧
      (transform config (p.unmark config.marker cleared)).comments = (transform config p).comments ∧
      (transform config (p.unmark config.marker cleared)).diagnostics.Sublist
        (transform config p).diagnostics ∧
      ((transform config p).diagnostics.map (·.location)).Perm
        ((lostMarkers config.marker cleared (functionSites config.hooks .plain p.module)).map
          (Job.ofProgram config p).locate ++
          (transform config (p.unmark config.marker cleared)).diagnostics.map (·.location)) := by
  obtain ⟨module, entries, n, hp, hmodule, hconversions, hdiagnostics, hcomments⟩ :=
    transform_proceeds config hroot
  have hspares : Exempts cleared ({ now := entries } : Trace).entries := by
    intro e he
    refine hspare e ?_
    rw [hconversions]
    exact mem_convertedIn.2 (by simpa [Trace.entries] using he)
  obtain ⟨u, tr, hq, hecho, htr⟩ := hp.unmark hspares
  have hroot' : isModule (p.unmark config.marker cleared).module = true := by
    obtain ⟨shebang, s, cs, hcs⟩ := isModule_eq_true hroot
    rw [Program.unmark, hcs]
    rfl
  obtain ⟨module', entries', n', hq', hmodule', hconversions', hdiagnostics', hcomments'⟩ :=
    transform_proceeds config hroot'
  have hnames : UsedNames.ofTree (p.unmark config.marker cleared).module = .ofTree p.module :=
    congrArg UsedNames.mk (@echoes_unmark config cleared p.module).words_eq.1
  rw [Job.ofProgram_unmark, hnames] at hq'
  obtain ⟨rfl, rfl, -⟩ := hq.unique hq'
  have hentries : EchoesEntries config cleared _ entries entries' := htr.now
  refine ⟨Job.reportsOnly _, ?_, ?_, ?_, ?_, ?_⟩
  · rw [hmodule, hmodule']
    split
    · exact hecho.ensureStrict
    · exact hecho
  · rw [hconversions, hconversions']
    exact hentries.converted_forall₂
  · rw [hcomments, hcomments']
    exact leftComments_congr _ hentries.converted_forall₂
  · rw [hdiagnostics, hdiagnostics']
    exact hentries.refused_sublist
  · rw [hdiagnostics, hdiagnostics']
    exact hentries.refused_perm

/-- A worklet that holds a generator with a marker, which holds a worklet. -/
def sampleGenerator : Program where
  filename := "/app/a.js"
  text := []
  module :=
    made (.module none)
      [made (.funcDecl false)
        [madeIdent "f",
         .node (.function false false) ⟨1, 98⟩
          [.list [], .list [],
           made .block
            [madeStatement (madeString "worklet"),
             madeReturn (made .funcExpr [.absent,
              .node (.function false true) ⟨37, 94⟩
                [.list [], .list [],
                 .node .block ⟨49, 94⟩
                  [madeStatement (madeString "worklet"),
                   madeReturn (.node (.arrow false) ⟨66, 92⟩
                    [.list [],
                     made .block [madeStatement (madeString "worklet"), madeReturn (madeNumber 1)],
                     .absent, .absent])],
                 .absent, .absent]])],
           .absent, .absent]]]
  comments := default

/-- The generator is reported once; without its marker nothing is reported, and the worklets inside and
around it are converted as before. -/
theorem refused_like_unmarked_sampleGenerator :
    isModule sampleGenerator.module = true ∧
      (transform .standard sampleGenerator).conversions.map (·.prepared.candidate.span) =
        [⟨66, 92⟩, ⟨1, 98⟩] ∧
      (transform .standard sampleGenerator).diagnostics.length = 1 ∧
      (transform .standard (sampleGenerator.unmark "worklet" [⟨49, 94⟩])).diagnostics = [] ∧
      (∀ e ∈ (transform .standard sampleGenerator).conversions,
        isCleared [⟨49, 94⟩] e.prepared.candidate.body.span = false) ∧
      Echoes .standard [⟨49, 94⟩] (transform .standard sampleGenerator).module
        (transform .standard (sampleGenerator.unmark "worklet" [⟨49, 94⟩])).module ∧
      List.Forall₂ (Conversion.Echoes .standard [⟨49, 94⟩])
        (transform .standard sampleGenerator).conversions
        (transform .standard (sampleGenerator.unmark "worklet" [⟨49, 94⟩])).conversions := by
  have hspare : ∀ e ∈ (transform .standard sampleGenerator).conversions,
      isCleared [⟨49, 94⟩] e.prepared.candidate.body.span = false := by
    decide +kernel
  have h := refused_like_unmarked .standard sampleGenerator rfl [⟨49, 94⟩] hspare
  exact ⟨rfl, by decide +kernel, by decide +kernel, by decide +kernel, hspare, h.2.1, h.2.2.1⟩

end Worklet
