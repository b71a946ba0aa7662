import Worklet.Proofs.Convert.Fates
import Worklet.Proofs.Convert.Opened

/-!
# Converted trees are settled

What converting leaves of a tree asks for nothing more: a function of the result that is marked, or
stands where functions are worklets, is one that was refused.

* `FunctionSite.isMarkedTwice` — the function begins with the marker twice; only the first is taken
  away when it is converted.

Principal result: `Becomes.settled` — a converted tree is settled, if no function of the tree begins
with the marker twice.
-/

set_option autoImplicit false

namespace Worklet

open Syntax

def FunctionSite.isMarkedTwice (marker : String) (s : FunctionSite) : Bool :=
  hasDirective marker (stripDirective marker s.subject.body)

/-- A function that was read was refused, and the refusal is among the entries. -/
def Subject.Refused (job : Job) (subject : Subject) (entries : List Entry) : Prop :=
  subject.span.isMade = false ∧ ∃ refusal, subject.prepare job = .error refusal ∧
    .refused ⟨refusal, job.locate subject.span⟩ ∈ entries

/-- The functions that are asked for were refused, and the refusals are among the entries. -/
def SettledSites (job : Job) (sites : List FunctionSite) (entries : List Entry) : Prop :=
  ∀ site ∈ sites, site.reason? job.config.marker ≠ none → site.subject.Refused job entries

/-- The functions of a tree in a slot that are asked for were refused. -/
def Settled (job : Job) (w : Slot) (t : Ast) (entries : List Entry) : Prop :=
  SettledSites job (functionSites job.config.hooks w t) entries

def SettledAll (job : Job) (ws : Nat → Slot) (ts : List Ast) (entries : List Entry) : Prop :=
  SettledSites job (functionSitesAll job.config.hooks ws ts) entries

variable {w : Slot} {t t' body f : Ast} {i : Nat} {hooks : HookRegistry} {rest : List Ast}
  {tr : Trace} {kind : FunctionKind} {name : Option String} {c : Candidate} {p : Prepared}
  {subject : Subject}

section Settled

variable {job : Job} {ws : Nat → Slot} {ts ts' : List Ast} {k : Kind} {s : Span} {cs : List Ast}
  {entries entries' : List Entry} {sites sites' : List FunctionSite}

theorem SettledSites.mono (h : SettledSites job sites entries) (hm : ∀ e ∈ entries, e ∈ entries') :
    SettledSites job sites entries' := by
  intro site hsite hreason
  obtain ⟨hs, refusal, hp, he⟩ := h site hsite hreason
  exact ⟨hs, refusal, hp, hm _ he⟩

theorem settledSites_append :
    SettledSites job (sites ++ sites') entries ↔
      SettledSites job sites entries ∧ SettledSites job sites' entries :=
  List.forall_mem_append

theorem settled_of_nil (h : functionSites job.config.hooks w t = []) : Settled job w t entries := by
  rw [Settled, h]
  intro site hs
  cases hs

theorem settledAll_nil : SettledAll job ws [] entries := by
  intro site hs
  cases hs

theorem settledAll_cons :
    SettledAll job ws (t :: ts) entries ↔
      Settled job (ws 0) t entries ∧ SettledAll job (fun i => ws (i + 1)) ts entries := by
  rw [SettledAll, functionSitesAll, settledSites_append]
  rfl

theorem settledAll_pair {u : Ast} : SettledAll job ws [t, u] entries ↔
    Settled job (ws 0) t entries ∧ Settled job (ws 1) u entries := by
  rw [settledAll_cons, settledAll_cons, and_iff_left settledAll_nil]

theorem settled_list : Settled job w (.list ts) entries ↔ SettledAll job w.item ts entries := by
  rw [Settled, functionSites]
  rfl

theorem settled_absent : Settled job w .absent entries :=
  settled_of_nil rfl

theorem settledAll_append :
    SettledAll job (fun _ => w) (ts ++ ts') entries ↔
      SettledAll job (fun _ => w) ts entries ∧ SettledAll job (fun _ => w) ts' entries := by
  induction ts with
  | nil => simp [settledAll_nil]
  | cons t ts ih => rw [List.cons_append, settledAll_cons, settledAll_cons, ih, and_assoc]

theorem settledAll_iff :
    SettledAll job ws ts entries ↔ ∀ i t, ts[i]? = some t → Settled job (ws i) t entries := by
  induction ts generalizing ws with
  | nil => simp [settledAll_nil]
  | cons t ts ih =>
    rw [settledAll_cons, ih]
    constructor
    · rintro ⟨h, hs⟩ (_ | i) u hu
      · cases hu
        exact h
      · exact hs i u hu
    · exact fun h => ⟨h 0 t rfl, fun i u hu => h (i + 1) u hu⟩

/-- A node is settled if its parts are, and the function that it is, if it is asked for. -/
theorem settled_node :
    Settled job w (.node k s cs) entries ↔
      SettledAll job (job.config.hooks.childSlot w (.node k s cs)) cs entries ∧
        ∀ subject, subject? w (.node k s cs) = some subject →
          job.isMarked subject.body = true ∨ w.detects (.node k s cs) ≠ none →
          subject.Refused job entries := by
  have hreason (site : FunctionSite) : site.reason? job.config.marker ≠ none ↔
      job.isMarked site.subject.body = true ∨ site.detected ≠ none := by
    rw [Ne, FunctionSite.reason?_eq_none, not_and_or, Bool.not_eq_false]
    rfl
  rw [Settled, functionSites, settledSites_append]
  refine and_congr_right fun _ => ⟨fun h subject hs hr => ?_, fun h site hsite hr => ?_⟩
  · exact h _ (Option.mem_toList.2 (Option.map_eq_some_iff.2 ⟨subject, hs, rfl⟩)) ((hreason _).2 hr)
  · obtain ⟨subject, hs, rfl⟩ := by simpa using hsite
    exact h subject hs ((hreason _).1 hr)

/-- A node is settled if its parts are and it is no function that is asked for. -/
theorem Settled.node
    (h : SettledAll job (job.config.hooks.childSlot w (.node k s cs)) cs entries)
    (hd : w.detects (.node k s cs) = none)
    (hm : ∀ subject, subject? w (.node k s cs) = some subject → job.isMarked subject.body = false) :
    Settled job w (.node k s cs) entries := by
  refine settled_node.2 ⟨h, fun subject hs hr => ?_⟩
  rw [hm subject hs, hd] at hr
  simp at hr

/-- A node that is no function is settled exactly if its parts are. -/
theorem settled_node_iff (hk : isFunctionKind k = false) :
    Settled job w (.node k s cs) entries ↔
      SettledAll job (job.config.hooks.childSlot w (.node k s cs)) cs entries := by
  rw [settled_node, subject?_eq_none hk]
  simp

theorem Settled.children (h : Settled job w (.node k s cs) entries) :
    SettledAll job (job.config.hooks.childSlot w (.node k s cs)) cs entries :=
  (settled_node.1 h).1

theorem settled_items :
    Settled job .plain (.list ts) entries ↔ ∀ t ∈ ts, Settled job .plain t entries := by
  rw [settled_list, settledAll_iff]
  constructor
  · intro h t ht
    obtain ⟨i, ht⟩ := List.mem_iff_getElem?.1 ht
    exact h i t ht
  · exact fun h i t ht => h t (List.mem_of_getElem? ht)

/-! ### Slots -/

theorem subject?_eq {w' : Slot} (he : w = .exported ↔ w' = .exported)
    (hs : w = .statement ↔ w' = .statement) (t : Ast) : subject? w t = subject? w' t := by
  rw [← subject?_form?, ← subject?_form?, form?_eq he hs]

/-- Where nothing asks for a function, fewer are asked for. -/
theorem Settled.plain_of_function {reason : Reason} : ∀ {t : Ast},
    Settled job (.function reason) t entries → Settled job .plain t entries
  | .absent, h => h
  | .list _, h => h
  | .node k s cs, h => by
    by_cases hparen : k = .paren ∧ ∃ e, cs = [e]
    · obtain ⟨rfl, e, rfl⟩ := hparen
      rw [settled_node_iff rfl, settledAll_cons] at h ⊢
      exact ⟨Settled.plain_of_function h.1, settledAll_nil⟩
    · have hslots : job.config.hooks.childSlot (.function reason) (.node k s cs) =
          job.config.hooks.childSlot .plain (.node k s cs) := by
        funext i
        unfold HookRegistry.childSlot
        split <;> first | rfl | simp_all
      have hsubject : subject? (.function reason) (.node k s cs) = subject? .plain (.node k s cs) :=
        subject?_eq (by simp) (by simp) _
      rw [settled_node, hslots, hsubject] at h
      refine settled_node.2 ⟨h.1, fun subject hs hr => h.2 subject hs (.inl ?_)⟩
      simpa [Slot.detects] using hr

/-- An argument that was converted is settled where it stands now. -/
theorem Settled.ofDetection (hr : Resembles job.config.hooks t t') {name : String} {b : Bool}
    (h : Settled job (.ofDetection (job.config.hooks.detectArg name b i t)) t' entries) :
    Settled job (.ofDetection (job.config.hooks.detectArg name b i t')) t' entries := by
  rcases hr.detectArg name b i with heq | ⟨hf, -, hnone⟩
  · rwa [heq]
  · rw [hnone]
    cases harg : job.config.hooks.detectArg name b i t with
    | none => rwa [harg] at h
    | some d =>
      rw [harg] at h
      cases d with
      | function reason => exact h.plain_of_function
      | objectProperties =>
        have ho := isObjectLiteral_of_isFunctionLiteral hf
        rw [isObjectLiteral_of_detectArg harg] at ho
        cases ho

/-- The arguments of a call that was converted are settled where they stand now. -/
theorem Settled.arguments {callee callee' : Ast} {args args' rest' : List Ast}
    (hc : Resembles job.config.hooks callee callee')
    (ha : List.Forall₂ (Resembles job.config.hooks) args args')
    (h : Settled job
      (.arguments (job.config.hooks.detect (.node .call s (callee :: .list args :: rest))))
      (.list args') entries) :
    Settled job
      (.arguments (job.config.hooks.detect (.node .call s (callee' :: .list args' :: rest'))))
      (.list args') entries := by
  rw [settled_list, settledAll_iff] at h ⊢
  intro i t' ht'
  have hr := getElem?_forall₂ ha i
  rw [ht'] at hr
  generalize ht : args[i]? = a at hr
  obtain ⟨hr⟩ := hr
  have h := h i t' ht'
  simp only [Slot.item, lookup_detect, ht, ht', hc.callee, hc.builder] at h ⊢
  cases hname : calleeName? callee.unparen with
  | none =>
    rw [hname] at h
    exact h
  | some name =>
    rw [hname] at h
    exact h.ofDetection hr

/-- A value that was converted is settled where it stands now. -/
theorem Settled.atValue (hr : Resembles job.config.hooks t t')
    (h : Settled job (w.atValue t) t' entries) : Settled job (w.atValue t') t' entries := by
  cases w with
  | property =>
    simp only [Slot.atValue] at h ⊢
    by_cases hf : isFunctionLiteral t = true
    · rw [if_pos hf] at h
      split
      · exact h
      · exact h.plain_of_function
    · rw [if_neg hf] at h
      rwa [if_neg fun hf' => hf (hr.function hf')]
  | _ => exact h

/-- The slots of a converted node's parts are those of the node's, or ask for less. -/
theorem SettledAll.reslot
    (hb : BecomesAll job (job.config.hooks.childSlot w (.node k s cs)) cs ts tr)
    (h : SettledAll job (job.config.hooks.childSlot w (.node k s cs)) ts entries) :
    SettledAll job (job.config.hooks.childSlot w (.node k s ts)) ts entries := by
  cases k
  case exportDefaultDecl =>
    have hslots {c : Ast} {rest : List Ast} (hc : rest = [] → ∀ fs ds, c ≠ .node .funcExpr fs ds) :
        job.config.hooks.childSlot w (.node .exportDefaultDecl s (c :: rest)) = fun _ => .plain := by
      funext i
      unfold HookRegistry.childSlot
      split <;> simp_all
    rcases hb with _ | ⟨h₁, _ | ⟨h₂, _, _⟩, _⟩
    case nil => exact h
    case cons.nil =>
      rename_i c c' _ _
      by_cases hc : ∃ fs ds, c = .node .funcExpr fs ds
      · obtain ⟨fs, ds, rfl⟩ := hc
        rcases Becomes.exported_or h₁ with ⟨_, _, ds', _, heq, rfl, -⟩ | ⟨hne, -⟩
        · exact h
        · exact absurd rfl (hne _ _)
      · have hc' : ∀ fs ds, c' ≠ .node .funcExpr fs ds := by
          rintro fs ds rfl
          obtain ⟨cs₀, -, -, -, rfl, -⟩ := h₁.of_node rfl rfl
          exact hc ⟨_, _, rfl⟩
        rw [hslots fun _ fs ds heq => hc ⟨fs, ds, heq⟩] at h
        rwa [hslots fun _ => hc']
    case cons.cons =>
      rw [hslots (by simp)] at h
      rwa [hslots (by simp)]
  case call =>
    rcases hb with _ | ⟨h₁, _ | ⟨h₂, hrest, _⟩, _⟩
    case cons.cons =>
      rcases h₂.list_or with ⟨args, args', rfl, rfl, hargs⟩ | ⟨hne, hne'⟩
      · rw [settledAll_cons, settledAll_cons] at h ⊢
        exact ⟨h.1, h.2.1.arguments h₁.resembles hargs.resembles, h.2.2⟩
      · have hslots {callee args : Ast} {rest : List Ast} (hargs : ∀ ts, args ≠ .list ts) :
            job.config.hooks.childSlot w (.node .call s (callee :: args :: rest)) =
              fun _ => .plain := by
          funext i
          unfold HookRegistry.childSlot
          split <;> simp_all
        rw [hslots hne] at h
        rwa [hslots hne']
    all_goals exact h
  case keyValue =>
    rcases hb with _ | ⟨h₁, _ | ⟨h₂, _ | ⟨h₃, _, _⟩, _⟩, _⟩
    case cons.cons.nil =>
      rw [settledAll_cons, settledAll_cons] at h ⊢
      exact ⟨h.1, h.2.1.atValue h₂.resembles, h.2.2⟩
    all_goals exact h
  case paren => rcases hb with _ | ⟨h₁, _ | ⟨h₂, _, _⟩, _⟩ <;> exact h
  case switchCase =>
    refine settledAll_iff.2 fun i t ht => ?_
    have h := settledAll_iff.1 h i t ht
    cases i <;> exact h
  all_goals exact h

/-! ### Bodies -/

/-- A body without its marker is settled if the body is. -/
theorem Settled.stripDirective {marker : String} (h : Settled job w t entries) :
    Settled job w (stripDirective marker t) entries := by
  unfold Worklet.stripDirective
  split
  · split
    · rw [settled_node_iff rfl] at h ⊢
      exact (settledAll_cons.1 h).2
    · exact h
  · exact h

theorem Settled.unparen : ∀ {t : Ast}, Settled job .plain t entries →
    Settled job .plain t.unparen entries
  | .node k s cs, h => by
    by_cases hk : k = .paren ∧ ∃ e, cs = [e]
    · obtain ⟨rfl, e, rfl⟩ := hk
      rw [settled_node_iff rfl] at h
      exact Settled.unparen (t := e) (settledAll_cons.1 h).1
    · rw [unparen_eq_self]
      · exact h
      · rintro s e ⟨⟩
        exact hk ⟨rfl, e, rfl⟩
  | .list _, h => h
  | .absent, h => h

theorem Settled.arrowBody (h : Settled job .plain t entries) :
    Settled job .plain (Candidate.arrowBody t) entries := by
  unfold Candidate.arrowBody
  split
  · exact h
  · rw [settled_node_iff rfl, settledAll_cons, settled_node_iff rfl, settledAll_cons]
    exact ⟨⟨h.unparen, settledAll_nil⟩, settledAll_nil⟩

theorem settled_function_iff {a g : Bool} {ps d : Ast} :
    Settled job w (.node (.function a g) s (ps :: d :: body :: rest)) entries ↔
      Settled job .plain ps entries ∧ Settled job .plain d entries ∧
        Settled job .plain body entries ∧ SettledAll job (fun _ => .plain) rest entries := by
  rw [settled_node_iff rfl, settledAll_cons, settledAll_cons, settledAll_cons]
  rfl

theorem settled_paramPatterns : ∀ {ps patterns : List Ast}, paramPatterns? ps = some patterns →
    SettledAll job (fun _ => .plain) ps entries → ∀ q ∈ patterns, Settled job .plain q entries
  | [], _, h, _, q, hq => by
    cases h
    cases hq
  | t :: ts, patterns, h, hs, q, hq => by
    obtain ⟨s, d, p, ps, rfl, hps, rfl⟩ := paramPatterns?_cons h
    obtain ⟨hparam, hs⟩ := settledAll_cons.1 hs
    rcases List.mem_cons.1 hq with rfl | hq
    · rw [settled_node_iff rfl, settledAll_cons, settledAll_cons] at hparam
      exact hparam.2.1
    · exact settled_paramPatterns hps hs q hq

theorem settled_ofFunction (hc : Candidate.ofFunction kind name f = some c)
    (h : Settled job .plain f entries) :
    (∀ q ∈ c.params, Settled job .plain q entries) ∧ Settled job .plain c.body entries := by
  obtain ⟨_, _, _, _, _, _, _, _, rfl, -, hp, rfl⟩ := Candidate.ofFunction_eq_some hc
  obtain ⟨hps, -, hbody, -⟩ := settled_function_iff.1 h
  exact ⟨settled_paramPatterns hp (settled_list.1 hps), hbody⟩

/-! ### Made code -/

theorem functionSitesAll_idents (hooks : HookRegistry) (names : List String) (ws : Nat → Slot) :
    functionSitesAll hooks ws (names.map madeIdent) = [] := by
  induction names generalizing ws with
  | nil => rfl
  | cons n ns ih =>
    rw [List.map_cons, functionSitesAll, ih]
    rfl

theorem settledAll_metadataStmts (target : String) (m : Metadata) :
    SettledAll job ws (metadataStmts target m) entries := by
  have hassign (w : Slot) (prop : String) {value : Ast}
      (hv : functionSites job.config.hooks .plain value = []) :
      Settled job w (assignProperty target prop value) entries := by
    refine settled_of_nil ?_
    simp [assignProperty, madeStatement, madeAssign, madeMember, madeIdent, made, functionSites,
      functionSitesAll, HookRegistry.childSlot, subject?, candidate?, hv]
  have hobject : functionSites job.config.hooks .plain (made .object (m.closure.map madeIdent)) =
      [] := by
    rw [made, functionSites, functionSitesAll_idents]
    rfl
  simp only [metadataStmts, settledAll_cons]
  exact ⟨hassign _ _ hobject, hassign _ _ rfl, hassign _ _ rfl, hassign _ _ rfl, settledAll_nil⟩

theorem settled_params {params : List Ast} (h : ∀ q ∈ params, Settled job .plain q entries) :
    SettledAll job (fun _ => .plain) (params.map madeParam) entries := by
  induction params with
  | nil => exact settledAll_nil
  | cons q qs ih =>
    rw [List.map_cons, settledAll_cons, madeParam, made, settled_node_iff rfl, settledAll_pair]
    exact ⟨⟨settled_of_nil rfl, h q List.mem_cons_self⟩, ih fun q hq => h q (List.mem_cons_of_mem _ hq)⟩

/-- A made function expression is settled if its function is, and is not marked. -/
theorem settled_funcExpr {name : Ast} {a g : Bool} {ps : List Ast}
    (hname : Settled job .plain name entries)
    (hf : Settled job .plain (madeFunction a g ps body) entries) (hm : job.isMarked body = false) :
    Settled job .plain (madeFunctionExpr name (madeFunction a g ps body)) entries := by
  refine Settled.node (settledAll_pair.2 ⟨hname, hf⟩) rfl fun subject hs => ?_
  simp only [subject?, candidate?, Candidate.ofExpr] at hs
  rw [if_neg (by simp)] at hs
  obtain ⟨c, hc, rfl⟩ := Option.map_eq_some_iff.1 hs
  obtain ⟨_, _, _, _, _, _, _, _, ⟨⟩, -, -, rfl⟩ := Candidate.ofFunction_eq_some hc
  exact hm

/-- **A wrapper is settled** if the parts of its function are, and the function does not begin with
the marker after its marker is taken away. -/
theorem settled_wrapper (hp : job.prepare c = .ok p)
    (hparams : ∀ q ∈ c.params, Settled job .plain q entries)
    (hbody : Settled job .plain c.body entries)
    (honce : hasDirective job.config.marker (stripDirective job.config.marker c.body) = false) :
    Settled job w p.wrapper entries := by
  have hcandidate := (Job.prepare_eq_ok hp).1
  have hnamed (name : String) : Settled job .plain
      (madeFunctionExpr (madeIdent name) p.candidate.toFunction) entries := by
    rw [hcandidate]
    refine settled_funcExpr (settled_of_nil rfl) ?_ honce
    refine settled_function_iff.2 ⟨settled_list.2 (settled_params hparams), settled_of_nil rfl,
      hbody.stripDirective, ?_⟩
    exact settledAll_pair.2 ⟨settled_absent, settled_absent⟩
  have hfactory (binding : String) (rest : List Ast)
      (h : SettledAll job (fun _ => .statement) rest entries) (name : String) :
      Settled job .plain (madeFunctionExpr .absent (madeFunction false false [] (madeBlock
        (madeVar .const binding (madeFunctionExpr (madeIdent name) p.candidate.toFunction) ::
          rest)))) entries := by
    refine settled_funcExpr settled_absent ?_ rfl
    refine settled_function_iff.2 ⟨settled_of_nil rfl, settled_of_nil rfl, ?_,
      settledAll_pair.2 ⟨settled_absent, settled_absent⟩⟩
    rw [madeBlock, made, settled_node_iff rfl, settledAll_cons, madeVar, made, settled_node_iff rfl,
      settledAll_cons, made, settled_node_iff rfl, settledAll_pair]
    exact ⟨⟨⟨settled_of_nil rfl, hnamed name⟩, settledAll_nil⟩, h⟩
  rw [Prepared.wrapper, wrap, madeCall, made, settled_node_iff rfl, settledAll_cons, settledAll_pair,
    madeParen, made, settled_node_iff rfl, settledAll_cons]
  refine ⟨⟨hfactory _ _ ?_ _, settledAll_nil⟩, settled_of_nil rfl, settled_absent⟩
  exact settledAll_append.2 ⟨settledAll_metadataStmts _ _,
    settledAll_cons.2 ⟨settled_of_nil rfl, settledAll_nil⟩⟩

theorem settled_delegate {wrapper : Ast} (h : Settled job .plain wrapper entries)
    (cache : Option String) : Settled job w (delegate wrapper cache) entries := by
  have hreturn {callee : Ast} (hcallee : Settled job .plain callee entries) :
      Settled job w (madeBlock [madeReturn
        (madeCall (madeMember callee "apply") [made .this [], madeIdent "arguments"])]) entries := by
    rw [madeBlock, made, settled_node_iff rfl, settledAll_cons, madeReturn, made,
      settled_node_iff rfl, settledAll_cons, madeCall, made, settled_node_iff rfl, settledAll_cons,
      settledAll_pair, madeMember, made, settled_node_iff rfl, settledAll_pair]
    refine ⟨⟨⟨⟨hcallee, settled_of_nil rfl⟩, ?_, settled_absent⟩, settledAll_nil⟩, settledAll_nil⟩
    exact settled_list.2 (settledAll_pair.2 ⟨settled_of_nil rfl, settled_of_nil rfl⟩)
  unfold delegate
  refine hreturn ?_
  split
  · rw [madeParen, made, settled_node_iff rfl, settledAll_cons, made, settled_node_iff rfl,
      settledAll_pair, madeParen, made, settled_node_iff rfl, settledAll_cons, madeAssign, made,
      settled_node_iff rfl, settledAll_pair]
    exact ⟨⟨settled_of_nil rfl, ⟨settled_of_nil rfl, h⟩, settledAll_nil⟩, settledAll_nil⟩
  · exact h

theorem isMarked_delegate (wrapper : Ast) (cache : Option String) :
    job.isMarked (delegate wrapper cache) = false :=
  rfl

/-- A function with another body is marked if that body is. -/
theorem isMarked_withBody {kind' : FunctionKind} {name' : Option String}
    (hc : Candidate.ofFunction kind name f = some c) (hm : job.isMarked body = false)
    (hs : (Candidate.ofFunction kind' name' (withBody body f)).map .candidate = some subject) :
    job.isMarked subject.body = false := by
  obtain ⟨c', hc', rfl⟩ := Option.map_eq_some_iff.1 hs
  obtain ⟨_, _, _, _, _, _, _, _, rfl, -⟩ := Candidate.ofFunction_eq_some hc
  obtain ⟨_, _, _, _, _, _, _, _, heq, -, -, rfl⟩ := Candidate.ofFunction_eq_some hc'
  cases heq
  exact hm

theorem Settled.withBody (h : Settled job .plain f entries)
    (hc : Candidate.ofFunction kind name f = some c) (hbody : Settled job .plain body entries) :
    Settled job .plain (withBody body f) entries := by
  obtain ⟨_, _, _, _, _, _, _, _, rfl, -⟩ := Candidate.ofFunction_eq_some hc
  obtain ⟨hps, hd, -, hrest⟩ := settled_function_iff.1 h
  exact settled_function_iff.2 ⟨hps, hd, hbody, hrest⟩

/-- A declared function that lost its marker is settled, and has no other. -/
theorem settled_unmarked (h : Settled job .plain f entries) (hp : job.prepare c = .ok p)
    (hc : Candidate.ofFunction kind name f = some c)
    (honce : hasDirective job.config.marker (stripDirective job.config.marker c.body) = false) :
    Settled job .plain (withBody p.candidate.body f) entries ∧
      job.isMarked p.candidate.body = false := by
  rw [(Job.prepare_eq_ok hp).1]
  exact ⟨h.withBody hc (settled_ofFunction hc h).2.stripDirective, honce⟩

/-- **What a function gives way to is settled**, if the parts of the function are and it does not
begin with the marker twice. -/
theorem FormOf.settled {f : Form} (h : FormOf w (.node k s cs) f)
    (hp : f.subject.prepare job = .ok p) (cache : Option String)
    (hcs : SettledAll job (job.config.hooks.childSlot w (.node k s cs)) cs entries)
    (honce : hasDirective job.config.marker (stripDirective job.config.marker f.subject.body) = false) :
    Settled job w (f.turned p cache) entries := by
  cases h with
  | privateMethod | constructor => cases hp
  | expression _ hc =>
    obtain ⟨hparams, hbody⟩ := settled_ofFunction hc (settledAll_pair.1 hcs).2
    exact settled_wrapper hp hparams hbody honce
  | arrow hc =>
    obtain ⟨_, _, _, _, _, ⟨⟩, rfl⟩ := Candidate.ofArrow_eq_some hc
    rw [settledAll_cons, settledAll_cons] at hcs
    obtain ⟨hps, hbody, -⟩ := hcs
    exact settled_wrapper hp (settled_items.1 hps) hbody.arrowBody honce
  | declaration _ hc =>
    obtain ⟨hname, hf⟩ := settledAll_pair.1 hcs
    obtain ⟨hbody, hm⟩ := settled_unmarked hf hp hc honce
    refine Settled.node (settledAll_pair.2 ⟨hname, hbody⟩) (by cases w <;> rfl) fun subject hs => ?_
    simp only [subject?, candidate?] at hs
    split at hs
    · exact isMarked_withBody hc hm hs
    · cases hs
  | method hc =>
    obtain ⟨hkey, hf⟩ := settledAll_pair.1 hcs
    obtain ⟨hparams, hbody⟩ := settled_ofFunction hc hf
    refine (settled_node_iff rfl).2 (settledAll_pair.2 ⟨hkey, ?_⟩)
    exact settled_wrapper hp hparams hbody honce
  | getter hc =>
    obtain ⟨_, _, _, _, ⟨⟩, -, rfl⟩ := Candidate.ofGetter_eq_some hc
    simp only [settledAll_cons] at hcs
    have hwrapper := settled_wrapper (w := .plain) hp (by simp) hcs.2.2.1 honce
    refine Settled.node ?_ (by cases w <;> rfl) fun subject hs => ?_
    · simp only [settledAll_cons]
      exact ⟨hcs.1, hcs.2.1, settled_delegate hwrapper cache, settledAll_nil⟩
    · simp only [subject?, candidate?] at hs
      obtain ⟨c', hc', rfl⟩ := Option.map_eq_some_iff.1 hs
      obtain ⟨_, _, _, _, ⟨⟩, -, rfl⟩ := Candidate.ofGetter_eq_some hc'
      exact isMarked_delegate _ _
  | setter hc =>
    obtain ⟨_, _, _, _, _, ⟨⟩, -, rfl⟩ := Candidate.ofSetter_eq_some hc
    simp only [settledAll_cons] at hcs
    obtain ⟨hkey, hthis, hparam, hbody, -⟩ := hcs
    have hwrapper := settled_wrapper (w := .plain) hp (List.forall_mem_singleton.2 hparam) hbody honce
    refine Settled.node ?_ (by cases w <;> rfl) fun subject hs => ?_
    · simp only [settledAll_cons]
      exact ⟨hkey, hthis, hparam, settled_delegate hwrapper cache, settledAll_nil⟩
    · simp only [subject?, candidate?] at hs
      obtain ⟨c', hc', rfl⟩ := Option.map_eq_some_iff.1 hs
      obtain ⟨_, _, _, _, _, ⟨⟩, -, rfl⟩ := Candidate.ofSetter_eq_some hc'
      exact isMarked_delegate _ _
  | classMethod _ _ hc =>
    obtain ⟨hkey, hf⟩ := settledAll_pair.1 hcs
    obtain ⟨hparams, hbody⟩ := settled_ofFunction hc hf
    rw [Form.turned, Form.wrapped, settled_node_iff rfl]
    simp only [settledAll_cons]
    exact ⟨hkey, settled_wrapper hp hparams hbody honce, settled_absent, settled_of_nil rfl,
      settledAll_nil⟩
  | classAccessor hprivate _ hc =>
    obtain ⟨hkey, hf⟩ := settledAll_pair.1 hcs
    obtain ⟨hparams, hbody⟩ := settled_ofFunction hc hf
    have hdelegate := settled_delegate (w := .plain) (settled_wrapper hp hparams hbody honce) cache
    refine Settled.node (settledAll_pair.2 ⟨hkey, hf.withBody hc hdelegate⟩) (by cases w <;> rfl)
      fun subject hs => ?_
    simp only [subject?, hprivate, Bool.false_eq_true, if_false, candidate?_classMethod hprivate] at hs
    exact isMarked_withBody hc (isMarked_delegate _ _) hs
  | namedDefault _ hc =>
    obtain ⟨hname, hf⟩ := settledAll_pair.1 (settledAll_cons.1 hcs).1.children
    obtain ⟨hbody, hm⟩ := settled_unmarked hf hp hc honce
    refine Settled.node (settledAll_cons.2 ⟨?_, settledAll_nil⟩) rfl fun subject hs => ?_
    · exact Settled.node (settledAll_pair.2 ⟨hname, hbody⟩) rfl fun _ h => by cases h
    · simp only [subject?] at hs
      split at hs
      · exact isMarked_withBody hc hm hs
      · cases hs
  | namelessDefault _ hc =>
    obtain ⟨-, hf⟩ := settledAll_pair.1 (settledAll_cons.1 hcs).1.children
    obtain ⟨hparams, hbody⟩ := settled_ofFunction hc hf
    refine (settled_node_iff rfl).2 (settledAll_cons.2 ⟨?_, settledAll_nil⟩)
    exact settled_wrapper hp hparams hbody honce

/-! ### Converted trees -/

theorem SettledAll.mono (h : SettledAll job ws ts entries) (hm : ∀ e ∈ entries, e ∈ entries') :
    SettledAll job ws ts entries' :=
  SettledSites.mono h hm

theorem Subject.candidate_of_prepare (h : subject.prepare job = .ok p) :
    ∃ c, subject = .candidate c := by
  cases subject with
  | candidate c => exact ⟨c, rfl⟩
  | unsupported _ _ _ => cases h

/-- What a node becomes is settled if its converted parts are. -/
theorem settled_treat {cache : Option String} {own : Trace}
    (h : treat job w (.node k s cs) cache = (t', own))
    (hcs : SettledAll job (job.config.hooks.childSlot w (.node k s cs)) cs entries)
    (hread : ∀ subject, subject? w (.node k s cs) = some subject → subject.span.isMade = false)
    (honce : ∀ c, subject? w (.node k s cs) = some (.candidate c) →
      hasDirective job.config.marker (stripDirective job.config.marker c.body) = false)
    (hown : ∀ e ∈ own.entries, e ∈ entries) : Settled job w t' entries := by
  have hsubject := subject?_form? w (.node k s cs)
  unfold treat at h
  cases hf : form? w (.node k s cs) with
  | none =>
    simp only [hf, Prod.mk.injEq] at h
    rw [hf] at hsubject
    rw [← h.1]
    exact settled_node.2 ⟨hcs, fun subject hs => by rw [← hsubject] at hs; cases hs⟩
  | some f =>
    rw [hf, Option.map_some] at hsubject
    simp only [hf] at h
    have hstays (hr : job.isMarked f.subject.body = true ∨ w.detects (.node k s cs) ≠ none →
        f.subject.Refused job entries) : Settled job w (.node k s cs) entries := by
      refine settled_node.2 ⟨hcs, fun subject hs => ?_⟩
      rw [← hsubject] at hs
      cases hs
      exact hr
    have hturned {p : Prepared} (hp : f.subject.prepare job = .ok p) (cache : Option String) :
        Settled job w (f.turned p cache) entries := by
      obtain ⟨c, hc⟩ := Subject.candidate_of_prepare hp
      refine (FormOf.of_form? hf).settled hp cache hcs ?_
      rw [hc] at hsubject ⊢
      exact honce c hsubject.symm
    rcases Form.treat_cases h with
      ⟨refusal, hp, rfl, rfl⟩ | ⟨p, hp, ⟨hm, hd, rfl, -⟩ | ⟨-, rfl, -⟩ | ⟨_, -, -, rfl, -⟩⟩
    · refine hstays fun hr => ⟨hread _ hsubject.symm, refusal, hp, hown _ ?_⟩
      rcases hr with hr | hr
      · simp [Trace.entries, hr]
      · simp [Trace.entries, Option.isSome_iff_ne_none.2 hr]
    · exact hstays fun hr => by simp [hm, hd] at hr
    · exact hturned hp cache
    · exact hturned hp none

theorem settledAll_cacheDecls (caches : List String) :
    SettledAll job (fun _ => w) (caches.map cacheDecl) entries := by
  induction caches with
  | nil => exact settledAll_nil
  | cons n ns ih => exact settledAll_cons.2 ⟨settled_of_nil rfl, ih⟩

theorem settledAll_attached (ms : List (String × Metadata)) :
    SettledAll job (fun _ => w) (ms.flatMap fun x => metadataStmts x.1 x.2) entries := by
  induction ms with
  | nil => exact settledAll_nil
  | cons x ms ih =>
    rw [List.flatMap_cons]
    exact settledAll_append.2 ⟨settledAll_metadataStmts _ _, ih⟩

end Settled

/-- The function was read, and does not begin with the marker twice. -/
def FunctionSite.IsOnce (marker : String) (site : FunctionSite) : Prop :=
  site.span.isMade = false ∧ site.isMarkedTwice marker = false

instance (marker : String) (site : FunctionSite) : Decidable (site.IsOnce marker) :=
  inferInstanceAs (Decidable (_ ∧ _))

theorem mem_functionSites_own {k : Kind} {s : Span} {cs : List Ast}
    (h : subject? w (.node k s cs) = some subject) :
    ⟨subject, w.detects (.node k s cs),
      (functionSitesAll hooks (hooks.childSlot w (.node k s cs)) cs).map (·.span)⟩ ∈
        functionSites hooks w (.node k s cs) := by
  rw [functionSites]
  simp [h]

/-- **A converted tree is settled**, if its functions were read and none begins with the marker
twice. -/
theorem Becomes.settled {job : Job} (h : Becomes job w t t' tr)
    (honce : ∀ site ∈ functionSites job.config.hooks w t, site.IsOnce job.config.marker) :
    Settled job w t' tr.entries := by
  refine Becomes.induct
    (P := fun w t t' tr => (∀ site ∈ functionSites job.config.hooks w t,
      site.IsOnce job.config.marker) → Settled job w t' tr.entries)
    (Q := fun ws ts ts' tr => (∀ site ∈ functionSitesAll job.config.hooks ws ts,
      site.IsOnce job.config.marker) → SettledAll job ws ts' tr.entries)
    (R := fun ts ts' entries => (∀ site ∈ functionSitesAll job.config.hooks (fun _ => .statement) ts,
      site.IsOnce job.config.marker) → SettledAll job (fun _ => .statement) ts' entries)
    ?absent ?list ?node ?statements ?switchCase ?nil ?cons ?none ?statement h honce
  case absent => exact fun _ _ => settled_absent
  case list => exact fun _ _ _ _ ih honce => settled_list.2 (ih honce)
  case node =>
    intro w k s cs cs' t' tr own cache _ hcs ht ih honce
    have hparts := ih fun site hs => honce site (by rw [functionSites]; exact List.mem_append_left _ hs)
    have ha := subject?_becomes hcs
    refine settled_treat ht (SettledAll.reslot hcs hparts |>.mono ?_) ?_ ?_ ?_
    · exact fun e he => Trace.mem_entries_append.2 (.inl (by rwa [Trace.through_entries]))
    · intro subject hs
      rw [hs] at ha
      generalize hb : subject? w (.node k s cs) = b at ha
      obtain ⟨ha⟩ := ha
      rw [ha.span_eq]
      exact (honce _ (mem_functionSites_own hb)).1
    · intro c hs
      rw [hs] at ha
      generalize hb : subject? w (.node k s cs) = b at ha
      obtain ⟨⟨ha⟩⟩ := ha
      rw [ha.stripped]
      exact (honce _ (mem_functionSites_own hb)).2
    · exact fun e he => Trace.mem_entries_append.2 (.inr he)
  case statements =>
    intro w k s ss ss' entries hk _ ih honce
    rw [functionSites_statements hk] at honce
    rw [Settled, functionSites_statements hk, Trace.entries, List.append_nil]
    exact ih honce
  case switchCase =>
    intro w s test test' ss ss' tr entries _ _ ih ihs honce
    rw [functionSites_switchCase, List.forall_mem_append] at honce
    rw [Settled, functionSites_switchCase, settledSites_append]
    refine ⟨SettledSites.mono (ih honce.1) ?_, SettledSites.mono (ihs honce.2) ?_⟩
    · exact fun e he => Trace.mem_entries_append.2 (.inl he)
    · exact fun e he => Trace.mem_entries_append.2 (.inr (by simpa [Trace.entries] using he))
  case nil => exact fun _ _ => settledAll_nil
  case cons =>
    intro ws t t' ts ts' tr tr' _ _ ih ihs honce
    rw [functionSitesAll, List.forall_mem_append] at honce
    refine settledAll_cons.2 ⟨SettledSites.mono (ih honce.1) ?_, SettledSites.mono (ihs honce.2) ?_⟩
    · exact fun e he => Trace.mem_entries_append.2 (.inl he)
    · exact fun e he => Trace.mem_entries_append.2 (.inr he)
  case none => exact fun _ => settledAll_nil
  case statement =>
    intro t t' ts ts' tr entries h _ ih ihs honce
    rw [functionSitesAll, List.forall_mem_append] at honce
    obtain ⟨ms, hms⟩ := h.stmts_eq
    rw [hms, List.append_assoc, settledAll_append, List.cons_append, settledAll_cons,
      settledAll_append]
    refine ⟨settledAll_cacheDecls _, ?_, settledAll_attached ms, ?_⟩
    · exact SettledSites.mono (ih honce.1) fun e he => List.mem_append_left _ he
    · exact SettledSites.mono (ihs honce.2) fun e he => List.mem_append_right _ he

end Worklet
