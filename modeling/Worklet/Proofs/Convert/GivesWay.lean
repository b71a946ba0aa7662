import Worklet.Proofs.Convert.Subjects

/-!
# Functions and what takes their place

A function is looked at when its parts are converted. Here each form is said from the parts as they
were read.

Principal result: `Becomes.stays_or_givesWay` — a node stays with its parts converted, or what its form
says takes its place and one conversion is recorded.
-/

set_option autoImplicit false

namespace Worklet

open Syntax

/-- Parameters as they were read, as they were converted, and the patterns of the latter. -/
inductive LiftsParams (job : Job) : List Ast → List Ast → List Ast → Trace → Prop
  | nil : LiftsParams job [] [] [] {}
  | cons {s : Span} {d d' q q' : Ast} {ps ps' qs : List Ast} {trd trq tr all : Trace} :
    Becomes job .plain d d' trd → Becomes job .plain q q' trq → LiftsParams job ps ps' qs tr →
    all = (trd ++ trq) ++ tr →
    LiftsParams job (.node .param s [d, q] :: ps) (.node .param s [d', q'] :: ps') (q' :: qs) all

/-- A function as it was read, as it was converted, and the candidate that it then is. -/
inductive Lifts (job : Job) (kind : FunctionKind) (name : Option String) :
    Ast → Ast → Candidate → Trace → Prop
  | mk {a g : Bool} {s : Span} {d d' body body' : Ast} {ps ps' qs rest rest' : List Ast}
    {trp trd trb trr all : Trace} :
    LiftsParams job ps ps' qs trp → Becomes job .plain d d' trd →
    Becomes job .plain body body' trb → BecomesAll job (fun _ => .plain) rest rest' trr →
    body'.isAbsent = false → all = trp ++ (trd ++ (trb ++ trr)) →
    Lifts job kind name (.node (.function a g) s (.list ps :: d :: body :: rest))
      (.node (.function a g) s (.list ps' :: d' :: body' :: rest'))
      ⟨kind, name, qs, body', s, a, g⟩ all

/-- A node as it was read, and the form that it has when its parts are converted. -/
inductive GivesWay (job : Job) : Slot → Ast → Form → Trace → Prop
  | expression {w : Slot} {s : Span} {name name' f f' : Ast} {c : Candidate} {trn tr all : Trace} :
    Becomes job .plain name name' trn → Lifts job .expression name'.identName? f f' c tr →
    all = trn ++ tr →
    GivesWay job w (.node .funcExpr s [name, f]) (.wrapped id c) all
  | arrow {w : Slot} {a : Bool} {s : Span} {body body' : Ast} {ps ps' rest rest' : List Ast}
    {trp trb trr all : Trace} :
    BecomesAll job (fun _ => .plain) ps ps' trp → Becomes job .plain body body' trb →
    BecomesAll job (fun _ => .plain) rest rest' trr → all = trp ++ (trb ++ trr) →
    GivesWay job w (.node (.arrow a) s (.list ps :: body :: rest))
      (.wrapped id ⟨.arrow, none, ps', Candidate.arrowBody body', s, a, false⟩) all
  | declaration {w : Slot} {d : Bool} {s : Span} {name name' f f' : Ast} {n : String}
    {c : Candidate} {trn tr all : Trace} :
    Becomes job .plain name name' trn → name'.identName? = some n →
    Lifts job .declaration (some n) f f' c tr → all = trn ++ tr →
    GivesWay job w (.node (.funcDecl d) s [name, f])
      (.declared (fun f => .node (.funcDecl d) s [name', f]) n f' c) all
  | method {w : Slot} {s : Span} {key key' f f' : Ast} {c : Candidate} {trk tr all : Trace} :
    Becomes job .plain key key' trk → Lifts job .objectMethod (keyText key') f f' c tr →
    all = trk ++ tr →
    GivesWay job w (.node .method s [key, f]) (.wrapped (fun w => made .keyValue [key', w]) c) all
  | getter {w : Slot} {s : Span} {key key' type type' body body' : Ast} {trk trt trb all : Trace} :
    Becomes job .plain key key' trk → Becomes job .plain type type' trt →
    Becomes job .plain body body' trb → body'.isAbsent = false → all = trk ++ (trt ++ trb) →
    GivesWay job w (.node .getter s [key, type, body])
      (.accessor (fun body => .node .getter s [key', type', body])
        ⟨.objectGetter, keyText key', [], body', s, false, false⟩) all
  | setter {w : Slot} {s : Span} {key key' this this' param param' body body' : Ast}
    {trk trt trp trb all : Trace} :
    Becomes job .plain key key' trk → Becomes job .plain this this' trt →
    Becomes job .plain param param' trp → Becomes job .plain body body' trb →
    body'.isAbsent = false → all = trk ++ (trt ++ (trp ++ trb)) →
    GivesWay job w (.node .setter s [key, this, param, body])
      (.accessor (fun body => .node .setter s [key', this', param', body])
        ⟨.objectSetter, keyText key', [param'], body', s, false, false⟩) all
  | classMethod {w : Slot} {mods : Modifiers} {s : Span} {key key' f f' : Ast} {c : Candidate}
    {trk tr all : Trace} :
    Becomes job .plain key key' trk →
    Lifts job (.ofMethod .method mods.isStatic) (keyText key') f f' c tr → all = trk ++ tr →
    GivesWay job w (.node (.classMethod .method mods) s [key, f])
      (.wrapped
        (fun w => .node (.classProp (Form.propModifiers mods)) s [key', w, .absent, .list []]) c) all
  | classAccessor {w : Slot} {kind : MethodKind} {mods : Modifiers} {s : Span}
    {key key' f f' : Ast} {c : Candidate} {trk tr all : Trace} : kind ≠ .method →
    Becomes job .plain key key' trk →
    Lifts job (.ofMethod kind mods.isStatic) (keyText key') f f' c tr → all = trk ++ tr →
    GivesWay job w (.node (.classMethod kind mods) s [key, f])
      (.accessor (fun body => .node (.classMethod kind mods) s [key', withBody body f']) c) all
  | namedDefault {s fs : Span} {name name' f f' : Ast} {n : String} {c : Candidate}
    {trn tr all : Trace} :
    Becomes job .plain name name' trn → name'.identName? = some n →
    Lifts job .declaration (some n) f f' c tr → all = trn ++ tr →
    GivesWay job .statement (.node .exportDefaultDecl s [.node .funcExpr fs [name, f]])
      (.declared (fun f => .node .exportDefaultDecl s [.node .funcExpr fs [name', f]]) n f' c) all
  | namelessDefault {s fs : Span} {name name' f f' : Ast} {c : Candidate} {trn tr all : Trace} :
    Becomes job .plain name name' trn → name.isPresent = false →
    Lifts job .declaration none f f' c tr → all = trn ++ tr →
    GivesWay job .statement (.node .exportDefaultDecl s [.node .funcExpr fs [name, f]])
      (.wrapped (fun w => .node .exportDefaultExpr s [w]) c) all

section GivesWay

variable {job : Job} {w : Slot} {t t' f' : Ast} {tr : Trace}

/-! ### Functions -/

theorem BecomesAll.liftsParams : ∀ {ps ps' qs : List Ast} {tr : Trace},
    BecomesAll job (fun _ => .plain) ps ps' tr → paramPatterns? ps' = some qs →
    LiftsParams job ps ps' qs tr
  | _, _, _, _, .nil, hq => by cases hq; exact .nil
  | _, p' :: _, _, _, .cons h hs hall, hq => by
    unfold paramPatterns? at hq
    split at hq
    · cases ‹_ :: _ = []›
    · rename_i s d' q' ps' heq
      cases heq
      obtain ⟨qs, hqs, rfl⟩ := Option.map_eq_some_iff.1 hq
      obtain ⟨cs, tr₁, own, cache, rfl, hcs, htreat, rfl⟩ := h.of_node rfl rfl
      have hform : form? .plain (.node .param s [d', q']) = none := rfl
      simp only [treat, hform, Prod.mk.injEq] at htreat
      obtain ⟨-, rfl⟩ := htreat
      rcases hcs with _ | ⟨hd, _ | ⟨hq', _ | _, rfl⟩, rfl⟩
      refine .cons hd hq' (hs.liftsParams hqs) ?_
      simpa [Trace.through_of_ne] using hall
    · cases hq

/-- A function whose parts are converted is the candidate that they make. -/
theorem Becomes.lifts {kind : FunctionKind} {name : Option String} {f : Ast} {c : Candidate}
    (h : Becomes job .plain f f' tr) (hc : Candidate.ofFunction kind name f' = some c) :
    Lifts job kind name f f' c tr := by
  obtain ⟨a, g, s, ps', d', body', rest', qs, rfl, hbody, hqs, rfl⟩ := Candidate.ofFunction_eq_some hc
  obtain ⟨cs, tr₁, own, cache, rfl, hcs, htreat, rfl⟩ := h.of_node rfl rfl
  have hform : form? .plain (.node (.function a g) s (.list ps' :: d' :: body' :: rest')) = none := rfl
  simp only [treat, hform, Prod.mk.injEq] at htreat
  obtain ⟨-, rfl⟩ := htreat
  rcases hcs with _ | ⟨hp, _ | ⟨hd, _ | ⟨hb, hrest, rfl⟩, rfl⟩, rfl⟩
  rcases hp.list_or with ⟨ps, _, rfl, ⟨⟩, hps⟩ | ⟨-, hne⟩
  · refine .mk (hps.liftsParams hqs) hd hb hrest hbody ?_
    simp [Trace.through_of_ne]
  · exact absurd rfl (hne _)

/-! ### Forms -/

/-- The function of a default export has its parts converted. -/
theorem BecomesAll.of_default {s fs : Span} {cs cs₁' : List Ast}
    (h : BecomesAll job (job.config.hooks.childSlot w (.node .exportDefaultDecl s cs)) cs
      [.node .funcExpr fs cs₁'] tr) :
    ∃ cs₁, cs = [.node .funcExpr fs cs₁] ∧ BecomesAll job (fun _ => .plain) cs₁ cs₁' tr := by
  rcases h with _ | ⟨h, _ | _, rfl⟩
  obtain ⟨cs₁, tr₁, own, cache, rfl, hcs, htreat, rfl⟩ := h.of_node rfl rfl
  simp only [HookRegistry.childSlot, treat, form?_exported, Prod.mk.injEq] at htreat
  obtain ⟨-, rfl⟩ := htreat
  refine ⟨cs₁, rfl, ?_⟩
  rw [Trace.append_empty, Trace.append_empty, Trace.through_of_ne (by simp)]
  exact hcs

/-- A node whose parts are converted has its form from what was read. -/
theorem BecomesAll.givesWay {k : Kind} {s : Span} {cs cs' : List Ast} {f : Form} {p : Prepared}
    (h : BecomesAll job (job.config.hooks.childSlot w (.node k s cs)) cs cs' tr)
    (hf : FormOf w (.node k s cs') f) (hp : f.subject.prepare job = .ok p) :
    GivesWay job w (.node k s cs) f tr := by
  generalize ht : Ast.node k s cs' = t'' at hf
  cases hf with
  | expression _ hc =>
    cases ht
    rcases h with _ | ⟨hn, _ | ⟨hfn, _ | _, rfl⟩, rfl⟩
    exact .expression hn (hfn.lifts hc) (by rw [Trace.append_empty])
  | arrow hc =>
    cases ht
    obtain ⟨_, _, _, _, _, ⟨⟩, rfl⟩ := Candidate.ofArrow_eq_some hc
    rcases h with _ | ⟨hps, _ | ⟨hb, hrest, rfl⟩, rfl⟩
    obtain ⟨ps, ps', rfl, ⟨⟩, hps⟩ | ⟨-, hne⟩ := hps.list_or
    · exact .arrow hps hb hrest rfl
    · exact absurd rfl (hne _)
  | declaration hn hc =>
    cases ht
    rcases h with _ | ⟨hname, _ | ⟨hfn, _ | _, rfl⟩, rfl⟩
    exact .declaration hname hn (hfn.lifts hc) (by rw [Trace.append_empty])
  | method hc =>
    cases ht
    rcases h with _ | ⟨hk, _ | ⟨hfn, _ | _, rfl⟩, rfl⟩
    exact .method hk (hfn.lifts hc) (by rw [Trace.append_empty])
  | getter hc =>
    cases ht
    rcases h with _ | ⟨hk, _ | ⟨ht, _ | ⟨hb, _ | _, rfl⟩, rfl⟩, rfl⟩
    obtain ⟨_, _, _, _, ⟨⟩, hbody, rfl⟩ := Candidate.ofGetter_eq_some hc
    exact .getter hk ht hb hbody (by rw [Trace.append_empty])
  | setter hc =>
    cases ht
    rcases h with _ | ⟨hk, _ | ⟨ht, _ | ⟨hq, _ | ⟨hb, _ | _, rfl⟩, rfl⟩, rfl⟩, rfl⟩
    obtain ⟨_, _, _, _, _, ⟨⟩, hbody, rfl⟩ := Candidate.ofSetter_eq_some hc
    exact .setter hk ht hq hb hbody (by rw [Trace.append_empty])
  | privateMethod _ => cases hp
  | classMethod _ hm hc =>
    cases ht
    subst hm
    rcases h with _ | ⟨hk, _ | ⟨hfn, _ | _, rfl⟩, rfl⟩
    exact .classMethod hk (hfn.lifts hc) (by rw [Trace.append_empty])
  | classAccessor _ hm hc =>
    cases ht
    rcases h with _ | ⟨hk, _ | ⟨hfn, _ | _, rfl⟩, rfl⟩
    exact .classAccessor hm hk (hfn.lifts hc) (by rw [Trace.append_empty])
  | constructor => cases hp
  | namedDefault hn hc =>
    cases ht
    obtain ⟨cs₁, rfl, hcs⟩ := h.of_default
    rcases hcs with _ | ⟨hname, _ | ⟨hfn, _ | _, rfl⟩, rfl⟩
    exact .namedDefault hname hn (hfn.lifts hc) (by rw [Trace.append_empty])
  | namelessDefault hname hc =>
    cases ht
    obtain ⟨cs₁, rfl, hcs⟩ := h.of_default
    rcases hcs with _ | ⟨hn, _ | ⟨hfn, _ | _, rfl⟩, rfl⟩
    exact .namelessDefault hn (hn.resembles.present.symm.trans hname) (hfn.lifts hc)
      (by rw [Trace.append_empty])

/-- A form that its slot makes a worklet attaches nothing and keeps no variable. -/
theorem FormOf.attached_of_detects {f : Form} {reason : Reason} (hf : FormOf w t f)
    (hd : w.detects t = some reason) (p : Prepared) :
    f.attached p = [] ∧ f.isAccessor = false := by
  cases hf with
  | expression | arrow | method | classMethod | namelessDefault | privateMethod | constructor =>
    exact ⟨rfl, rfl⟩
  | declaration | getter | setter | classAccessor => cases w <;> cases hd
  | namedDefault => cases hd

/-- **A node stays with its parts converted, or what its form says takes its place.** -/
theorem Becomes.stays_or_givesWay {k : Kind} {s : Span} {cs : List Ast}
    (h : Becomes job w (.node k s cs) t' tr) (hl : holdsStatements (.node k s cs) = false) :
    (∃ cs' tr₁ own, t' = .node k s cs' ∧
      BecomesAll job (job.config.hooks.childSlot w (.node k s cs)) cs cs' tr₁ ∧
      (∀ e, .converted e ∉ own.entries) ∧ own.caches = [] ∧ own.stmts = [] ∧
      tr = tr₁.through k ++ own) ∨
    ∃ f p cache reason tr₁ own, GivesWay job w (.node k s cs) f tr₁ ∧ f.subject.prepare job = .ok p ∧
      t' = f.turned p cache ∧ own.entries = [.converted ⟨p, reason, f.callable p⟩] ∧
      own.caches = (if f.isAccessor then cache.toList else []) ∧ own.stmts = f.attached p ∧
      tr = tr₁ ++ own := by
  cases h with
  | @node _ _ _ _ cs' _ tr₁ own _ cache _ hcs htreat hall =>
    cases hf : form? w (.node k s cs') with
    | none =>
      simp only [treat, hf, Prod.mk.injEq] at htreat
      obtain ⟨rfl, rfl⟩ := htreat
      exact .inl ⟨cs', tr₁, {}, rfl, hcs, by simp, rfl, rfl, hall⟩
    | some f =>
      have hform := FormOf.of_form? hf
      have hk : k ≠ .call := by
        rintro rfl
        cases hform.isFunctionKind
      simp only [treat, hf] at htreat
      have hall' : tr = tr₁ ++ own := by rw [hall, Trace.through_of_ne hk]
      rcases Form.treat_cases htreat with
        ⟨refusal, -, rfl, rfl⟩ | ⟨p, hp, ⟨-, -, rfl, rfl⟩ | ⟨hm, rfl, rfl⟩ | ⟨reason, -, hd, rfl, rfl⟩⟩
      · refine .inl ⟨cs', tr₁, _, rfl, hcs, fun e => ?_, rfl, rfl, hall⟩
        simp only [Trace.entries, List.mem_append, not_or]
        constructor <;> split <;> simp
      · exact .inl ⟨cs', tr₁, {}, rfl, hcs, by simp, rfl, rfl, hall⟩
      · exact .inr ⟨f, p, cache, .directive, tr₁, _, hcs.givesWay hform hp, hp, rfl, rfl, rfl, rfl,
          hall'⟩
      · obtain ⟨hattached, haccessor⟩ := hform.attached_of_detects hd p
        exact .inr ⟨f, p, none, reason, tr₁, _, hcs.givesWay hform hp, hp, rfl, rfl,
          by simp [haccessor], hattached.symm, hall'⟩
  | statements hk' _ =>
    revert hl hk'
    unfold holdsStatements
    split <;> simp_all
  | switchCase _ _ _ => cases hl

end GivesWay

end Worklet
