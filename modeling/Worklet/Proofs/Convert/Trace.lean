import Worklet.Proofs.Convert.Sites

/-!
# What converting leaves behind

Converting said without the state that is passed along: what a tree becomes, what is recorded and
reported, and what is put around the statement.

Principal result: `Becomes.induct` — induction over how a tree was converted.
-/

set_option autoImplicit false

namespace Worklet

open Syntax

/-! ### Forms -/

/-- What becomes of a function. -/
structure Form where
  subject : Subject
  /-- The node that takes its place; an accessor may keep its function in a variable. -/
  turned : Prepared → Option String → Ast
  /-- The function as it stands in the result. -/
  callable : Prepared → Ast
  /-- The statements that follow it. -/
  attached : Prepared → List Ast
  isAccessor : Bool

namespace Form

/-- A function that gives way to its wrapper, which is put in a place. -/
def wrapped (place : Ast → Ast) (c : Candidate) : Form where
  subject := .candidate c
  turned p _ := place p.wrapper
  callable p := p.candidate.toFunction
  attached _ := []
  isAccessor := false

/-- An accessor, which hands over to its wrapper. -/
def accessor (place : Ast → Ast) (c : Candidate) : Form where
  subject := .candidate c
  turned p cache := place (delegate p.wrapper cache)
  callable p := p.candidate.toFunction
  attached _ := []
  isAccessor := true

/-- A function of a name, which stays. -/
def declared (place : Ast → Ast) (name : String) (f : Ast) (c : Candidate) : Form where
  subject := .candidate c
  turned p _ := place (withBody p.candidate.body f)
  callable p := declaredWith p.candidate.body f
  attached p := metadataStmts name p.metadata
  isAccessor := false

/-- A function that is never converted. -/
def unsupported (shape : Shape) (span : Span) (body : Ast) : Form where
  subject := .unsupported shape span body
  turned _ _ := .absent
  callable _ := .absent
  attached _ := []
  isAccessor := false

def ofDeclaration (place : Ast → Ast) (name f : Ast) : Option Form :=
  name.identName?.bind fun n => (Candidate.ofFunction .declaration (some n) f).map (declared place n f)

/-- The modifiers that a property has of the method in whose place it stands. -/
def propModifiers (mods : Modifiers) : Modifiers :=
  { access := mods.access, isStatic := mods.isStatic, isOptional := mods.isOptional
    isOverride := mods.isOverride }

def ofMethod (kind : MethodKind) (mods : Modifiers) (s : Span) (key f : Ast) : Candidate → Form :=
  match kind with
  | .method =>
    wrapped fun w => .node (.classProp (propModifiers mods)) s [key, w, .absent, .list []]
  | _ => accessor fun body => .node (.classMethod kind mods) s [key, withBody body f]

end Form

/-- The form of the function that a node in a slot is. -/
def form? (w : Slot) : Ast → Option Form
  | .node .funcExpr _ [name, f] =>
    if w = .exported then none
    else (Candidate.ofFunction .expression name.identName? f).map (.wrapped id)
  | .node (.arrow a) s cs => (Candidate.ofArrow (.node (.arrow a) s cs)).map (.wrapped id)
  | .node (.funcDecl d) s [name, f] =>
    Form.ofDeclaration (fun f => .node (.funcDecl d) s [name, f]) name f
  | .node .method _ [key, f] =>
    (Candidate.ofFunction .objectMethod (keyText key) f).map
      (.wrapped fun w => made .keyValue [key, w])
  | .node .getter s [key, type, body] =>
    (Candidate.ofGetter (.node .getter s [key, type, body])).map
      (.accessor fun body => .node .getter s [key, type, body])
  | .node .setter s [key, this, param, body] =>
    (Candidate.ofSetter (.node .setter s [key, this, param, body])).map
      (.accessor fun body => .node .setter s [key, this, param, body])
  | .node (.classMethod kind mods) s [key, f] =>
    if key.isPrivateName then some (.unsupported .privateMethod s (functionBody f))
    else
      (Candidate.ofFunction (.ofMethod kind mods.isStatic) (keyText key) f).map
        (.ofMethod kind mods s key f)
  | .node (.constructor access opt) s cs =>
    some (.unsupported .constructor s ((Ast.node (.constructor access opt) s cs).child 2))
  | .node .exportDefaultDecl s [.node .funcExpr fs [name, f]] =>
    if w = .statement then
      if name.isPresent then
        Form.ofDeclaration (fun f => .node .exportDefaultDecl s [.node .funcExpr fs [name, f]]) name f
      else
        (Candidate.ofFunction .declaration none f).map
          (.wrapped fun w => .node .exportDefaultExpr s [w])
    else none
  | _ => none

theorem form?_exported (fs : Span) (cs : List Ast) :
    form? .exported (.node .funcExpr fs cs) = none := by
  unfold form?
  split <;> simp_all

theorem form?_default {w : Slot} (hw : w ≠ .statement) (s fs : Span) (cs : List Ast) :
    form? w (.node .exportDefaultDecl s [.node .funcExpr fs cs]) = none := by
  unfold form?
  split <;> simp_all

inductive FormOf : Slot → Ast → Form → Prop
  | expression {w : Slot} {s : Span} {name f : Ast} {c : Candidate} : w ≠ .exported →
    Candidate.ofFunction .expression name.identName? f = some c →
    FormOf w (.node .funcExpr s [name, f]) (.wrapped id c)
  | arrow {w : Slot} {a : Bool} {s : Span} {cs : List Ast} {c : Candidate} :
    Candidate.ofArrow (.node (.arrow a) s cs) = some c →
    FormOf w (.node (.arrow a) s cs) (.wrapped id c)
  | declaration {w : Slot} {d : Bool} {s : Span} {name f : Ast} {n : String} {c : Candidate} :
    name.identName? = some n → Candidate.ofFunction .declaration (some n) f = some c →
    FormOf w (.node (.funcDecl d) s [name, f])
      (.declared (fun f => .node (.funcDecl d) s [name, f]) n f c)
  | method {w : Slot} {s : Span} {key f : Ast} {c : Candidate} :
    Candidate.ofFunction .objectMethod (keyText key) f = some c →
    FormOf w (.node .method s [key, f]) (.wrapped (fun w => made .keyValue [key, w]) c)
  | getter {w : Slot} {s : Span} {key type body : Ast} {c : Candidate} :
    Candidate.ofGetter (.node .getter s [key, type, body]) = some c →
    FormOf w (.node .getter s [key, type, body])
      (.accessor (fun body => .node .getter s [key, type, body]) c)
  | setter {w : Slot} {s : Span} {key this param body : Ast} {c : Candidate} :
    Candidate.ofSetter (.node .setter s [key, this, param, body]) = some c →
    FormOf w (.node .setter s [key, this, param, body])
      (.accessor (fun body => .node .setter s [key, this, param, body]) c)
  | privateMethod {w : Slot} {kind : MethodKind} {mods : Modifiers} {s : Span} {key f : Ast} :
    key.isPrivateName = true →
    FormOf w (.node (.classMethod kind mods) s [key, f])
      (.unsupported .privateMethod s (functionBody f))
  | classMethod {w : Slot} {kind : MethodKind} {mods : Modifiers} {s : Span} {key f : Ast}
    {c : Candidate} : key.isPrivateName = false → kind = .method →
    Candidate.ofFunction (.ofMethod kind mods.isStatic) (keyText key) f = some c →
    FormOf w (.node (.classMethod kind mods) s [key, f])
      (.wrapped
        (fun w => .node (.classProp (Form.propModifiers mods)) s [key, w, .absent, .list []]) c)
  | classAccessor {w : Slot} {kind : MethodKind} {mods : Modifiers} {s : Span} {key f : Ast}
    {c : Candidate} : key.isPrivateName = false → kind ≠ .method →
    Candidate.ofFunction (.ofMethod kind mods.isStatic) (keyText key) f = some c →
    FormOf w (.node (.classMethod kind mods) s [key, f])
      (.accessor (fun body => .node (.classMethod kind mods) s [key, withBody body f]) c)
  | constructor {w : Slot} {access : Option Access} {opt : Bool} {s : Span} {cs : List Ast} :
    FormOf w (.node (.constructor access opt) s cs)
      (.unsupported .constructor s ((Ast.node (.constructor access opt) s cs).child 2))
  | namedDefault {s fs : Span} {name f : Ast} {n : String} {c : Candidate} :
    name.identName? = some n → Candidate.ofFunction .declaration (some n) f = some c →
    FormOf .statement (.node .exportDefaultDecl s [.node .funcExpr fs [name, f]])
      (.declared (fun f => .node .exportDefaultDecl s [.node .funcExpr fs [name, f]]) n f c)
  | namelessDefault {s fs : Span} {name f : Ast} {c : Candidate} : name.isPresent = false →
    Candidate.ofFunction .declaration none f = some c →
    FormOf .statement (.node .exportDefaultDecl s [.node .funcExpr fs [name, f]])
      (.wrapped (fun w => .node .exportDefaultExpr s [w]) c)

/-- Every form is one of them. -/
theorem FormOf.of_form? {w : Slot} {t : Ast} {f : Form} (h : form? w t = some f) : FormOf w t f := by
  unfold form? at h
  split at h
  · split at h
    · cases h
    · rename_i hw
      obtain ⟨c, hc, rfl⟩ := Option.map_eq_some_iff.1 h
      exact .expression hw hc
  · obtain ⟨c, hc, rfl⟩ := Option.map_eq_some_iff.1 h
    exact .arrow hc
  · obtain ⟨n, hn, h⟩ := Option.bind_eq_some_iff.1 h
    obtain ⟨c, hc, rfl⟩ := Option.map_eq_some_iff.1 h
    exact .declaration hn hc
  · obtain ⟨c, hc, rfl⟩ := Option.map_eq_some_iff.1 h
    exact .method hc
  · obtain ⟨c, hc, rfl⟩ := Option.map_eq_some_iff.1 h
    exact .getter hc
  · obtain ⟨c, hc, rfl⟩ := Option.map_eq_some_iff.1 h
    exact .setter hc
  · split at h
    · rename_i hkey
      cases h
      exact .privateMethod hkey
    · rename_i kind mods _ _ _ hkey
      obtain ⟨c, hc, rfl⟩ := Option.map_eq_some_iff.1 h
      have hkey := Bool.eq_false_iff.2 hkey
      cases kind with
      | method => exact .classMethod hkey rfl hc
      | getter => exact .classAccessor hkey (by simp) hc
      | setter => exact .classAccessor hkey (by simp) hc
  · cases h
    exact .constructor
  · split at h
    · rename_i hw
      subst hw
      split at h
      · obtain ⟨n, hn, h⟩ := Option.bind_eq_some_iff.1 h
        obtain ⟨c, hc, rfl⟩ := Option.map_eq_some_iff.1 h
        exact .namedDefault hn hc
      · rename_i hname
        obtain ⟨c, hc, rfl⟩ := Option.map_eq_some_iff.1 h
        exact .namelessDefault (Bool.eq_false_iff.2 hname) hc
    · cases h
  · cases h

/-! ### Traces -/

/-- A conversion or a diagnostic. -/
inductive Entry where
  | converted (e : Conversion)
  | refused (d : Diagnostic)

def convertedIn (entries : List Entry) : List Conversion :=
  entries.filterMap fun
    | .converted e => some e
    | .refused _ => none

def refusedIn (entries : List Entry) : List Diagnostic :=
  entries.filterMap fun
    | .converted _ => none
    | .refused d => some d

theorem mem_convertedIn {e : Conversion} {entries : List Entry} :
    e ∈ convertedIn entries ↔ .converted e ∈ entries := by
  rw [convertedIn, List.mem_filterMap]
  constructor
  · rintro ⟨entry, hmem, h⟩
    cases entry <;> cases h
    exact hmem
  · exact fun h => ⟨_, h, rfl⟩

/-- What converting a tree leaves. What was detected in an argument is converted after all
arguments are, so such entries come late. -/
structure Trace where
  now : List Entry := []
  late : List Entry := []
  caches : List String := []
  stmts : List Ast := []

namespace Trace

/-- One trace after another. -/
protected def append (a b : Trace) : Trace :=
  ⟨a.now ++ b.now, a.late ++ b.late, a.caches ++ b.caches, a.stmts ++ b.stmts⟩

instance : Append Trace := ⟨Trace.append⟩

def entries (a : Trace) : List Entry := a.now ++ a.late

@[simp] theorem entries_now (es : List Entry) (caches : List String) (ss : List Ast) :
    entries ⟨es, [], caches, ss⟩ = es :=
  List.append_nil es

/-- At a call the late entries are made. -/
def through (k : Kind) (a : Trace) : Trace :=
  if k = .call then { a with now := a.entries, late := [] } else a

theorem append_def (a b : Trace) :
    a ++ b = ⟨a.now ++ b.now, a.late ++ b.late, a.caches ++ b.caches, a.stmts ++ b.stmts⟩ :=
  rfl

@[simp] theorem append_caches (a b : Trace) : (a ++ b).caches = a.caches ++ b.caches := rfl

@[simp] theorem append_stmts (a b : Trace) : (a ++ b).stmts = a.stmts ++ b.stmts := rfl

theorem through_of_ne {k : Kind} (hk : k ≠ .call) (a : Trace) : a.through k = a := by
  rw [through, if_neg hk]

@[simp] theorem through_caches (k : Kind) (a : Trace) : (a.through k).caches = a.caches := by
  unfold through
  split <;> rfl

@[simp] theorem through_stmts (k : Kind) (a : Trace) : (a.through k).stmts = a.stmts := by
  unfold through
  split <;> rfl

@[simp] theorem through_entries (k : Kind) (a : Trace) : (a.through k).entries = a.entries := by
  unfold through
  split <;> simp [entries]

theorem entries_append_perm (a b : Trace) : (a ++ b).entries.Perm (a.entries ++ b.entries) := by
  simp only [entries, append_def, List.append_assoc]
  refine .append_left _ ?_
  simp only [← List.append_assoc]
  exact List.perm_append_comm.append_right _

@[simp] theorem mem_entries_append {a b : Trace} {e : Entry} :
    e ∈ (a ++ b).entries ↔ e ∈ a.entries ∨ e ∈ b.entries := by
  rw [(entries_append_perm a b).mem_iff, List.mem_append]

@[simp] theorem append_empty (a : Trace) : a ++ ({} : Trace) = a := by
  simp [append_def]

@[simp] theorem empty_append (a : Trace) : ({} : Trace) ++ a = a := by
  simp [append_def]

end Trace

namespace Form

/-- What becomes of a node that is a function, and the trace of that: a function that cannot be
prepared stays, and is reported once for its marker and once for its slot. -/
def treat (job : Job) (f : Form) (detected : Option Reason) (t : Ast) (cache : Option String) :
    Ast × Trace :=
  let marked := job.isMarked f.subject.body
  match f.subject.prepare job with
  | .error refusal =>
    let entry := Entry.refused ⟨refusal, job.locate f.subject.span⟩
    (t, { now := if marked then [entry] else [], late := if detected.isSome then [entry] else [] })
  | .ok p =>
    if marked then
      (f.turned p cache,
        { now := [.converted ⟨p, .directive, f.callable p⟩]
          caches := if f.isAccessor then cache.toList else []
          stmts := f.attached p })
    else
      match detected with
      | some reason => (f.turned p none, { late := [.converted ⟨p, reason, f.callable p⟩] })
      | none => (t, {})

end Form

/-- What becomes of a node whose parts are converted. -/
def treat (job : Job) (w : Slot) (t : Ast) (cache : Option String) : Ast × Trace :=
  match form? w t with
  | none => (t, {})
  | some f => f.treat job (w.detects t) t cache

/-! ### Converted trees -/

def isStatementList : Kind → Bool
  | .block | .moduleBlock | .module _ => true
  | _ => false

/-- The children of the node are not converted one by one. -/
def holdsStatements : Ast → Bool
  | .node .switchCase _ (_ :: _) => true
  | .node k _ _ => isStatementList k
  | _ => false

mutual

/-- A tree in a slot, what it becomes, and the trace of that. -/
inductive Becomes (job : Job) : Slot → Ast → Ast → Trace → Prop
  | absent {w : Slot} : Becomes job w .absent .absent {}
  | list {w : Slot} {ts ts' : List Ast} {tr : Trace} :
    BecomesAll job w.item ts ts' tr → Becomes job w (.list ts) (.list ts') tr
  | node {w : Slot} {k : Kind} {s : Span} {cs cs' : List Ast} {t' : Ast} {tr own all : Trace}
    (cache : Option String) :
    holdsStatements (.node k s cs) = false →
    BecomesAll job (job.config.hooks.childSlot w (.node k s cs)) cs cs' tr →
    treat job w (.node k s cs') cache = (t', own) →
    all = tr.through k ++ own →
    Becomes job w (.node k s cs) t' all
  | statements {w : Slot} {k : Kind} {s : Span} {ss ss' : List Ast} {entries : List Entry} :
    isStatementList k = true →
    BecomesStmts job ss ss' entries →
    Becomes job w (.node k s ss) (.node k s ss') { now := entries }
  | switchCase {w : Slot} {s : Span} {test test' : Ast} {ss ss' : List Ast} {tr all : Trace}
    {entries : List Entry} :
    Becomes job .plain test test' tr →
    BecomesStmts job ss ss' entries →
    all = tr ++ { now := entries } →
    Becomes job w (.node .switchCase s (test :: ss)) (.node .switchCase s (test' :: ss')) all

inductive BecomesAll (job : Job) : (Nat → Slot) → List Ast → List Ast → Trace → Prop
  | nil {ws : Nat → Slot} : BecomesAll job ws [] [] {}
  | cons {ws : Nat → Slot} {t t' : Ast} {ts ts' : List Ast} {tr tr' all : Trace} :
    Becomes job (ws 0) t t' tr →
    BecomesAll job (fun i => ws (i + 1)) ts ts' tr' →
    all = tr ++ tr' →
    BecomesAll job ws (t :: ts) (t' :: ts') all

/-- Statements and what they become, with what is put around each. -/
inductive BecomesStmts (job : Job) : List Ast → List Ast → List Entry → Prop
  | nil : BecomesStmts job [] [] []
  | cons {t t' : Ast} {ts ts' : List Ast} {tr : Trace} {entries : List Entry} :
    Becomes job .statement t t' tr →
    BecomesStmts job ts ts' entries →
    BecomesStmts job (t :: ts) (tr.caches.map cacheDecl ++ t' :: tr.stmts ++ ts')
      (tr.entries ++ entries)

end

/-- **Induction over how a tree was converted.** -/
theorem Becomes.induct {job : Job} {P : Slot → Ast → Ast → Trace → Prop}
    {Q : (Nat → Slot) → List Ast → List Ast → Trace → Prop}
    {R : List Ast → List Ast → List Entry → Prop}
    (absent : ∀ w, P w .absent .absent {})
    (list : ∀ w ts ts' tr, Q w.item ts ts' tr → P w (.list ts) (.list ts') tr)
    (node : ∀ w k s cs cs' t' tr own cache, holdsStatements (.node k s cs) = false →
      BecomesAll job (job.config.hooks.childSlot w (.node k s cs)) cs cs' tr →
      treat job w (.node k s cs') cache = (t', own) →
      Q (job.config.hooks.childSlot w (.node k s cs)) cs cs' tr →
      P w (.node k s cs) t' (tr.through k ++ own))
    (statements : ∀ w k s ss ss' entries, isStatementList k = true →
      BecomesStmts job ss ss' entries → R ss ss' entries →
      P w (.node k s ss) (.node k s ss') { now := entries })
    (switchCase : ∀ w s test test' ss ss' tr entries, Becomes job .plain test test' tr →
      BecomesStmts job ss ss' entries → P .plain test test' tr → R ss ss' entries →
      P w (.node .switchCase s (test :: ss)) (.node .switchCase s (test' :: ss'))
        (tr ++ { now := entries }))
    (nil : ∀ ws, Q ws [] [] {})
    (cons : ∀ ws t t' ts ts' tr tr', Becomes job (ws 0) t t' tr →
      BecomesAll job (fun i => ws (i + 1)) ts ts' tr' → P (ws 0) t t' tr →
      Q (fun i => ws (i + 1)) ts ts' tr' → Q ws (t :: ts) (t' :: ts') (tr ++ tr'))
    (none : R [] [] [])
    (statement : ∀ t t' ts ts' tr entries, Becomes job .statement t t' tr →
      BecomesStmts job ts ts' entries → P .statement t t' tr → R ts ts' entries →
      R (t :: ts) (tr.caches.map cacheDecl ++ t' :: tr.stmts ++ ts') (tr.entries ++ entries))
    {w : Slot} {t t' : Ast} {tr : Trace} (h : Becomes job w t t' tr) : P w t t' tr := by
  refine @Becomes.rec job (fun w t t' tr _ => P w t t' tr) (fun ws ts ts' tr _ => Q ws ts ts' tr)
    (fun ts ts' es _ => R ts ts' es) (absent _) ?_ ?_ ?_ ?_ (nil _) ?_ none ?_ w t t' tr h
  · exact fun _ => list _ _ _ _
  · rintro w k s cs cs' t' tr own _ cache hk h htreat rfl ih
    exact node w k s cs cs' t' tr own cache hk h htreat ih
  · exact fun hk h => statements _ _ _ _ _ _ hk h
  · rintro w s test test' ss ss' tr _ entries htest hss rfl
    exact switchCase w s test test' ss ss' tr entries htest hss
  · rintro ws t t' ts ts' tr tr' _ h hs rfl
    exact cons ws t t' ts ts' tr tr' h hs
  · exact fun h hs => statement _ _ _ _ _ _ h hs

end Worklet
