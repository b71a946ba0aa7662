import Worklet.Proofs.Convert.Subjects

/-!
# Converting with names

What a tree becomes depends on the names that are in use, since an accessor may keep its function in a
variable. Here the names are told, too, so that all is determined.

Principal results: `Proceeds.becomes` — a tree becomes what it does with names; `Proceeds.eq_proceed` —
with names it becomes what a function says, in one way only.
-/

set_option autoImplicit false

namespace Worklet

open Syntax

/-- The base of the name of an accessor's variable. -/
def cacheBase : Ast → String
  | .node .setter _ _ => setterCache
  | .node (.classMethod .setter _) _ _ => setterCache
  | _ => getterCache

/-- The variable for the function of a node whose parts are converted, and the names that are then in
use. A marked accessor has one, if the statements around it are near: they run as often. -/
def cacheFor (job : Job) (near : Bool) (n : UsedNames) (w : Slot) (t : Ast) :
    Option String × UsedNames :=
  match form? w t with
  | none => (none, n)
  | some f =>
    if near && f.isAccessor && job.isMarked f.subject.body && (f.subject.prepare job).isOk then
      (some (n.freshName (cacheBase t)), n.insert (n.freshName (cacheBase t)))
    else (none, n)

mutual

/-- A tree in a slot, with names in use, what it becomes, the trace of that, and the names that are
then in use. -/
inductive Proceeds (job : Job) :
    Bool → UsedNames → Slot → Ast → Ast → Trace → UsedNames → Prop
  | absent {near : Bool} {n : UsedNames} {w : Slot} : Proceeds job near n w .absent .absent {} n
  | list {near : Bool} {n n' : UsedNames} {w : Slot} {ts ts' : List Ast} {tr : Trace} :
    ProceedsAll job near n w.item ts ts' tr n' → Proceeds job near n w (.list ts) (.list ts') tr n'
  | node {near : Bool} {n n₁ n' : UsedNames} {w : Slot} {k : Kind} {s : Span} {cs cs' : List Ast}
    {t' : Ast} {tr own all : Trace} :
    holdsStatements (.node k s cs) = false →
    ProceedsAll job (near && !isRepeated k) n (job.config.hooks.childSlot w (.node k s cs)) cs cs' tr
      n₁ →
    treat job w (.node k s cs') (cacheFor job near n₁ w (.node k s cs')).1 = (t', own) →
    all = tr.through k ++ own →
    n' = (cacheFor job near n₁ w (.node k s cs')).2 →
    Proceeds job near n w (.node k s cs) t' all n'
  | statements {near : Bool} {n n' : UsedNames} {w : Slot} {k : Kind} {s : Span} {ss ss' : List Ast}
    {entries : List Entry} :
    isStatementList k = true →
    ProceedsStmts job n ss ss' entries n' →
    Proceeds job near n w (.node k s ss) (.node k s ss') { now := entries } n'
  | switchCase {near : Bool} {n n₁ n' : UsedNames} {w : Slot} {s : Span} {test test' : Ast}
    {ss ss' : List Ast} {tr all : Trace} {entries : List Entry} :
    Proceeds job near n .plain test test' tr n₁ →
    ProceedsStmts job n₁ ss ss' entries n' →
    all = tr ++ { now := entries } →
    Proceeds job near n w (.node .switchCase s (test :: ss)) (.node .switchCase s (test' :: ss')) all n'

inductive ProceedsAll (job : Job) :
    Bool → UsedNames → (Nat → Slot) → List Ast → List Ast → Trace → UsedNames → Prop
  | nil {near : Bool} {n : UsedNames} {ws : Nat → Slot} : ProceedsAll job near n ws [] [] {} n
  | cons {near : Bool} {n n₁ n' : UsedNames} {ws : Nat → Slot} {t t' : Ast} {ts ts' : List Ast}
    {tr tr' all : Trace} :
    Proceeds job near n (ws 0) t t' tr n₁ →
    ProceedsAll job near n₁ (fun i => ws (i + 1)) ts ts' tr' n' →
    all = tr ++ tr' →
    ProceedsAll job near n ws (t :: ts) (t' :: ts') all n'

/-- Statements and what they become, with what is put around each. -/
inductive ProceedsStmts (job : Job) :
    UsedNames → List Ast → List Ast → List Entry → UsedNames → Prop
  | nil {n : UsedNames} : ProceedsStmts job n [] [] [] n
  | cons {n n₁ n' : UsedNames} {t t' : Ast} {ts ts' : List Ast} {tr : Trace} {entries : List Entry} :
    Proceeds job true n .statement t t' tr n₁ →
    ProceedsStmts job n₁ ts ts' entries n' →
    ProceedsStmts job n (t :: ts) (tr.caches.map cacheDecl ++ t' :: tr.stmts ++ ts')
      (tr.entries ++ entries) n'

end

/-! ### What becomes of a tree -/

/-- What becomes of something, the trace of that, and the names that are then in use. -/
structure Sequel (α : Type) where
  result : α
  trace : Trace
  names : UsedNames

mutual

/-- What becomes of a tree in a slot, with names in use. -/
def proceed (job : Job) (near : Bool) (n : UsedNames) (w : Slot) : Ast → Sequel Ast
  | .absent => ⟨.absent, {}, n⟩
  | .list ts =>
    let parts := proceedAll job near n w.item ts
    ⟨.list parts.result, parts.trace, parts.names⟩
  | .node .switchCase s (test :: ss) =>
    let test' := proceed job near n .plain test
    let stmts := proceedStmts job test'.names ss
    ⟨.node .switchCase s (test'.result :: stmts.result), test'.trace ++ stmts.trace, stmts.names⟩
  | .node k s cs =>
    if isStatementList k then
      let stmts := proceedStmts job n cs
      ⟨.node k s stmts.result, stmts.trace, stmts.names⟩
    else
      let parts :=
        proceedAll job (near && !isRepeated k) n (job.config.hooks.childSlot w (.node k s cs)) cs
      let cache := cacheFor job near parts.names w (.node k s parts.result)
      let own := treat job w (.node k s parts.result) cache.1
      ⟨own.1, parts.trace.through k ++ own.2, cache.2⟩

def proceedAll (job : Job) (near : Bool) (n : UsedNames) (ws : Nat → Slot) :
    List Ast → Sequel (List Ast)
  | [] => ⟨[], {}, n⟩
  | t :: ts =>
    let first := proceed job near n (ws 0) t
    let rest := proceedAll job near first.names (fun i => ws (i + 1)) ts
    ⟨first.result :: rest.result, first.trace ++ rest.trace, rest.names⟩

/-- What becomes of statements, with what is put around each. -/
def proceedStmts (job : Job) (n : UsedNames) : List Ast → Sequel (List Ast)
  | [] => ⟨[], {}, n⟩
  | t :: ts =>
    let first := proceed job true n .statement t
    let rest := proceedStmts job first.names ts
    ⟨first.trace.caches.map cacheDecl ++ first.result :: first.trace.stmts ++ rest.result,
      { now := first.trace.entries ++ rest.trace.now }, rest.names⟩

end

section Proceeds

variable {job : Job} {near : Bool} {n n' : UsedNames} {w : Slot} {ws : Nat → Slot} {t t' : Ast}
  {ts ts' cs : List Ast} {tr : Trace} {entries : List Entry} {k : Kind} {s : Span}

/-! ### Without names -/

mutual

/-- **A tree becomes what it does with names.** -/
theorem Proceeds.becomes : ∀ {near : Bool} {n n' : UsedNames} {w : Slot} {t t' : Ast} {tr : Trace},
    Proceeds job near n w t t' tr n' → Becomes job w t t' tr
  | _, _, _, _, _, _, _, .absent => .absent
  | _, _, _, _, _, _, _, .list h => .list h.becomes
  | _, _, _, _, _, _, _, .node hl hcs ht hall _ => .node _ hl hcs.becomes ht hall
  | _, _, _, _, _, _, _, .statements hk h => .statements hk h.becomes
  | _, _, _, _, _, _, _, .switchCase h hs hall => .switchCase h.becomes hs.becomes hall

theorem ProceedsAll.becomes : ∀ {near : Bool} {n n' : UsedNames} {ws : Nat → Slot} {ts ts' : List Ast}
    {tr : Trace}, ProceedsAll job near n ws ts ts' tr n' → BecomesAll job ws ts ts' tr
  | _, _, _, _, _, _, _, .nil => .nil
  | _, _, _, _, _, _, _, .cons h hs hall => .cons h.becomes hs.becomes hall

theorem ProceedsStmts.becomes : ∀ {n n' : UsedNames} {ss ss' : List Ast} {entries : List Entry},
    ProceedsStmts job n ss ss' entries n' → BecomesStmts job ss ss' entries
  | _, _, _, _, _, .nil => .nil
  | _, _, _, _, _, .cons h hs => .cons h.becomes hs.becomes

end

/-! ### One way only -/

theorem holdsStatements_of_isStatementList {k : Kind} (hk : isStatementList k = true) (s : Span)
    (cs : List Ast) : holdsStatements (.node k s cs) = true := by
  cases k with
  | block | moduleBlock | module => rfl
  | _ => cases hk

theorem proceed_statements (hk : isStatementList k = true) :
    proceed job near n w (.node k s cs) =
      ⟨.node k s (proceedStmts job n cs).result, (proceedStmts job n cs).trace,
        (proceedStmts job n cs).names⟩ := by
  cases k with
  | block | moduleBlock | module => rw [proceed, if_pos hk]; simp
  | _ => cases hk

theorem proceed_node (hl : holdsStatements (.node k s cs) = false) :
    proceed job near n w (.node k s cs) =
      let parts :=
        proceedAll job (near && !isRepeated k) n (job.config.hooks.childSlot w (.node k s cs)) cs
      let cache := cacheFor job near parts.names w (.node k s parts.result)
      let own := treat job w (.node k s parts.result) cache.1
      ⟨own.1, parts.trace.through k ++ own.2, cache.2⟩ := by
  have hk : isStatementList k = false := by
    by_contra hne
    rw [holdsStatements_of_isStatementList (by simpa using hne)] at hl
    cases hl
  rw [proceed]
  · rw [if_neg (by simp [hk])]
  · rintro test ss rfl rfl
    cases hl

mutual

/-- **With names, a tree becomes what the function says.** -/
theorem Proceeds.eq_proceed : ∀ {near : Bool} {n n' : UsedNames} {w : Slot} {t t' : Ast} {tr : Trace},
    Proceeds job near n w t t' tr n' → proceed job near n w t = ⟨t', tr, n'⟩
  | _, _, _, _, _, _, _, .absent => by rw [proceed]
  | _, _, _, _, _, _, _, .list h => by rw [proceed, h.eq_proceedAll]
  | _, _, _, _, _, _, _, .node hl hcs ht hall hn => by
    rw [proceed_node hl, hcs.eq_proceedAll]
    simp only [ht, hall, hn]
  | _, _, _, _, _, _, _, .statements hk h => by rw [proceed_statements hk, h.eq_proceedStmts]
  | _, _, _, _, _, _, _, .switchCase h hs hall => by
    simp only [proceed, h.eq_proceed, hs.eq_proceedStmts, hall]

theorem ProceedsAll.eq_proceedAll : ∀ {near : Bool} {n n' : UsedNames} {ws : Nat → Slot}
    {ts ts' : List Ast} {tr : Trace}, ProceedsAll job near n ws ts ts' tr n' →
    proceedAll job near n ws ts = ⟨ts', tr, n'⟩
  | _, _, _, _, _, _, _, .nil => by rw [proceedAll]
  | _, _, _, _, _, _, _, .cons h hs hall => by
    simp only [proceedAll, h.eq_proceed, hs.eq_proceedAll, hall]

theorem ProceedsStmts.eq_proceedStmts : ∀ {n n' : UsedNames} {ss ss' : List Ast}
    {entries : List Entry}, ProceedsStmts job n ss ss' entries n' →
    proceedStmts job n ss = ⟨ss', { now := entries }, n'⟩
  | _, _, _, _, _, .nil => by rw [proceedStmts]
  | _, _, _, _, _, .cons h hs => by simp only [proceedStmts, h.eq_proceed, hs.eq_proceedStmts]

end

/-- **With names, a tree becomes one tree only.** -/
theorem Proceeds.unique {n₁ n₂ : UsedNames} {t₁ t₂ : Ast} {tr₁ tr₂ : Trace}
    (h₁ : Proceeds job near n w t t₁ tr₁ n₁) (h₂ : Proceeds job near n w t t₂ tr₂ n₂) :
    t₁ = t₂ ∧ tr₁ = tr₂ ∧ n₁ = n₂ := by
  have h := h₁.eq_proceed.symm.trans h₂.eq_proceed
  cases h
  exact ⟨rfl, rfl, rfl⟩

/-! ### Nodes -/

/-- Parts that run as often as the node are as near. -/
theorem near_and_not_isRepeated {k : Kind} (hk : isRepeated k = false) : (near && !isRepeated k) = near := by
  simp [hk]

theorem cacheFor_none (h : form? w t = none) : cacheFor job near n w t = (none, n) := by
  simp [cacheFor, h]

theorem cacheFor_of_not_accessor {f : Form} (h : form? w t = some f) (hf : f.isAccessor = false) :
    cacheFor job near n w t = (none, n) := by
  simp [cacheFor, h, hf]

theorem cacheFor_unmarked {f : Form} (h : form? w t = some f)
    (hm : job.isMarked f.subject.body = false) : cacheFor job near n w t = (none, n) := by
  simp [cacheFor, h, hm]

theorem cacheFor_refused {f : Form} {refusal : Refusal} (h : form? w t = some f)
    (hp : f.subject.prepare job = .error refusal) : cacheFor job near n w t = (none, n) := by
  simp [cacheFor, h, hp, Except.isOk, Except.toBool]

theorem cacheFor_far (w : Slot) (t : Ast) : cacheFor job false n w t = (none, n) := by
  unfold cacheFor
  split <;> simp

theorem cacheFor_near {f : Form} {p : Prepared} (h : form? w t = some f) (hf : f.isAccessor = true)
    (hm : job.isMarked f.subject.body = true) (hp : f.subject.prepare job = .ok p) :
    cacheFor job true n w t =
      (some (n.freshName (cacheBase t)), n.insert (n.freshName (cacheBase t))) := by
  simp [cacheFor, h, hf, hm, hp, Except.isOk, Except.toBool]

end Proceeds

end Worklet
