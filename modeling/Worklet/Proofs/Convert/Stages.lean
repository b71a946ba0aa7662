import Worklet.Proofs.Convert.Places
import Worklet.Proofs.Names

/-!
# Stages of converting

At every place of a module one can ask what was there when its turn came, and what became of it.

Principal results: `Stage.cache?_injective` — no two places get one variable; `Stage.caches_eq`,
`Stage.stmts_eq` — what is put around a statement comes from its open places.
-/

set_option autoImplicit false

namespace Worklet

open Syntax

/-! ### Walking a tree -/

section Proceed

variable {job : Job} {near : Bool} {n : UsedNames} {w : Slot} {ws : Nat → Slot} {k : Kind} {s : Span}
  {cs : List Ast}

theorem node_cases (k : Kind) (s : Span) (cs : List Ast) :
    (∃ test ss, k = .switchCase ∧ cs = test :: ss) ∨ isStatementList k = true ∨
      holdsStatements (.node k s cs) = false := by
  unfold holdsStatements
  split <;> grind

/-- Induction over a tree as it is walked: statements one by one, and the parts of other nodes. -/
theorem walk_induct {P : Ast → Prop} {Q R : List Ast → Prop} (absent : P .absent)
    (list : ∀ ts, Q ts → P (.list ts))
    (switchCase : ∀ s test ss, P test → R ss → P (.node .switchCase s (test :: ss)))
    (statements : ∀ k s ss, isStatementList k = true → R ss → P (.node k s ss))
    (node : ∀ k s cs, holdsStatements (.node k s cs) = false → Q cs → P (.node k s cs))
    (nil : Q []) (cons : ∀ t ts, P t → Q ts → Q (t :: ts)) (none : R [])
    (statement : ∀ t ts, P t → R ts → R (t :: ts)) : (∀ t, P t) ∧ (∀ ts, Q ts) ∧ ∀ ts, R ts := by
  have htree : ∀ t, P t := by
    refine @Ast.rec P (fun ts => Q ts ∧ R ts ∧ R ts.tail ∧ ∀ t ∈ ts, P t) absent
      (fun ts h => list ts h.1) ?_ ⟨nil, none, none, by simp⟩ ?_
    · rintro k s cs ⟨hparts, hstmts, htail, hall⟩
      rcases node_cases k s cs with ⟨test, ss, rfl, rfl⟩ | hk | hl
      · exact switchCase s test ss (hall test List.mem_cons_self) htail
      · exact statements k s cs hk hstmts
      · exact node k s cs hl hparts
    · rintro t ts ht ⟨hparts, hstmts, -, hall⟩
      exact ⟨cons t ts ht hparts, statement t ts ht hstmts, hstmts, List.forall_mem_cons.2 ⟨ht, hall⟩⟩
  refine ⟨htree, fun ts => ?_, fun ts => ?_⟩
  · induction ts with
    | nil => exact nil
    | cons t ts ih => exact cons t ts (htree t) ih
  · induction ts with
    | nil => exact none
    | cons t ts ih => exact statement t ts (htree t) ih

theorem proceedStmts_trace (job : Job) (n : UsedNames) (ss : List Ast) :
    (proceedStmts job n ss).trace = { now := (proceedStmts job n ss).trace.now } := by
  cases ss <;> rfl

theorem proceed_proceeds (near : Bool) (n : UsedNames) (w : Slot) (t : Ast) :
    Proceeds job near n w t (proceed job near n w t).result (proceed job near n w t).trace
      (proceed job near n w t).names := by
  have h := walk_induct
    (P := fun t => ∀ near n w, Proceeds job near n w t (proceed job near n w t).result
      (proceed job near n w t).trace (proceed job near n w t).names)
    (Q := fun ts => ∀ near n ws, ProceedsAll job near n ws ts (proceedAll job near n ws ts).result
      (proceedAll job near n ws ts).trace (proceedAll job near n ws ts).names)
    (R := fun ss => ∀ n, ProceedsStmts job n ss (proceedStmts job n ss).result
      (proceedStmts job n ss).trace.now (proceedStmts job n ss).names)
    (fun _ _ _ => .absent) (fun ts hts near n w => .list (hts near n w.item)) ?_ ?_ ?_
    (fun _ _ _ => .nil) (fun t ts ht hts near n ws => .cons (ht near n (ws 0)) (hts _ _ _) rfl)
    (fun _ => .nil) (fun t ts ht hts n => .cons (ht true n .statement) (hts _))
  · exact h.1 t near n w
  · intro s test ss htest hss near n w
    rw [proceed]
    refine .switchCase (htest near n .plain) (hss _) ?_
    rw [proceedStmts_trace]
  · intro k s ss hk hss near n w
    rw [proceed_statements hk, proceedStmts_trace]
    exact .statements hk (hss n)
  · intro k s cs hl hcs near n w
    rw [proceed_node hl]
    exact .node hl (hcs _ _ _) rfl rfl rfl

end Proceed

/-! ### Stages -/

/-- A piece of a tree when its turn comes: what is in use, and whether the statements around it run as
often. -/
structure Stage extends Piece where
  near : Bool
  names : UsedNames

/-- The part of a tree at an index is a statement of a list. -/
def entersList : Ast → Nat → Bool
  | .node .switchCase _ (_ :: _), i => i != 0
  | .node k _ _, _ => isStatementList k
  | _, _ => false

/-- The statements around are near to the part of a tree at an index. -/
def partNear (near : Bool) (t : Ast) (i : Nat) : Bool :=
  entersList t i || (near && !t.kind?.any isRepeated)

/-- The stages of trees that are converted one after another. -/
def stageIn (job : Job) : (Nat → Bool) → (Nat → Bool) → UsedNames → (Nat → Slot) → List Ast → Nat →
    Option Stage
  | _, _, _, _, [], _ => none
  | near, body, n, ws, t :: _, 0 => some ⟨⟨ws 0, t, body 0⟩, near 0, n⟩
  | near, body, n, ws, t :: ts, i + 1 =>
    stageIn job (fun i => near (i + 1)) (fun i => body (i + 1)) (proceed job (near 0) n (ws 0) t).names
      (fun i => ws (i + 1)) ts i

/-- What is in use when all of them are converted. -/
def namesAfter (job : Job) : (Nat → Bool) → UsedNames → (Nat → Slot) → List Ast → UsedNames
  | _, n, _, [] => n
  | near, n, ws, t :: ts =>
    namesAfter job (fun i => near (i + 1)) (proceed job (near 0) n (ws 0) t).names
      (fun i => ws (i + 1)) ts

namespace Stage

/-- What becomes of the piece, and what is then in use. -/
def outcome (job : Job) (σ : Stage) : Sequel Ast :=
  proceed job σ.near σ.names σ.slot σ.tree

theorem becomes (job : Job) (σ : Stage) :
    Becomes job σ.slot σ.tree (σ.outcome job).result (σ.outcome job).trace :=
  (proceed_proceeds σ.near σ.names σ.slot σ.tree).becomes

def part? (job : Job) (σ : Stage) (i : Nat) : Option Stage :=
  stageIn job (partNear σ.near σ.tree) (isBodyOf σ.tree) σ.names
    (job.config.hooks.partSlot σ.slot σ.tree) σ.tree.parts i

/-- The stage at a place inside a piece. -/
def at? (job : Job) : Stage → Path → Option Stage
  | σ, [] => some σ
  | σ, i :: π => (σ.part? job i).bind fun τ => τ.at? job π

/-- What is in use when all parts of a piece are converted. -/
def inner (job : Job) (σ : Stage) : UsedNames :=
  namesAfter job (partNear σ.near σ.tree) σ.names (job.config.hooks.partSlot σ.slot σ.tree)
    σ.tree.parts

end Stage

section Names

variable {job : Job}

theorem cacheFor_names (near : Bool) (n : UsedNames) (w : Slot) (t : Ast) :
    n.names ⊆ (cacheFor job near n w t).2.names := by
  unfold cacheFor
  split
  · exact List.Subset.refl _
  · split
    · exact List.subset_cons_self _ _
    · exact List.Subset.refl _

theorem subset_proceed (near : Bool) (n : UsedNames) (w : Slot) (t : Ast) :
    n.names ⊆ (proceed job near n w t).names.names := by
  have h := walk_induct (P := fun t => ∀ near n w, n.names ⊆ (proceed job near n w t).names.names)
    (Q := fun ts => ∀ near n ws, n.names ⊆ (proceedAll job near n ws ts).names.names)
    (R := fun ss => ∀ n, n.names ⊆ (proceedStmts job n ss).names.names)
    ?_ ?_ ?_ ?_ ?_ (fun _ _ _ => List.Subset.refl _)
    (fun t ts ht hts near n ws => List.Subset.trans (ht near n (ws 0)) (hts _ _ _))
    (fun _ => List.Subset.refl _)
    (fun t ts ht hts n => List.Subset.trans (ht true n .statement) (hts _))
  · exact h.1 t near n w
  · intro near n w
    rw [proceed]
    exact List.Subset.refl _
  · intro ts hts near n w
    rw [proceed]
    exact hts near n w.item
  · intro s test ss htest hss near n w
    rw [proceed]
    exact List.Subset.trans (htest near n .plain) (hss _)
  · intro k s ss hk hss near n w
    rw [proceed_statements hk]
    exact hss n
  · intro k s cs hl hcs near n w
    rw [proceed_node hl]
    exact List.Subset.trans (hcs _ n _) (cacheFor_names _ _ _ _)

variable {near body : Nat → Bool} {n : UsedNames} {ws : Nat → Slot} {ts : List Ast} {i j : Nat}
  {τ τ' : Stage}

theorem subset_namesAfter : n.names ⊆ (namesAfter job near n ws ts).names := by
  induction ts generalizing near n ws with
  | nil => exact List.Subset.refl _
  | cons t ts ih => exact List.Subset.trans (subset_proceed _ _ _ t) ih

theorem proceedAll_names (near : Bool) :
    (proceedAll job near n ws ts).names = namesAfter job (fun _ => near) n ws ts := by
  induction ts generalizing n ws with
  | nil => rfl
  | cons t ts ih => exact ih

theorem proceedStmts_names :
    (proceedStmts job n ts).names = namesAfter job (fun _ => true) n (fun _ => .statement) ts := by
  induction ts generalizing n with
  | nil => rfl
  | cons t ts ih => exact ih

theorem stageIn_isSome : (stageIn job near body n ws ts i).isSome = ts[i]?.isSome := by
  induction ts generalizing near body n ws i with
  | nil => rfl
  | cons t ts ih =>
    cases i with
    | zero => rfl
    | succ i => exact ih

theorem stageIn_eq (h : stageIn job near body n ws ts i = some τ) :
    ts[i]? = some τ.tree ∧ τ.slot = ws i ∧ τ.isBody = body i ∧ τ.near = near i := by
  induction ts generalizing near body n ws i with
  | nil => cases h
  | cons t ts ih =>
    cases i with
    | zero =>
      cases h
      exact ⟨rfl, rfl, rfl, rfl⟩
    | succ i => exact ih h

/-- What is in use at the turn of a tree, and after it. -/
theorem stageIn_names (h : stageIn job near body n ws ts i = some τ) :
    n.names ⊆ τ.names.names ∧
      (τ.outcome job).names.names ⊆ (namesAfter job near n ws ts).names := by
  induction ts generalizing near body n ws i with
  | nil => cases h
  | cons t ts ih =>
    cases i with
    | zero =>
      cases h
      exact ⟨List.Subset.refl _, subset_namesAfter⟩
    | succ i => exact ⟨List.Subset.trans (subset_proceed _ _ _ t) (ih h).1, (ih h).2⟩

/-- What is in use after a tree is in use when the turn of a later one comes. -/
theorem stageIn_subset (h : stageIn job near body n ws ts i = some τ)
    (h' : stageIn job near body n ws ts j = some τ') (hij : i < j) :
    (τ.outcome job).names.names ⊆ τ'.names.names := by
  induction ts generalizing near body n ws i j with
  | nil => cases h
  | cons t ts ih =>
    cases j with
    | zero => cases hij
    | succ j =>
      cases i with
      | zero =>
        cases h
        exact (stageIn_names (n := (proceed job (near 0) n (ws 0) t).names) h').1
      | succ i => exact ih h h' (Nat.lt_of_succ_lt_succ hij)

end Names

variable {k : Kind} {s : Span} {cs : List Ast} {name : String}

namespace Stage

variable {job : Job} {σ τ τ' : Stage} {i j : Nat} {π : Path}

/-! ### Nodes -/

/-- What becomes of the children of a node. -/
def parts (job : Job) (σ : Stage) : Sequel (List Ast) :=
  match σ.tree with
  | .node k s cs =>
    proceedAll job (σ.near && !isRepeated k) σ.names
      (job.config.hooks.childSlot σ.slot (.node k s cs)) cs
  | _ => ⟨[], {}, σ.names⟩

/-- The node with its children converted. -/
def halfway (job : Job) (σ : Stage) : Ast :=
  match σ.tree with
  | .node k s _ => .node k s (σ.parts job).result
  | t => t

/-- The variable that the piece gets if it is an accessor. -/
def cache? (job : Job) (σ : Stage) : Option String :=
  if holdsStatements σ.tree then none
  else (cacheFor job σ.near (σ.parts job).names σ.slot (σ.halfway job)).1

/-- What the piece itself leaves when its children are converted. -/
def own (job : Job) (σ : Stage) : Trace :=
  if holdsStatements σ.tree then {}
  else (treat job σ.slot (σ.halfway job) (σ.cache? job)).2

theorem outcome_list {ts : List Ast} (ht : σ.tree = .list ts) :
    σ.outcome job =
      ⟨.list (proceedAll job σ.near σ.names σ.slot.item ts).result,
        (proceedAll job σ.near σ.names σ.slot.item ts).trace,
        (proceedAll job σ.near σ.names σ.slot.item ts).names⟩ := by
  rw [outcome, ht, proceed]

theorem outcome_statements {ss : List Ast} (ht : σ.tree = .node k s ss)
    (hk : isStatementList k = true) :
    σ.outcome job =
      ⟨.node k s (proceedStmts job σ.names ss).result, (proceedStmts job σ.names ss).trace,
        (proceedStmts job σ.names ss).names⟩ := by
  rw [outcome, ht, proceed_statements hk]

theorem outcome_switchCase {test : Ast} {ss : List Ast}
    (ht : σ.tree = .node .switchCase s (test :: ss)) :
    σ.outcome job =
      let test' := proceed job σ.near σ.names .plain test
      let stmts := proceedStmts job test'.names ss
      ⟨.node .switchCase s (test'.result :: stmts.result), test'.trace ++ stmts.trace,
        stmts.names⟩ := by
  rw [outcome, ht, proceed]

/-- What is in use after a node is what is in use after its children, and its variable. -/
theorem outcome_node (ht : σ.tree = .node k s cs) (hl : holdsStatements (.node k s cs) = false) :
    σ.outcome job =
      ⟨(treat job σ.slot (σ.halfway job) (σ.cache? job)).1, (σ.parts job).trace.through k ++ σ.own job,
        (cacheFor job σ.near (σ.parts job).names σ.slot (σ.halfway job)).2⟩ := by
  simp only [outcome, cache?, own, halfway, parts, ht, hl, proceed_node hl, Bool.false_eq_true,
    if_false]

/-! ### Rows of parts -/

theorem entersList_statements (hk : isStatementList k = true) (s : Span) (ss : List Ast) (i : Nat) :
    entersList (.node k s ss) i = true := by
  cases k with
  | block | moduleBlock | module => rfl
  | _ => cases hk

theorem entersList_node (hl : holdsStatements (.node k s cs) = false) (i : Nat) :
    entersList (.node k s cs) i = false := by
  unfold entersList
  unfold holdsStatements at hl
  split <;> grind

theorem holdsStatements_of_entersList {t : Ast} {i : Nat} (h : entersList t i = true) :
    holdsStatements t = true := by
  cases t with
  | absent | list => cases h
  | node k s cs =>
    by_contra hne
    rw [entersList_node (by simpa using hne)] at h
    cases h

theorem partNear_node (near : Bool) (hl : holdsStatements (.node k s cs) = false) :
    partNear near (.node k s cs) = fun _ => near && !isRepeated k := by
  funext i
  rw [partNear, entersList_node hl, Bool.false_or]
  rfl

theorem parts_statements (hk : isStatementList k = true) (near : Bool) (hooks : HookRegistry)
    (w : Slot) (s : Span) (ss : List Ast) :
    partNear near (.node k s ss) = (fun _ => true) ∧
      hooks.partSlot w (.node k s ss) = (fun _ => .statement) ∧
      isBodyOf (.node k s ss) = fun _ => false := by
  cases k with
  | block | moduleBlock | module => exact ⟨rfl, rfl, rfl⟩
  | _ => cases hk

theorem partNear_list (near : Bool) (ts : List Ast) : partNear near (.list ts) = fun _ => near := by
  funext i
  simp [partNear, entersList, Ast.kind?]

theorem parts_switchCase (near : Bool) (hooks : HookRegistry) (w : Slot) (s : Span) (test : Ast)
    (ss : List Ast) :
    partNear near (.node .switchCase s (test :: ss)) 0 = near ∧
      (fun i => partNear near (.node .switchCase s (test :: ss)) (i + 1)) = (fun _ => true) ∧
      hooks.partSlot w (.node .switchCase s (test :: ss)) 0 = .plain ∧
      (fun i => hooks.partSlot w (.node .switchCase s (test :: ss)) (i + 1)) =
        fun _ => .statement := by
  refine ⟨?_, ?_, rfl, rfl⟩
  · simp [partNear, entersList, Ast.kind?, isRepeated]
  · funext i
    simp [partNear, entersList]

theorem inner_node (ht : σ.tree = .node k s cs) (hl : holdsStatements (.node k s cs) = false) :
    σ.inner job = (σ.parts job).names := by
  rw [inner, parts, ht, partNear_node _ hl]
  exact (proceedAll_names _).symm

/-- What is in use after the parts of a piece is in use after the piece. -/
theorem inner_subset (job : Job) (σ : Stage) :
    (σ.inner job).names ⊆ (σ.outcome job).names.names := by
  cases ht : σ.tree with
  | absent =>
    rw [inner, outcome, ht, proceed]
    exact List.Subset.refl _
  | list ts =>
    rw [inner, outcome_list ht, ht, partNear_list, proceedAll_names]
    exact List.Subset.refl _
  | node k s cs =>
    rcases node_cases k s cs with ⟨test, ss, rfl, rfl⟩ | hk | hl
    · obtain ⟨hnear, hnears, hslot, hslots⟩ :=
        parts_switchCase σ.near job.config.hooks σ.slot s test ss
      rw [outcome_switchCase ht, inner, ht, Ast.parts, namesAfter, hnear, hnears, hslot, hslots]
      simp only [proceedStmts_names]
      exact List.Subset.refl _
    · obtain ⟨hnear, hslot, -⟩ := parts_statements hk σ.near job.config.hooks σ.slot s cs
      rw [outcome_statements ht hk, inner, ht, hnear, hslot, proceedStmts_names]
      exact List.Subset.refl _
    · rw [outcome_node ht hl, inner_node ht hl]
      exact cacheFor_names _ _ _ _

/-- A variable is not in use before it is chosen. -/
theorem cache?_notMem (h : σ.cache? job = some name) :
    name ∉ (σ.inner job).names := by
  unfold cache? at h
  split at h
  · cases h
  · rename_i hl
    unfold cacheFor at h
    split at h
    · cases h
    · rename_i f hf
      split at h
      · cases h
        cases ht : σ.tree with
        | absent => simp [halfway, ht, form?] at hf
        | list ts => simp [halfway, ht, form?] at hf
        | node k s cs =>
          rw [inner_node ht (by simpa [ht] using hl)]
          exact UsedNames.freshName_notMem _ _
      · cases h

theorem cache?_mem (h : σ.cache? job = some name) :
    name ∈ (σ.outcome job).names.names := by
  have hl : holdsStatements σ.tree = false := by
    by_contra hne
    rw [cache?, if_pos (by simpa using hne)] at h
    cases h
  rw [cache?, if_neg (by simp [hl])] at h
  cases ht : σ.tree with
  | absent => simp [cacheFor, halfway, ht, form?] at h
  | list ts => simp [cacheFor, halfway, ht, form?] at h
  | node k s cs =>
    rw [outcome_node ht (by rwa [← ht])]
    unfold cacheFor at h ⊢
    split at h
    · cases h
    · split at h
      · cases h
        simp_all [UsedNames.insert]
      · cases h

/-! ### Places -/

theorem part?_piece (h : σ.part? job i = some τ) :
    σ.toPiece.part? job.config.hooks i = some τ.toPiece := by
  obtain ⟨htree, hslot, hbody, -⟩ := stageIn_eq h
  rw [Piece.part?, htree, Option.map_some, ← hslot, ← hbody]

theorem part?_isSome (σ : Stage) (i : Nat) :
    (σ.part? job i).isSome = (σ.toPiece.part? job.config.hooks i).isSome := by
  rw [Piece.part?, Option.isSome_map, part?, stageIn_isSome]

theorem at?_append (σ : Stage) (π ρ : Path) :
    σ.at? job (π ++ ρ) = (σ.at? job π).bind fun τ => τ.at? job ρ := by
  induction π generalizing σ with
  | nil => rfl
  | cons i π ih =>
    rw [List.cons_append, at?, at?, Option.bind_assoc]
    congr
    funext τ
    exact ih τ

theorem at?_piece (h : σ.at? job π = some τ) :
    σ.toPiece.at? job.config.hooks π = some τ.toPiece := by
  induction π generalizing σ with
  | nil =>
    cases h
    rfl
  | cons i π ih =>
    obtain ⟨υ, hυ, h⟩ := Option.bind_eq_some_iff.1 h
    rw [Piece.at?, part?_piece hυ]
    exact ih h

theorem at?_tree (h : σ.at? job π = some τ) : σ.tree.at? π = some τ.tree := by
  induction π generalizing σ with
  | nil =>
    cases h
    rfl
  | cons i π ih =>
    obtain ⟨υ, hυ, h⟩ := Option.bind_eq_some_iff.1 h
    rw [Ast.at?, (stageIn_eq hυ).1]
    exact ih h

/-- What is read at a place has its turn. -/
theorem exists_at? {x : Piece} (h : σ.toPiece.at? job.config.hooks π = some x) :
    ∃ τ, σ.at? job π = some τ ∧ τ.toPiece = x := by
  induction π generalizing σ with
  | nil =>
    cases h
    exact ⟨σ, rfl, rfl⟩
  | cons i π ih =>
    obtain ⟨y, hy, h⟩ := Option.bind_eq_some_iff.1 h
    have hsome : (σ.part? job i).isSome = true := by rw [part?_isSome, hy, Option.isSome_some]
    obtain ⟨υ, hυ⟩ := Option.isSome_iff_exists.1 hsome
    have hpiece := part?_piece hυ
    rw [hy, Option.some.injEq] at hpiece
    subst hpiece
    obtain ⟨τ, hτ, hx⟩ := ih h
    exact ⟨τ, by rw [at?, hυ]; exact hτ, hx⟩

/-- What is in use at a place was in use before, and stays in use. -/
theorem at?_names (h : σ.at? job π = some τ) :
    σ.names.names ⊆ τ.names.names ∧
      (τ.outcome job).names.names ⊆ (σ.outcome job).names.names := by
  induction π generalizing σ with
  | nil =>
    cases h
    exact ⟨List.Subset.refl _, List.Subset.refl _⟩
  | cons i π ih =>
    obtain ⟨υ, hυ, h⟩ := Option.bind_eq_some_iff.1 h
    obtain ⟨hbefore, hafter⟩ := stageIn_names hυ
    exact ⟨List.Subset.trans hbefore (ih h).1,
      List.Subset.trans (ih h).2 (List.Subset.trans hafter (inner_subset job σ))⟩

theorem at?_cache_notMem (h : σ.at? job π = some τ) (hc : τ.cache? job = some name) :
    name ∉ σ.names.names := by
  intro hmem
  refine cache?_notMem hc (subset_namesAfter ?_)
  exact (at?_names h).1 hmem

/-- The variable of a node is chosen after those of its parts. -/
theorem cache?_ne_below (h : σ.at? job (i :: π) = some τ) (hc : τ.cache? job = some name) :
    σ.cache? job ≠ some name := by
  intro hσ
  obtain ⟨υ, hυ, h⟩ := Option.bind_eq_some_iff.1 h
  exact cache?_notMem hσ ((stageIn_names hυ).2 ((at?_names h).2 (cache?_mem hc)))

/-- The variables of a part are chosen before those of the next one. -/
theorem cache?_ne_beside {υ υ' : Stage} {π' : Path} (hij : i < j) (hυ : σ.part? job i = some υ)
    (hυ' : σ.part? job j = some υ') (h : υ.at? job π = some τ) (h' : υ'.at? job π' = some τ')
    (hc : τ.cache? job = some name) : τ'.cache? job ≠ some name :=
  fun hc' => at?_cache_notMem h' hc' (stageIn_subset hυ hυ' hij ((at?_names h).2 (cache?_mem hc)))

/-- **No two places get one variable.** -/
theorem cache?_injective {π' : Path} (h : σ.at? job π = some τ) (h' : σ.at? job π' = some τ')
    (hc : τ.cache? job = some name) (hc' : τ'.cache? job = some name) :
    π = π' := by
  induction π generalizing σ π' with
  | nil =>
    cases h
    cases π' with
    | nil => rfl
    | cons i π' => exact absurd hc (cache?_ne_below h' hc')
  | cons i π ih =>
    cases π' with
    | nil =>
      cases h'
      exact absurd hc' (cache?_ne_below h hc)
    | cons j π' =>
      obtain ⟨υ, hυ, h⟩ := Option.bind_eq_some_iff.1 h
      obtain ⟨υ', hυ', h'⟩ := Option.bind_eq_some_iff.1 h'
      rcases Nat.lt_trichotomy i j with hij | rfl | hij
      · exact absurd hc' (cache?_ne_beside hij hυ hυ' h h' hc)
      · rw [hυ, Option.some.injEq] at hυ'
        subst hυ'
        rw [ih h h']
      · exact absurd hc (cache?_ne_beside hij hυ' hυ h' h hc')

end Stage

/-! ### Open places -/

/-- The place at the next index. -/
def Path.next : Path → Path
  | [] => []
  | i :: π => (i + 1) :: π

mutual

/-- The places in a tree that are in no list of statements in it, inner ones first. -/
def openPlaces : Ast → List Path
  | .absent => [[]]
  | .list ts => openPlacesAll ts ++ [[]]
  | .node .switchCase _ (test :: _) => (openPlaces test).map (0 :: ·) ++ [[]]
  | .node k _ cs => (if isStatementList k then [] else openPlacesAll cs) ++ [[]]

def openPlacesAll : List Ast → List Path
  | [] => []
  | t :: ts => (openPlaces t).map (0 :: ·) ++ (openPlacesAll ts).map Path.next

end

theorem openPlaces_statements (hk : isStatementList k = true) (s : Span) (cs : List Ast) :
    openPlaces (.node k s cs) = [[]] := by
  cases k with
  | block | moduleBlock | module => rw [openPlaces, if_pos hk, List.nil_append]; simp
  | _ => cases hk

theorem openPlaces_node (hl : holdsStatements (.node k s cs) = false) :
    openPlaces (.node k s cs) = openPlacesAll cs ++ [[]] := by
  have hk : isStatementList k = false := by
    by_contra hne
    rw [holdsStatements_of_isStatementList (by simpa using hne)] at hl
    cases hl
  rw [openPlaces, if_neg (by simp [hk])]
  rintro test ss rfl rfl
  cases hl

/-- The stage at a place inside one of several trees. -/
def stageAt? (job : Job) (near body : Nat → Bool) (n : UsedNames) (ws : Nat → Slot) (ts : List Ast) :
    Path → Option Stage
  | [] => none
  | i :: π => (stageIn job near body n ws ts i).bind fun τ => τ.at? job π

section Gathered

variable {job : Job} {α : Type} {g : Trace → List α}

/-- What the pieces at places leave. -/
def gathered (job : Job) (g : Trace → List α) (stage : Path → Option Stage) (πs : List Path) : List α :=
  πs.flatMap fun π => (stage π).elim [] fun τ => g (τ.own job)

theorem gathered_append (stage : Path → Option Stage) (πs ρs : List Path) :
    gathered job g stage (πs ++ ρs) = gathered job g stage πs ++ gathered job g stage ρs :=
  List.flatMap_append

theorem gathered_map (stage : Path → Option Stage) (f : Path → Path) (πs : List Path) :
    gathered job g stage (πs.map f) = gathered job g (stage ∘ f) πs := by
  rw [gathered, List.flatMap_map]
  rfl

theorem gathered_congr {stage stage' : Path → Option Stage} {πs : List Path}
    (h : ∀ π ∈ πs, stage π = stage' π) : gathered job g stage πs = gathered job g stage' πs :=
  List.flatMap_congr fun π hπ => by rw [h π hπ]

theorem nil_notMem_openPlacesAll (ts : List Ast) : [] ∉ openPlacesAll ts := by
  induction ts with
  | nil => exact List.not_mem_nil
  | cons t ts ih =>
    rw [openPlacesAll, List.mem_append, List.mem_map, List.mem_map]
    rintro (⟨π, _, hπ⟩ | ⟨π, hπ, hnext⟩)
    · cases hπ
    · cases π with
      | nil => exact ih hπ
      | cons i π => cases hnext

/-- The places inside a piece are those inside its parts. -/
theorem gathered_parts (job : Job) (g : Trace → List α) (σ : Stage) :
    gathered job g (σ.at? job) (openPlacesAll σ.tree.parts) =
      gathered job g
        (stageAt? job (partNear σ.near σ.tree) (isBodyOf σ.tree) σ.names
          (job.config.hooks.partSlot σ.slot σ.tree) σ.tree.parts) (openPlacesAll σ.tree.parts) := by
  refine gathered_congr fun π hπ => ?_
  cases π with
  | nil => exact absurd hπ (nil_notMem_openPlacesAll _)
  | cons i π => rfl

theorem gathered_root (σ : Stage) : gathered job g (σ.at? job) [[]] = g (σ.own job) := by
  rw [gathered, List.flatMap_cons, List.flatMap_nil, List.append_nil]
  rfl

theorem own_of_kind?_eq_none {σ : Stage} (h : σ.tree.kind? = none) : σ.own job = {} := by
  unfold Stage.own
  split
  · rfl
  · have hform : form? σ.slot (σ.halfway job) = none := by
      cases ht : σ.tree with
      | node k s cs => simp [ht, Ast.kind?] at h
      | absent | list => simp [Stage.halfway, ht, form?]
    rw [treat_none hform]

theorem own_of_holdsStatements {σ : Stage} (h : holdsStatements σ.tree = true) : σ.own job = {} := by
  rw [Stage.own, if_pos h]

/-- **What a tree puts around its statement comes from its open places.** -/
theorem gathered_openPlaces (hnow : ∀ entries, g { now := entries } = [])
    (happend : ∀ a b, g (a ++ b) = g a ++ g b) (hthrough : ∀ k a, g (a.through k) = g a)
    (σ : Stage) :
    g (σ.outcome job).trace = gathered job g (σ.at? job) (openPlaces σ.tree) := by
  have h := walk_induct
    (P := fun t => ∀ near b n w, g (proceed job near n w t).trace =
      gathered job g (Stage.at? job ⟨⟨w, t, b⟩, near, n⟩) (openPlaces t))
    (Q := fun ts => ∀ near body n ws, g (proceedAll job near n ws ts).trace =
      gathered job g (stageAt? job (fun _ => near) body n ws ts) (openPlacesAll ts))
    (R := fun _ => True) ?_ ?_ ?_ ?_ ?_ (fun _ _ _ _ => hnow []) ?_ trivial (fun _ _ _ _ => trivial)
  · obtain ⟨⟨w, t, b⟩, near, n⟩ := σ
    exact h.1 t near b n w
  · intro near b n w
    rw [openPlaces, gathered_root, own_of_kind?_eq_none rfl, proceed]
  · intro ts hts near b n w
    have hparts := gathered_parts job g ⟨⟨w, .list ts, b⟩, near, n⟩
    simp only [Ast.parts, Stage.partNear_list] at hparts
    rw [openPlaces, gathered_append, gathered_root, own_of_kind?_eq_none rfl, hnow, List.append_nil,
      hparts, proceed]
    exact hts near _ n _
  · intro s test ss htest _ near b n w
    rw [openPlaces, gathered_append, gathered_root, own_of_holdsStatements rfl, hnow, List.append_nil,
      gathered_map, proceed, happend, proceedStmts_trace, hnow, List.append_nil,
      htest near false n .plain]
    refine gathered_congr fun π _ => ?_
    obtain ⟨hnear, -⟩ := Stage.parts_switchCase near job.config.hooks w s test ss
    rw [Function.comp_apply, Stage.at?, Stage.part?, Ast.parts, stageIn, Option.bind_some, hnear]
    rfl
  · intro k s ss hk _ near b n w
    rw [openPlaces_statements hk, gathered_root,
      own_of_holdsStatements (holdsStatements_of_isStatementList hk s ss), hnow,
      proceed_statements hk, proceedStmts_trace, hnow]
  · intro k s cs hl hcs near b n w
    have hparts := gathered_parts job g ⟨⟨w, .node k s cs, b⟩, near, n⟩
    have hown : Stage.outcome job ⟨⟨w, .node k s cs, b⟩, near, n⟩ = _ := Stage.outcome_node rfl hl
    have hinside := hcs (near && !isRepeated k) (isBodyOf (.node k s cs)) n
      (job.config.hooks.childSlot w (.node k s cs))
    simp only [Ast.parts, Stage.partNear_node near hl] at hparts
    rw [openPlaces_node hl, gathered_append, gathered_root, hparts]
    calc g (proceed job near n w (.node k s cs)).trace
        = g (Stage.outcome job ⟨⟨w, .node k s cs, b⟩, near, n⟩).trace := rfl
      _ = _ := by rw [hown, happend, hthrough]; exact congrArg (· ++ _) hinside
  · intro t ts ht hts near body n ws
    rw [proceedAll, happend, openPlacesAll, gathered_append, gathered_map, gathered_map,
      ht near (body 0) n (ws 0), hts near (fun i => body (i + 1)) _ _]
    congr 1
    congr 1
    funext π
    cases π <;> rfl

end Gathered

namespace Stage

variable {job : Job}

/-- Only an accessor that is converted keeps its function in a variable. -/
theorem own_caches (job : Job) (σ : Stage) : (σ.own job).caches = (σ.cache? job).toList := by
  unfold own cache?
  split
  · rfl
  · unfold treat cacheFor
    cases hf : form? σ.slot (σ.halfway job) with
    | none => rfl
    | some f =>
      simp only [Form.treat]
      cases hp : f.subject.prepare job with
      | error refusal => simp [Except.isOk, Except.toBool]
      | ok p =>
        cases hm : job.isMarked f.subject.body with
        | true => cases ha : f.isAccessor <;> simp [Except.isOk, Except.toBool]
        | false => cases σ.slot.detects (σ.halfway job) <;> simp

/-- **The variables before a statement are those of its open places.** -/
theorem caches_eq (job : Job) (σ : Stage) :
    (σ.outcome job).trace.caches =
      (openPlaces σ.tree).flatMap fun π => ((σ.at? job π).bind (·.cache? job)).toList := by
  refine (gathered_openPlaces (g := Trace.caches) (fun _ => rfl) (fun _ _ => rfl)
    Trace.through_caches σ).trans ?_
  refine List.flatMap_congr fun π _ => ?_
  cases hτ : σ.at? job π with
  | none => rfl
  | some τ => exact own_caches job τ

/-- **The statements after a statement are those of its open places.** -/
theorem stmts_eq (job : Job) (σ : Stage) :
    (σ.outcome job).trace.stmts =
      (openPlaces σ.tree).flatMap fun π => (σ.at? job π).elim [] fun τ => (τ.own job).stmts :=
  gathered_openPlaces (g := Trace.stmts) (fun _ => rfl) (fun _ _ => rfl)
    Trace.through_stmts σ

end Stage

end Worklet
