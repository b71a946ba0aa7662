import Worklet.Proofs.Convert.Caches
import Worklet.Proofs.Convert.Parts

/-!
# Statements around statements

While a statement is converted, variables and attached statements are queued that belong around it, and
they are put there when the statement is done.

Principal result: `transform_splices` — every list of statements becomes the segments of its statements,
in order; what is queued at a place is put around the statement of the place, once and nowhere else.
-/

set_option autoImplicit false

namespace Worklet

open Syntax

/-! ### Segments -/

/-- A statement as it was converted, with what is put around it. -/
structure Segment where
  lets : List String
  statement : Ast
  attached : List Ast

/-- The statements of a segment. -/
def Segment.stmts (g : Segment) : List Ast :=
  g.lets.map cacheDecl ++ g.statement :: g.attached

def statementsOf (t : Ast) : List Ast :=
  (ownStatements t).getD []

/-- The index of the first of them among its parts: a case of a switch has a test before. -/
def firstStatement : Ast → Nat
  | .node .switchCase _ (_ :: _) => 1
  | _ => 0

/-- Statements when their turns come. -/
def stagesOf (job : Job) (n : UsedNames) : List Ast → List Stage
  | [] => []
  | t :: ts =>
    ⟨⟨.statement, t, false⟩, true, n⟩ :: stagesOf job (proceed job true n .statement t).names ts

/-- A statement when its turn has come, with what is put around it. -/
def Stage.segment (job : Job) (τ : Stage) : Segment :=
  ⟨(τ.outcome job).trace.caches, (τ.outcome job).result, (τ.outcome job).trace.stmts⟩

section Segments

variable {job : Job} {n : UsedNames} {ss : List Ast} {i : Nat} {σ τ υ : Stage} {l u : Ast}

theorem statementsOf_statements {k : Kind} (hk : isStatementList k = true) (s : Span) (ss : List Ast) :
    statementsOf (.node k s ss) = ss ∧ firstStatement (.node k s ss) = 0 := by
  cases k with
  | block | moduleBlock | module => exact ⟨rfl, rfl⟩
  | _ => cases hk

theorem stagesOf_getElem? :
    (stagesOf job n ss)[i]? =
      stageIn job (fun _ => true) (fun _ => false) n (fun _ => .statement) ss i := by
  induction ss generalizing n i with
  | nil => rfl
  | cons t ts ih =>
    cases i with
    | zero => rfl
    | succ i => exact ih

theorem stagesOf_length : (stagesOf job n ss).length = ss.length := by
  induction ss generalizing n with
  | nil => rfl
  | cons t ts ih => rw [stagesOf, List.length_cons, List.length_cons, ih]

theorem proceedStmts_segments :
    (proceedStmts job n ss).result = (stagesOf job n ss).flatMap fun τ => (τ.segment job).stmts := by
  induction ss generalizing n with
  | nil => rfl
  | cons t ts ih =>
    rw [proceedStmts, stagesOf, List.flatMap_cons, ih]
    rfl

theorem Stage.result_segments (job : Job) (hl : holdsStatements σ.tree = true) :
    ∃ stages : List Stage, stages.length = (statementsOf σ.tree).length ∧
      (∀ i, stages[i]? = σ.part? job (firstStatement σ.tree + i)) ∧
      statementsOf (σ.outcome job).result = stages.flatMap (fun τ => (τ.segment job).stmts) ∧
      (statementsOf (σ.outcome job).result).takeWhile isStringStatement =
        (statementsOf σ.tree).takeWhile isStringStatement := by
  cases ht : σ.tree with
  | absent | list => simp [ht, holdsStatements] at hl
  | node k s cs =>
    rcases node_cases k s cs with ⟨test, ss, rfl, rfl⟩ | hk | hl'
    · obtain ⟨hnear, hnears, hslot, hslots⟩ :=
        parts_switchCase σ.near job.config.hooks σ.slot s test ss
      refine ⟨stagesOf job (proceed job σ.near σ.names .plain test).names ss, stagesOf_length,
        fun i => ?_, ?_, ?_⟩
      · rw [part?, ht, firstStatement, Nat.add_comm, Ast.parts, stageIn, hnear, hnears, hslot, hslots]
        exact stagesOf_getElem?
      · rw [outcome_switchCase ht]
        exact proceedStmts_segments
      · rw [outcome_switchCase ht]
        exact proceedStmts_takeWhile fun _ h => h
    · obtain ⟨hnear, hslot, hbody⟩ := parts_statements hk σ.near job.config.hooks σ.slot s cs
      obtain ⟨hstatements, hfirst⟩ := statementsOf_statements hk s cs
      refine ⟨stagesOf job σ.names cs, by rw [hstatements]; exact stagesOf_length, fun i => ?_,
        ?_, ?_⟩
      · rw [part?, ht, hfirst, Nat.zero_add, hnear, hslot, hbody]
        exact stagesOf_getElem?
      · rw [outcome_statements ht hk, (statementsOf_statements hk s _).1]
        exact proceedStmts_segments
      · rw [outcome_statements ht hk, (statementsOf_statements hk s _).1, hstatements]
        exact proceedStmts_takeWhile fun _ h => h
    · rw [ht, hl'] at hl
      cases hl

/-- A marker is a segment of its own. -/
theorem Stage.segment_of_isDirective {marker : String} (h : isDirective marker τ.tree = true) :
    (τ.segment job).stmts = [τ.tree] := by
  have hbecomes := τ.becomes job
  obtain ⟨hresult, htrace⟩ := hbecomes.of_isDirective h
  rw [segment, Segment.stmts, hresult, htrace]
  rfl

/-- A list of statements becomes the segments of its statements, and the strings at its head stay there;
the marker of a function that is converted is left out. -/
theorem Stage.leaves_segments (hl : holdsStatements σ.tree = true) (hu : σ.Leaves job u) :
    ∃ (stages : List Stage) (lost : Nat), stages.length = (statementsOf σ.tree).length ∧
      (∀ i, stages[i]? = σ.part? job (firstStatement σ.tree + i)) ∧
      (lost = 0 ∨ lost = 1 ∧ σ.isBody = true ∧ hasDirective job.config.marker σ.tree = true) ∧
      statementsOf u = (stages.drop lost).flatMap (fun τ => (τ.segment job).stmts) ∧
      (statementsOf u).takeWhile isStringStatement =
        ((statementsOf σ.tree).takeWhile isStringStatement).drop lost := by
  obtain ⟨stages, hlength, hparts, hsegments, hleading⟩ := result_segments job hl
  rcases hu with rfl | ⟨hbody, rfl⟩
  · exact ⟨stages, 0, hlength, hparts, .inl rfl, hsegments, hleading⟩
  cases hmarked : hasDirective job.config.marker (σ.outcome job).result with
  | false =>
    rw [stripDirective_eq_self hmarked]
    exact ⟨stages, 0, hlength, hparts, .inl rfl, hsegments, hleading⟩
  | true =>
    obtain ⟨s, d, ss, n₁, ht, hd, hresult, -⟩ := outcome_marked hmarked
    have hstring := isStringStatement_of_isDirective hd
    refine ⟨stages, 1, hlength, hparts, .inr ⟨rfl, hbody, by rw [ht]; exact hd⟩, ?_, ?_⟩
    · have hfirst := hparts 0
      rw [ht] at hlength
      cases stages with
      | nil => cases hlength
      | cons τ stages =>
        have hτ : d = τ.tree := by
          have hpart := part?_tree hfirst.symm
          rw [ht] at hpart
          simpa [Ast.parts, firstStatement] using hpart
        rw [hresult] at hsegments ⊢
        rw [List.flatMap_cons, segment_of_isDirective (hτ ▸ hd), hτ] at hsegments
        rw [stripDirective, if_pos hd]
        exact (List.cons.inj hsegments).2
    · rw [hresult] at hleading ⊢
      rw [← hleading, stripDirective, if_pos hd]
      simp [statementsOf, ownStatements, isStatementList, hstring]

end Segments

/-! ### Declarations -/

/-- The name and the body of a function declaration, or of a named default export among statements. -/
def declaration? (w : Slot) : Ast → Option (String × Ast)
  | .node (.funcDecl _) _ [name, f] => name.identName?.map (·, functionBody f)
  | .node .exportDefaultDecl _ [.node .funcExpr _ [name, f]] =>
    if w = .statement then name.identName?.map (·, functionBody f) else none
  | _ => none

section Declarations

variable {job : Job} {τ : Stage} {w : Slot} {t body : Ast} {name : String} {f : Form}

theorem functionBody_withBody {kind : FunctionKind} {n : Option String} {c : Candidate} {fn : Ast}
    (hc : Candidate.ofFunction kind n fn = some c) (b : Ast) : functionBody (withBody b fn) = b := by
  obtain ⟨_, _, _, _, _, _, _, _, rfl, -⟩ := Candidate.ofFunction_eq_some hc
  rfl

/-- A declaration that has a form stays with the body of its candidate, and its metadata is attached. -/
theorem declaration_form (job : Job) (hd : declaration? w t = some (name, body))
    (hf : form? w t = some f) :
    f.subject.body = body ∧ ∀ p, f.subject.prepare job = .ok p →
      f.attached p = metadataStmts name p.metadata ∧
        ∀ cache, declaration? w (f.turned p cache) = some (name, p.candidate.body) := by
  cases FormOf.of_form? hf with
  | declaration hn hc =>
    simp only [declaration?, hn, Option.map_some, Option.some.injEq, Prod.mk.injEq] at hd
    obtain ⟨rfl, rfl⟩ := hd
    refine ⟨(Candidate.ofFunction_body hc).symm, fun p _ => ⟨rfl, fun cache => ?_⟩⟩
    simp [Form.declared, declaration?, hn, functionBody_withBody hc]
  | namedDefault hn hc =>
    simp only [declaration?, hn, Option.map_some, if_true, Option.some.injEq, Prod.mk.injEq] at hd
    obtain ⟨rfl, rfl⟩ := hd
    refine ⟨(Candidate.ofFunction_body hc).symm, fun p _ => ⟨rfl, fun cache => ?_⟩⟩
    simp [Form.declared, declaration?, hn, functionBody_withBody hc]
  | @namelessDefault s fs name₀ _ _ hname _ =>
    cases name₀ with
    | absent => cases hd
    | list | node => cases hname
  | expression | arrow | method | getter | setter | privateMethod | classMethod | classAccessor
    | constructor => cases hd

/-- Only declarations have something attached. -/
theorem declaration_of_attached {p : Prepared} (hf : form? w t = some f) (ha : f.attached p ≠ []) :
    ∃ name body, declaration? w t = some (name, body) := by
  cases FormOf.of_form? hf with
  | declaration hn _ => exact ⟨_, _, by simp [declaration?, hn]; exact ⟨rfl, rfl⟩⟩
  | namedDefault hn _ => exact ⟨_, _, by simp [declaration?, hn]; exact ⟨rfl, rfl⟩⟩
  | expression | arrow | method | getter | setter | privateMethod | classMethod | classAccessor
    | constructor | namelessDefault => exact absurd rfl ha

namespace Stage

/-- The function of a default export has its parts converted. -/
theorem proceed_exported (job : Job) (near : Bool) (n : UsedNames) (fs : Span) (cs : List Ast) :
    ∃ near' n', (proceed job near n .exported (.node .funcExpr fs cs)).result =
      .node .funcExpr fs (proceedAll job near' n' (fun _ => .plain) cs).result := by
  refine ⟨near && !isRepeated .funcExpr, n, ?_⟩
  rw [proceed_node rfl]
  exact congrArg Prod.fst (treat_none (form?_exported fs _) _)

theorem identName?_proceed (job : Job) (near : Bool) (n : UsedNames) (u : Ast) :
    (proceed job near n .plain u).result.identName? = u.identName? :=
  (proceed_proceeds near n .plain u).becomes.resembles.ident

theorem isMarked_proceed (job : Job) (near : Bool) (n : UsedNames) (u : Ast) :
    job.isMarked (functionBody (proceed job near n .plain u).result) =
      job.isMarked (functionBody u) :=
  (proceed_proceeds near n .plain u).becomes.bodyAgrees_functionBody.marked _

theorem halfway_funcDecl {d : Bool} {s : Span} {cs : List Ast} (job : Job)
    (ht : τ.tree = .node (.funcDecl d) s cs) :
    ∃ near n, τ.halfway job = .node (.funcDecl d) s (proceedAll job near n (fun _ => .plain) cs).result :=
  ⟨_, _, by rw [halfway, parts, ht]; rfl⟩

theorem halfway_default {s fs : Span} {cs : List Ast} (job : Job)
    (ht : τ.tree = .node .exportDefaultDecl s [.node .funcExpr fs cs]) :
    ∃ near n, τ.halfway job =
      .node .exportDefaultDecl s [.node .funcExpr fs (proceedAll job near n (fun _ => .plain) cs).result] := by
  obtain ⟨near', n', hresult⟩ :=
    proceed_exported job (τ.near && !isRepeated .exportDefaultDecl) τ.names fs cs
  refine ⟨near', n', ?_⟩
  rw [halfway, parts, ht, ← hresult]
  rfl

/-- The function of a default export was one before. -/
theorem exported_of_halfway {s fs : Span} {c : Ast} {cs' : List Ast}
    (ht : τ.tree = .node .exportDefaultDecl s [c])
    (hh : τ.halfway job = .node .exportDefaultDecl s [.node .funcExpr fs cs']) :
    ∃ cs, c = .node .funcExpr fs cs ∧ cs.length = cs'.length := by
  have hpart : (τ.part? job 0).isSome = true := by rw [part?, stageIn_isSome, ht]; rfl
  obtain ⟨υ, hυ⟩ := Option.isSome_iff_exists.1 hpart
  have hc := part?_tree hυ
  have hresult := parts_getElem? ht rfl hυ
  rw [halfway, ht] at hh
  rw [ht] at hc
  injection hh with _ _ hparts
  rw [hparts] at hresult
  cases hc
  obtain ⟨cs, htree, hlength, -⟩ := of_result (by simpa using hresult.symm) rfl fun _ => rfl
  exact ⟨cs, htree, hlength⟩

/-- A declaration whose parts are converted has its name and begins with the marker if it did. -/
theorem halfway_declaration (job : Job) (hd : declaration? τ.slot τ.tree = some (name, body)) :
    ∃ k s cs body', τ.tree = .node k s cs ∧ holdsStatements (.node k s cs) = false ∧
      declaration? τ.slot (τ.halfway job) = some (name, body') ∧
        job.isMarked body' = job.isMarked body := by
  unfold declaration? at hd
  split at hd
  case h_1 d s name₀ fn ht =>
    obtain ⟨near, n, hhalfway⟩ := halfway_funcDecl job ht
    obtain ⟨_, hn, heq⟩ := Option.map_eq_some_iff.1 hd
    cases heq
    rw [hhalfway]
    exact ⟨_, _, _, _, ht, rfl, Option.map_eq_some_iff.2
      ⟨name, (identName?_proceed job near n name₀).trans hn, rfl⟩, isMarked_proceed _ _ _ _⟩
  case h_2 s fs name₀ fn ht =>
    split at hd
    · rename_i hw
      obtain ⟨near, n, hhalfway⟩ := halfway_default job ht
      obtain ⟨_, hn, heq⟩ := Option.map_eq_some_iff.1 hd
      cases heq
      rw [hhalfway, hw]
      exact ⟨_, _, _, _, ht, rfl, Option.map_eq_some_iff.2
        ⟨name, (identName?_proceed job near n name₀).trans hn, rfl⟩, isMarked_proceed _ _ _ _⟩
    · cases hd
  case h_3 => cases hd

/-- A node with the parts of a declaration is one. -/
theorem declaration_of_halfway (hd : declaration? τ.slot (τ.halfway job) = some (name, body)) :
    ∃ body', declaration? τ.slot τ.tree = some (name, body') := by
  generalize hh : τ.halfway job = h at hd
  unfold declaration? at hd
  split at hd
  case h_1 d s name' f' =>
    obtain ⟨cs, ht, hlength⟩ := halfway_node hh
    obtain ⟨name₀, fn, rfl⟩ := List.length_eq_two.1 hlength
    obtain ⟨near, n, hhalfway⟩ := halfway_funcDecl job ht
    rw [hh] at hhalfway
    cases hhalfway
    rw [identName?_proceed] at hd
    obtain ⟨_, hn, heq⟩ := Option.map_eq_some_iff.1 hd
    cases heq
    exact ⟨_, by rw [ht]; exact Option.map_eq_some_iff.2 ⟨name, hn, rfl⟩⟩
  case h_2 s fs name' f' =>
    obtain ⟨cs, ht, hlength⟩ := halfway_node hh
    obtain ⟨c, rfl⟩ := List.length_eq_one_iff.1 hlength
    obtain ⟨cs₁, rfl, hlength₁⟩ := exported_of_halfway ht hh
    obtain ⟨name₀, fn, rfl⟩ := List.length_eq_two.1 hlength₁
    obtain ⟨near, n, hhalfway⟩ := halfway_default job ht
    rw [hh] at hhalfway
    cases hhalfway
    split at hd
    · rename_i hw
      rw [identName?_proceed] at hd
      obtain ⟨_, hn, heq⟩ := Option.map_eq_some_iff.1 hd
      cases heq
      exact ⟨_, by rw [ht, hw]; exact Option.map_eq_some_iff.2 ⟨name, hn, rfl⟩⟩
    · cases hd
  case h_3 => cases hd

/-- A marked declaration stays with its marker, or its metadata is attached. -/
theorem declaration_cases (hd : declaration? τ.slot τ.tree = some (name, body))
    (hm : job.isMarked body = true) :
    ((τ.own job).stmts = [] ∧ ∃ body', declaration? τ.slot (τ.outcome job).result = some (name, body') ∧
      job.isMarked body' = true) ∨
    ∃ e, .converted e ∈ (τ.own job).entries ∧
      (τ.own job).stmts = metadataStmts name e.prepared.metadata ∧
      declaration? τ.slot (τ.outcome job).result = some (name, e.prepared.candidate.body) := by
  obtain ⟨k, s, cs, body', ht, hl, hd', hmarked⟩ := halfway_declaration job hd
  rw [hm] at hmarked
  cases hf : form? τ.slot (τ.halfway job) with
  | none =>
    obtain ⟨-, hown, hresult⟩ := formless ht hl hf
    exact .inl ⟨by rw [hown], body', hresult ▸ hd', hmarked⟩
  | some f =>
    obtain ⟨rfl, hform⟩ := declaration_form job hd' hf
    rcases marked_cases ht hl hf hmarked with
      ⟨-, hstmts, hresult⟩ | ⟨p, hp, hresult, hentries, hstmts, -⟩
    · exact .inl ⟨hstmts, _, hresult ▸ hd', hmarked⟩
    · obtain ⟨hattached, hturned⟩ := hform p hp
      exact .inr ⟨_, hentries, hstmts.trans hattached, by rw [hresult]; exact hturned _⟩

/-- Only marked declarations have something attached. -/
theorem declaration_of_stmts (h : (τ.own job).stmts ≠ []) :
    ∃ name body, declaration? τ.slot τ.tree = some (name, body) ∧ job.isMarked body = true := by
  unfold own at h
  split at h
  · exact absurd rfl h
  generalize hout : treat job τ.slot (τ.halfway job) (τ.cache? job) = out at h
  obtain ⟨t', trace⟩ := out
  cases hf : form? τ.slot (τ.halfway job) with
  | none =>
    rw [treat_none hf] at hout
    cases hout
    exact absurd rfl h
  | some f =>
    rw [treat, hf] at hout
    rcases Form.treat_cases hout with
      ⟨refusal, -, -, rfl⟩ | ⟨p, hp, ⟨-, -, -, rfl⟩ | ⟨hm, -, rfl⟩ | ⟨reason, -, -, -, rfl⟩⟩
    · exact absurd rfl h
    · exact absurd rfl h
    · obtain ⟨name, body', hd'⟩ := declaration_of_attached hf h
      obtain ⟨body, hd⟩ := declaration_of_halfway hd'
      obtain ⟨-, -, -, body'', -, -, hd'', hmarks⟩ := halfway_declaration job hd
      rw [hd', Option.some.injEq, Prod.mk.injEq] at hd''
      rw [(declaration_form job hd' hf).1, hd''.2] at hm
      exact ⟨name, body, hd, hmarks ▸ hm⟩
    · exact absurd rfl h

end Stage

end Declarations

/-! ### Places in exactly one statement -/

section Once

variable {t u l l' s s' : Ast} {i i' : Nat} {π ρ ρ' κ κ' : Path}

/-- No list of statements is entered on the way to an open place. -/
theorem entersList_of_open (h : κ ∈ openPlaces s) (hκ : κ = ρ ++ i :: κ') (hl : s.at? ρ = some l) :
    entersList l i = false := by
  induction ρ generalizing s κ with
  | nil =>
    cases hl
    rw [hκ] at h
    exact (cons_mem_openPlaces.1 h).1
  | cons j ρ ih =>
    rw [hκ] at h
    obtain ⟨-, c, hc, h⟩ := cons_mem_openPlaces.1 h
    rw [Ast.at?, hc] at hl
    exact ih h rfl hl

theorem InStatement.below {j : Nat} (h : InStatement t π (j :: ρ) i κ l s) :
    ∃ c, t.parts[j]? = some c ∧ π = j :: (ρ ++ i :: κ) ∧ InStatement c (ρ ++ i :: κ) ρ i κ l s := by
  obtain ⟨c, hc, hlist⟩ := Option.bind_eq_some_iff.1 h.list_at
  exact ⟨c, hc, h.path, rfl, hlist, h.enters, h.statement_at, h.isOpen⟩

/-- A statement of a list does not hold a list around its own open places. -/
theorem InStatement.not_below {j : Nat} (h : InStatement t π [] i κ l s)
    (h' : InStatement t π (j :: ρ') i' κ' l' s') : False := by
  obtain ⟨c, hc, hpath', hin⟩ := h'.below
  have hpath := h.path.symm.trans hpath'
  simp only [List.nil_append, List.cons.injEq] at hpath
  have hlist : t = l := Option.some.inj h.list_at
  have hstatement : s = c := by
    have hs := h.statement_at
    rw [← hlist, hpath.1, hc, Option.some.injEq] at hs
    exact hs.symm
  have henters := entersList_of_open h.isOpen hpath.2 (hstatement ▸ hin.list_at)
  rw [h'.enters] at henters
  cases henters

/-- A place is in one statement only. -/
theorem InStatement.unique (h : InStatement t π ρ i κ l s) (h' : InStatement t π ρ' i' κ' l' s') :
    ρ' = ρ ∧ i' = i ∧ κ' = κ := by
  induction ρ generalizing t π ρ' with
  | nil =>
    cases ρ' with
    | nil =>
      have hpath := h'.path.symm.trans h.path
      simp only [List.nil_append, List.cons.injEq] at hpath
      exact ⟨rfl, hpath⟩
    | cons j ρ' => exact (h.not_below h').elim
  | cons j ρ ih =>
    cases ρ' with
    | nil => exact (h'.not_below h).elim
    | cons j' ρ' =>
      obtain ⟨c, hc, hpath, hin⟩ := h.below
      obtain ⟨c', hc', hpath', hin'⟩ := h'.below
      obtain ⟨rfl, htail⟩ := List.cons.inj (hpath.symm.trans hpath')
      obtain rfl : c = c' := Option.some.inj (hc.symm.trans hc')
      rw [← htail] at hin'
      obtain ⟨rfl, hrest⟩ := ih hin hin'
      exact ⟨rfl, hrest⟩

theorem nodup_openPlaces (t : Ast) : (openPlaces t).Nodup := by
  have hnil {πs : List Path} (h : πs.Nodup) (hn : [] ∉ πs) : (πs ++ [[]]).Nodup := by
    rw [List.nodup_append]
    refine ⟨h, List.nodup_singleton _, ?_⟩
    rintro π hπ _ (_ | ⟨_, ⟨⟩⟩) rfl
    exact hn hπ
  have hzero {πs : List Path} (h : πs.Nodup) : (πs.map (0 :: ·)).Nodup :=
    h.map fun _ _ heq => (List.cons.inj heq).2
  refine (walk_induct (P := fun t => (openPlaces t).Nodup) (Q := fun ts => (openPlacesAll ts).Nodup)
    (R := fun _ => True) ?_ ?_ ?_ ?_ ?_ List.nodup_nil ?_ trivial fun _ _ _ _ => trivial).1 t
  · exact List.nodup_singleton _
  · exact fun ts h => hnil h (nil_notMem_openPlacesAll ts)
  · intro s test ss h _
    rw [openPlaces]
    exact hnil (hzero h) (by simp)
  · intro k s ss hk _
    rw [openPlaces_statements hk]
    exact List.nodup_singleton _
  · intro k s cs hl h
    rw [openPlaces_node hl]
    exact hnil h (nil_notMem_openPlacesAll cs)
  · intro t ts ht hts
    rw [openPlacesAll, List.nodup_append]
    refine ⟨hzero ht, hts.map_on ?_, ?_⟩
    · intro π hπ ρ hρ heq
      cases π with
      | nil => exact absurd hπ (nil_notMem_openPlacesAll ts)
      | cons i π =>
        cases ρ with
        | nil => exact absurd hρ (nil_notMem_openPlacesAll ts)
        | cons j ρ => simpa [Path.next] using heq
    · intro π hπ ρ hρ heq
      subst heq
      obtain ⟨π', -, rfl⟩ := List.mem_map.1 hπ
      obtain ⟨ρ', -, heq⟩ := List.mem_map.1 hρ
      cases ρ' <;> cases heq

end Once

/-! ### Programs -/

/-- How the lists of statements of a module became those of another, when variables and statements are
queued at places. -/
structure Splices (job : Job) (conversions : List Conversion) (module module' : Ast)
    (cacheAt : Path → Option String) (attachedAt : Path → List Ast) : Prop where
  /-- A list becomes the segments of its statements, in order. Around a statement stands what is queued
  at its open places. Only the marker of a function that is converted is left out, and the strings at the
  head of the list stay there. -/
  lists : ∀ ρ x, Piece.at? job.config.hooks ⟨.plain, module, false⟩ ρ = some x →
    holdsStatements x.tree = true → Arrives job.config.marker module module' ρ fun l' =>
      ∃ (segments : List Segment) (lost : Nat), segments.length = (statementsOf x.tree).length ∧
        (∀ i s g, (statementsOf x.tree)[i]? = some s → segments[i]? = some g →
          (∃ tr, Becomes job .statement s g.statement tr) ∧
          g.lets = (openPlaces s).flatMap (fun κ =>
            (cacheAt (ρ ++ (firstStatement x.tree + i) :: κ)).toList) ∧
          g.attached = (openPlaces s).flatMap fun κ =>
            attachedAt (ρ ++ (firstStatement x.tree + i) :: κ)) ∧
        (lost = 0 ∨ lost = 1 ∧ x.isBody = true ∧ hasDirective job.config.marker x.tree = true) ∧
        statementsOf l' = (segments.drop lost).flatMap Segment.stmts ∧
        (statementsOf l').takeWhile isStringStatement =
          ((statementsOf x.tree).takeWhile isStringStatement).drop lost
  /-- A variable is that of an accessor at the place. -/
  accessors : ∀ π name, cacheAt π = some name → ∃ x body,
    Piece.at? job.config.hooks ⟨.plain, module, false⟩ π = some x ∧
      accessorBody? x.tree = some body ∧ Arrives job.config.marker module module' π fun u =>
        ∃ wrapper, accessorBody? u = some (delegate wrapper (some name))
  /-- A marked declaration stays with its marker, or it loses the marker and its metadata is queued. -/
  declarations : ∀ π x name body,
    Piece.at? job.config.hooks ⟨.plain, module, false⟩ π = some x →
    declaration? x.slot x.tree = some (name, body) → job.isMarked body = true →
    Arrives job.config.marker module module' π fun u =>
      (attachedAt π = [] ∧ ∃ body', declaration? x.slot u = some (name, body') ∧
        job.isMarked body' = true) ∨
      ∃ e ∈ conversions, attachedAt π = metadataStmts name e.prepared.metadata ∧
        declaration? x.slot u = some (name, e.prepared.candidate.body)
  /-- Statements are queued for nothing else. -/
  attached : ∀ π, attachedAt π ≠ [] → ∃ x name body,
    Piece.at? job.config.hooks ⟨.plain, module, false⟩ π = some x ∧
      declaration? x.slot x.tree = some (name, body) ∧ job.isMarked body = true
  /-- A declaration that is the only one in its statement has its metadata right after the statement. -/
  direct : ∀ π ρ i κ l s, InStatement module π ρ i κ l s →
    (∀ κ' ∈ openPlaces s, ∀ x, Piece.at? job.config.hooks ⟨.plain, module, false⟩ (ρ ++ i :: κ') = some x →
      (declaration? x.slot x.tree).isSome = true → κ' = κ) →
    (openPlaces s).flatMap (fun κ' => attachedAt (ρ ++ i :: κ')) = attachedAt π
  /-- A place is open in one statement of one list, once. -/
  once : ∀ π u, module.at? π = some u → π ≠ [] → ∃ ρ i κ l s, InStatement module π ρ i κ l s ∧
    (openPlaces s).Nodup ∧ ∀ ρ' i' κ' l' s', InStatement module π ρ' i' κ' l' s' →
      ρ' = ρ ∧ i' = i ∧ κ' = κ

section Programs

variable {job : Job} {p : Program} {σ υ τ : Stage} {i : Nat} {π ρ κ : Path}

/-- The statements of a list are its parts from the first of them on. -/
theorem statementsOf_getElem? {t : Ast} (hl : holdsStatements t = true) (i : Nat) :
    (statementsOf t)[i]? = t.parts[firstStatement t + i]? ∧
      entersList t (firstStatement t + i) = true := by
  cases t with
  | absent | list => cases hl
  | node k s cs =>
    rcases node_cases k s cs with ⟨test, ss, rfl, rfl⟩ | hk | hl'
    · rw [firstStatement, Nat.add_comm]
      exact ⟨rfl, rfl⟩
    · obtain ⟨hstatements, hfirst⟩ := statementsOf_statements hk s cs
      rw [hstatements, hfirst, Nat.zero_add]
      exact ⟨rfl, Stage.entersList_statements hk s cs i⟩
    · rw [hl] at hl'
      cases hl'

theorem partSlot_of_entersList {hooks : HookRegistry} {w : Slot} {t : Ast} (h : entersList t i = true) :
    hooks.partSlot w t i = .statement := by
  cases t with
  | absent | list => cases h
  | node k s cs =>
    rcases node_cases k s cs with ⟨test, ss, rfl, rfl⟩ | hk | hl
    · cases i with
      | zero => cases h
      | succ i => rfl
    · cases k with
      | block | moduleBlock | module => rfl
      | _ => cases hk
    · rw [Stage.entersList_node hl] at h
      cases h

/-- Of a list without repetitions, only one place gives something. -/
theorem flatMap_eq_of_nodup {α β : Type} {xs : List α} {x : α} {f : α → List β} (hn : xs.Nodup)
    (hx : x ∈ xs) (hf : ∀ y ∈ xs, y ≠ x → f y = []) : xs.flatMap f = f x := by
  induction xs with
  | nil => cases hx
  | cons y ys ih =>
    obtain ⟨hy, hys⟩ := List.nodup_cons.1 hn
    rw [List.flatMap_cons]
    rcases List.mem_cons.1 hx with rfl | hx
    · have hnone : ys.flatMap f = [] := List.flatMap_eq_nil_iff.2 fun z hz =>
        hf z (List.mem_cons_of_mem _ hz) (by rintro rfl; exact hy hz)
      rw [hnone, List.append_nil]
    · have hfirst : f y = [] := hf y List.mem_cons_self (by rintro rfl; exact hy hx)
      rw [hfirst, List.nil_append]
      exact ih hys hx fun z hz => hf z (List.mem_cons_of_mem _ hz)

/-- What is queued at a place when its turn comes. -/
def Stage.attachedAt (job : Job) (σ : Stage) (π : Path) : List Ast :=
  (σ.at? job π).elim [] fun τ => (τ.own job).stmts

theorem Stage.at?_part (hυ : σ.at? job ρ = some υ) (hτ : υ.part? job i = some τ) (κ : Path) :
    σ.at? job (ρ ++ i :: κ) = τ.at? job κ := by
  rw [at?_append, hυ, Option.bind_some, at?, hτ, Option.bind_some]

/-- Declarations are pieces of their own. -/
theorem Stage.isSite_of_declaration {name : String} {body : Ast}
    (he : τ.slot = .exported → τ.tree.kind? = some .funcExpr)
    (hd : declaration? τ.slot τ.tree = some (name, body)) : τ.isSite = true := by
  unfold declaration? at hd
  split at hd
  case h_3 => cases hd
  all_goals
    rename_i ht
    simp_all [Piece.isSite, Piece.isElement, Ast.kind?]

theorem Stage.Leaves.eq_of_declaration {u : Ast} {name : String} {body : Ast} (h : τ.Leaves job u)
    (hd : declaration? τ.slot τ.tree = some (name, body)) : u = (τ.outcome job).result := by
  refine h.eq_result ?_
  unfold declaration? at hd
  split at hd
  case h_3 => cases hd
  all_goals
    rename_i ht
    rw [ht]
    rfl

/-- The lists of statements of a module when their turns come. -/
theorem Stage.splices (job : Job) (hroot : isModule p.module = true) :
    Splices job (convertedIn ((ofProgram p).outcome job).trace.entries) p.module
      ((ofProgram p).outcome job).result (fun π => ((ofProgram p).at? job π).bind (·.cache? job))
      ((ofProgram p).attachedAt job) := by
  have hat {π : Path} {x : Piece} (hx : Piece.at? job.config.hooks ⟨.plain, p.module, false⟩ π = some x) :
      ∃ τ, (ofProgram p).at? job π = some τ ∧ τ.toPiece = x := exists_at? hx
  have hexported {π : Path} {τ : Stage} (hτ : (ofProgram p).at? job π = some τ) :
      τ.slot = .exported → τ.tree.kind? = some .funcExpr := at?_exported hτ (by rintro ⟨⟩)
  have hmarked {π : Path} (h : (ofProgram p).attachedAt job π ≠ []) : ∃ x name body,
      Piece.at? job.config.hooks ⟨.plain, p.module, false⟩ π = some x ∧
        declaration? x.slot x.tree = some (name, body) ∧ job.isMarked body = true := by
    cases hτ : (ofProgram p).at? job π with
    | none => simp [attachedAt, hτ] at h
    | some τ =>
      rw [attachedAt, hτ] at h
      obtain ⟨name, body, hd, hm⟩ := declaration_of_stmts h
      exact ⟨τ.toPiece, name, body, at?_piece hτ, hd, hm⟩
  constructor
  case lists =>
    intro ρ x hx hl
    obtain ⟨υ, hυ, rfl⟩ := hat hx
    refine (carries job _ ρ υ hυ (isSite_of_holdsStatements (hexported hυ) hl)).imp fun l' hl' => ?_
    obtain ⟨stages, lost, hlength, hparts, hlost, hsegments, hleading⟩ := leaves_segments hl hl'
    refine ⟨stages.map (·.segment job), lost, by rw [List.length_map, hlength], ?_, hlost, ?_, hleading⟩
    · intro i s g hs hg
      obtain ⟨τ, hτ, rfl⟩ := Option.map_eq_some_iff.1 ((List.getElem?_map).symm.trans hg)
      rw [hparts] at hτ
      obtain ⟨hstatement, henters⟩ := statementsOf_getElem? hl i
      obtain ⟨htree, hslot, -, -⟩ := stageIn_eq hτ
      rw [partSlot_of_entersList henters] at hslot
      obtain rfl : τ.tree = s := Option.some.inj (htree.symm.trans (hstatement.symm.trans hs))
      have hbecomes := τ.becomes job
      rw [hslot] at hbecomes
      refine ⟨⟨_, hbecomes⟩, ?_, ?_⟩
      · simp only [segment, caches_eq, at?_part hυ hτ]
      · simp only [segment, stmts_eq, attachedAt, at?_part hυ hτ]
    · rw [hsegments, ← List.map_drop, List.flatMap_map]
  case accessors =>
    intro π name h
    obtain ⟨τ, hτ, hc⟩ := Option.bind_eq_some_iff.1 h
    obtain ⟨body, hb, hm⟩ := accessor_of_cache hc
    refine ⟨τ.toPiece, body, at?_piece hτ, hb, ?_⟩
    refine (carries job _ π τ hτ (isSite_of_accessor (hexported hτ) hb)).imp fun u hu => ?_
    obtain rfl := hu.eq_of_accessor hb
    rcases accessor_cases hb hm with ⟨hnone, -⟩ | ⟨e, -, hturned, -⟩
    · rw [hc] at hnone
      cases hnone
    · exact ⟨_, hc ▸ hturned⟩
  case declarations =>
    intro π x name body hx hd hm
    obtain ⟨τ, hτ, rfl⟩ := hat hx
    refine (carries job _ π τ hτ (isSite_of_declaration (hexported hτ) hd)).imp fun u hu => ?_
    obtain rfl := hu.eq_of_declaration hd
    simp only [attachedAt, hτ, Option.elim_some]
    rcases declaration_cases hd hm with hstays | ⟨e, he, hattached, hturned⟩
    · exact .inl hstays
    · exact .inr ⟨e, mem_convertedIn.2 (own_subset hτ he), hattached, hturned⟩
  case attached => exact fun π h => hmarked h
  case direct =>
    intro π ρ i κ l s hin hone
    rw [hin.path]
    refine flatMap_eq_of_nodup (nodup_openPlaces s) hin.isOpen fun κ' hκ' hne => ?_
    by_contra h
    obtain ⟨x, name, body, hx, hd, -⟩ := hmarked h
    exact hne (hone κ' hκ' x hx (by rw [hd]; rfl))
  case once =>
    intro π u hu hne
    rcases open_or_inStatement hu with hopen | ⟨ρ, i, κ, l, s, hin⟩
    · obtain ⟨shebang, s, items, hmodule⟩ := isModule_eq_true hroot
      rw [hmodule, openPlaces_statements rfl, List.mem_singleton] at hopen
      exact absurd hopen hne
    · exact ⟨ρ, i, κ, l, s, hin, nodup_openPlaces s, fun _ _ _ _ _ => hin.unique⟩

/-- The frame of a list of statements has nothing queued when it is left. -/
theorem convertStmts_frames (job : Job) (ss : List Ast) (s : Progress) :
    ((convertStmts job ss).run { s with frames := { depth := s.depth } :: s.frames }).2.frames =
      { depth := s.depth } :: s.frames := by
  let start : Progress := { s with frames := { depth := s.depth } :: s.frames }
  have hrun : Ensures (convertStmts job ss) start fun ss' s' => ∃ entries n',
      ProceedsStmts job start.names ss ss' entries n' ∧ Moved entries [] [] n' start s' :=
    convertStmts_proceeds ss start (fun u _ => convertTree_proceeds u) ⟨s.frames, rfl⟩
  obtain ⟨entries, n', -, hm⟩ := hrun
  exact hm.frames.trans (queued_nil _)

end Programs

/-- **Statements are put around statements without losing or moving any.** Every list of statements
becomes the segments of its statements in order: the variables of the accessors in a statement, what the
statement became, and the metadata of the declarations in it. A place is open in one statement of one
list, so what is queued at it stands there once, and the frame of a list is empty when it is left. The
metadata of a declaration follows the statement of the list in which it is, so it is right after the
declaration only if this is that statement, exported or not: where a declaration is a branch of an `if`,
a labelled statement or the body of a loop, its metadata is after that. -/
theorem transform_splices (config : Config) (p : Program) (hroot : isModule p.module = true) :
    (∃ module cacheAt attachedAt,
      (transform config p).module = (if config.strictMode then ensureStrict module else module) ∧
      Splices (.ofProgram config p) (transform config p).conversions p.module module cacheAt
        attachedAt) ∧
    ∀ (ss : List Ast) (s : Progress), ((convertStmts (.ofProgram config p) ss).run
      { s with frames := { depth := s.depth } :: s.frames }).2.frames =
        { depth := s.depth } :: s.frames := by
  obtain ⟨hmodule, hconversions⟩ := transform_stage config hroot
  rw [hconversions]
  exact ⟨⟨_, _, _, hmodule, Stage.splices (.ofProgram config p) hroot⟩,
    convertStmts_frames (.ofProgram config p)⟩

/-- `if (c) function f() { "worklet"; return 1; }` -/
def sampleBranch : Program where
  filename := "/app/a.js"
  text := []
  module :=
    made (.module none)
      [made .ifStmt
        [madeIdent "c",
         .node (.funcDecl false) ⟨7, 43⟩
          [madeIdent "f",
           .node (.function false false) ⟨7, 43⟩
            [.list [], .list [],
             made .block [madeStatement (madeString "worklet"), madeReturn (madeNumber 1)],
             .absent, .absent]],
         .absent]]
  comments := default

/-- What is queued at a declaration in a branch follows the `if`, and that is its metadata if it is
converted. -/
theorem transform_splices_sampleBranch :
    ∃ group : List Ast,
      (Arrives Config.standard.marker sampleBranch.module (transform .standard sampleBranch).module []
        fun l' => ∃ (lets : List String) (statement : Ast),
          statementsOf l' = lets.map cacheDecl ++ statement :: group) ∧
      Arrives Config.standard.marker sampleBranch.module (transform .standard sampleBranch).module [0, 1]
        fun _ => group = [] ∨ ∃ e ∈ (transform .standard sampleBranch).conversions,
          group = metadataStmts "f" e.prepared.metadata := by
  obtain ⟨module, cacheAt, attachedAt, hmodule, h⟩ := (transform_splices .standard sampleBranch rfl).1
  obtain rfl : (transform .standard sampleBranch).module = module := hmodule
  obtain ⟨s, hs⟩ : ∃ s, statementsOf sampleBranch.module = [s] := ⟨_, rfl⟩
  have halone : ∀ κ ∈ openPlaces s, ((Piece.at? HookRegistry.standard ⟨.plain, sampleBranch.module, false⟩
      (0 :: κ)).bind fun x => declaration? x.slot x.tree).isSome = true → κ = [1] := by
    cases hs
    decide +kernel
  have hqueued := h.direct [0, 1] [] 0 [1] sampleBranch.module s
    (by cases hs; exact ⟨rfl, rfl, rfl, rfl, by decide +kernel⟩)
    fun κ hκ x hx hd => halone κ hκ (by rw [List.nil_append] at hx; exact hx ▸ hd)
  refine ⟨attachedAt [0, 1], (h.lists [] _ rfl rfl).imp ?_,
    (h.declarations [0, 1] _ _ _ rfl rfl (by decide +kernel)).imp ?_⟩
  · rintro l' ⟨segments, lost, hlength, hsegments, hlost, hstatements, -⟩
    obtain ⟨g, rfl⟩ : ∃ g, segments = [g] := List.length_eq_one_iff.1 (hlength.trans (by rw [hs]; rfl))
    obtain ⟨-, -, hattached⟩ := hsegments 0 s g (by rw [hs]; rfl) rfl
    obtain rfl : lost = 0 := hlost.resolve_right (by simp)
    have hfirst : firstStatement sampleBranch.module = 0 := rfl
    refine ⟨g.lets, g.statement, ?_⟩
    rw [hstatements, ← hqueued]
    simpa [Segment.stmts, hfirst] using hattached
  · rintro u (⟨hnone, -⟩ | ⟨e, he, hgroup, -⟩)
    · exact .inl hnone
    · exact .inr ⟨e, he, hgroup⟩

end Worklet
