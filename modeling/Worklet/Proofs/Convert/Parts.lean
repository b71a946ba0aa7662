import Worklet.Proofs.Convert.GivesWay
import Worklet.Proofs.Convert.Views
import Worklet.Proofs.Scope.Language

/-!
# Lists of statements in converted functions

What takes the place of a function has the lists of statements that the function had, but for those in
parts that the wrapper has no room for, and one list of its own.

* `statementLists` — the lists of statements in a tree.

Principal result: `GivesWay.parts` — the lists of what takes the place of a function.
-/

set_option autoImplicit false

namespace Worklet

open Syntax

/-- The statements of a node that holds a list of them. -/
def ownStatements : Ast → Option (List Ast)
  | .node .switchCase _ (_ :: ss) => some ss
  | .node k _ ss => if isStatementList k then some ss else none
  | _ => none

mutual

def statementLists : Ast → List (List Ast)
  | .absent => []
  | .list ts => statementListsAll ts
  | .node k s cs => (ownStatements (.node k s cs)).toList ++ statementListsAll cs

def statementListsAll : List Ast → List (List Ast)
  | [] => []
  | t :: ts => statementLists t ++ statementListsAll ts

end

variable {ts cs ps ps' qs : List Ast} {k : Kind} {s : Span} {b : Bool} {u' : Ast}

theorem mem_statementListsAll {ss : List Ast} :
    ss ∈ statementListsAll ts ↔ ∃ t ∈ ts, ss ∈ statementLists t :=
  Joins.mem ⟨rfl, fun _ _ => rfl⟩

theorem ownStatements_eq_none (h : holdsStatements (.node k s cs) = false) :
    ownStatements (.node k s cs) = none := by
  unfold holdsStatements at h
  split at h
  · cases h
  · rename_i heq
    cases heq
    unfold ownStatements
    split <;> simp_all
  · rename_i hne
    exact absurd rfl (hne _ _ _)

theorem mem_statementLists_node {ss : List Ast} (h : holdsStatements (.node k s cs) = false) :
    ss ∈ statementLists (.node k s cs) ↔ ∃ t ∈ cs, ss ∈ statementLists t := by
  rw [statementLists, ownStatements_eq_none h, Option.toList_none, List.nil_append,
    mem_statementListsAll]

/-! ### Parts of functions -/

/-- The second tree stands in the first one, but in no list of statements and no carrier of it. -/
inductive Beneath : Ast → Ast → Prop
  | child {k : Kind} {s : Span} {cs : List Ast} {u : Ast} :
    holdsStatements (.node k s cs) = false → isCarrier k = false → u ∈ cs →
    Beneath (.node k s cs) u
  | item {ts : List Ast} {u : Ast} : u ∈ ts → Beneath (.list ts) u
  | trans {t u v : Ast} : Beneath t u → Beneath u v → Beneath t v

/-- A part of a function, as it was read and as it was converted. -/
structure Part where
  /-- What takes the place of the function still has the part. -/
  isKept : Bool
  before : Ast
  after : Ast
  trace : Trace

/-- One trace after the other. -/
def Part.traces : List Part → Trace
  | [] => {}
  | x :: xs => x.trace ++ traces xs

theorem Part.traces_append (xs ys : List Part) :
    Part.traces (xs ++ ys) = Part.traces xs ++ Part.traces ys := by
  induction xs with
  | nil => simp [traces]
  | cons x xs ih => simp [traces, ih, Trace.append_def]

/-- Parts of a function, some of which are lost. -/
structure PartsOf (job : Job) (t : Ast) (lost : List Ast) (parts : List Part) (tr : Trace) : Prop where
  traces : tr = Part.traces parts
  becomes : ∀ x ∈ parts, Becomes job .plain x.before x.after x.trace
  beneath : ∀ x ∈ parts, Beneath t x.before
  lost : ∀ x ∈ parts, x.isKept = false → x.before ∈ lost

/-- The parts of a function that a plain function has no room for. -/
def lostOf : Ast → List Ast
  | .node (.function _ _) _ (.list ps :: d :: _ :: rest) => d :: ps.map (·.child 0) ++ rest
  | _ => []

/-- The parts of a node that are lost when its function gives way to a wrapper. -/
def lostHere : Ast → List Ast
  | .node .funcExpr _ [name, f] => name :: lostOf f
  | .node .method _ [_, f] => lostOf f
  | .node (.classMethod .method _) _ [_, f] => lostOf f
  | .node (.arrow _) _ (_ :: _ :: rest) => rest
  | .node .exportDefaultDecl _ [.node .funcExpr _ [.absent, f]] => lostOf f
  | _ => []

/-- What the parts that are kept became. -/
def Part.kept (parts : List Part) : List Ast :=
  (parts.filter (·.isKept)).map (·.after)

theorem Part.kept_append (xs ys : List Part) :
    Part.kept (xs ++ ys) = Part.kept xs ++ Part.kept ys := by
  simp [kept]

variable {kind : FunctionKind} {name : Option String} {c : Candidate}

section Parts

variable {job : Job} {w : Slot} {t u f f' : Ast} {tr tr' : Trace} {gone : List Ast}
  {xs ys : List Part}

namespace PartsOf

theorem nil : PartsOf job t gone [] {} :=
  ⟨rfl, by simp, by simp, by simp⟩

theorem cons (hu : Becomes job .plain u u' tr) (ht : Beneath t u) (hl : b = false → u ∈ gone)
    (h : PartsOf job t gone xs tr') :
    PartsOf job t gone (⟨b, u, u', tr⟩ :: xs) (tr ++ tr') where
  traces := by rw [h.traces, Part.traces]
  becomes := by
    simp only [List.mem_cons, forall_eq_or_imp]
    exact ⟨hu, h.becomes⟩
  beneath := by
    simp only [List.mem_cons, forall_eq_or_imp]
    exact ⟨ht, h.beneath⟩
  lost := by
    simp only [List.mem_cons, forall_eq_or_imp]
    exact ⟨hl, h.lost⟩

theorem single (hu : Becomes job .plain u u' tr) (ht : Beneath t u) (hl : b = false → u ∈ gone) :
    PartsOf job t gone [⟨b, u, u', tr⟩] tr := by
  simpa using cons hu ht hl .nil

theorem append (h : PartsOf job t gone xs tr) (h' : PartsOf job t gone ys tr') :
    PartsOf job t gone (xs ++ ys) (tr ++ tr') where
  traces := by rw [h.traces, h'.traces, Part.traces_append]
  becomes x hx := (List.mem_append.1 hx).elim (h.becomes x) (h'.becomes x)
  beneath x hx := (List.mem_append.1 hx).elim (h.beneath x) (h'.beneath x)
  lost x hx := (List.mem_append.1 hx).elim (h.lost x) (h'.lost x)

end PartsOf

theorem BecomesAll.parts : ∀ {ts ts' : List Ast} {tr : Trace} (b : Bool),
    BecomesAll job (fun _ => .plain) ts ts' tr → (∀ u ∈ ts, Beneath t u) →
    (b = false → ∀ u ∈ ts, u ∈ gone) →
    ∃ xs, PartsOf job t gone xs tr ∧ Part.kept xs = if b then ts' else []
  | _, _, _, b, .nil, _, _ => ⟨[], .nil, by simp [Part.kept]⟩
  | _, _, _, b, @BecomesAll.cons _ _ u u' _ _ tr _ _ h hs hall, ht, hl => by
    obtain ⟨xs, hxs, hkept⟩ := hs.parts b (fun v hv => ht v (List.mem_cons_of_mem _ hv))
      fun hb v hv => hl hb v (List.mem_cons_of_mem _ hv)
    refine ⟨⟨b, u, u', tr⟩ :: xs, hall ▸ .cons h (ht u List.mem_cons_self)
      (fun hb => hl hb u List.mem_cons_self) hxs, ?_⟩
    cases b <;> simp_all [Part.kept]

theorem LiftsParams.parts (h : LiftsParams job ps ps' qs tr) (b : Bool) (ht : ∀ q ∈ ps, Beneath t q)
    (hl : b = false → ∀ q ∈ ps, q.child 0 ∈ gone) :
    ∃ xs, PartsOf job t gone xs tr ∧
      Part.kept xs = if b then ps'.flatMap (·.children) else qs := by
  induction h with
  | nil => exact ⟨[], .nil, by cases b <;> rfl⟩
  | @cons s d d' q q' ps ps' qs trd trq tr _ hd hq _ hall ih =>
    obtain ⟨xs, hxs, hkept⟩ := ih (fun v hv => ht v (List.mem_cons_of_mem _ hv))
      fun hb v hv => hl hb v (List.mem_cons_of_mem _ hv)
    have hparam := ht _ List.mem_cons_self
    have hbelow : ∀ v ∈ [d, q], Beneath t v := fun v hv => hparam.trans (.child rfl rfl hv)
    subst hall
    refine ⟨⟨b, d, d', trd⟩ :: ⟨true, q, q', trq⟩ :: xs, ?_, ?_⟩
    · have := PartsOf.cons (b := b) hd (hbelow d (by simp)) (fun hb => hl hb _ List.mem_cons_self)
        (.cons (b := true) hq (hbelow q (by simp)) nofun hxs)
      simpa [Trace.append_def] using this
    · cases b <;> simp_all [Part.kept, Ast.children]

theorem LiftsParams.mem_lists (h : LiftsParams job ps ps' qs tr) (ss : List Ast) :
    ss ∈ statementListsAll ps' ↔ ss ∈ statementListsAll (ps'.flatMap (·.children)) := by
  induction h with
  | nil => simp [statementListsAll]
  | cons _ _ _ _ ih =>
    simp [statementListsAll, statementLists, ownStatements, isStatementList, Ast.children, ih]

theorem LiftsParams.mem_children (h : LiftsParams job ps ps' qs tr) :
    ∀ q ∈ qs, q ∈ ps'.flatMap (·.children) := by
  induction h with
  | nil => simp
  | cons _ _ _ _ ih =>
    intro q hq
    rcases List.mem_cons.1 hq with rfl | hq
    · simp [Ast.children]
    · rw [List.flatMap_cons]
      exact List.mem_append_right _ (ih q hq)

/-- The parts of a function: all are kept, or the patterns of the parameters and the body. -/
theorem Lifts.parts (h : Lifts job kind name f f' c tr) (b : Bool) (ht : Beneath t f)
    (hl : b = false → ∀ u ∈ lostOf f, u ∈ gone) :
    ∃ xs, PartsOf job t gone xs tr ∧
      if b then ∃ a g s ps' d' rest', f' = .node (.function a g) s (.list ps' :: d' :: c.body :: rest') ∧
        (∀ ss, ss ∈ statementListsAll ps' ↔ ss ∈ statementListsAll (ps'.flatMap (·.children))) ∧
        (∀ q ∈ c.params, q ∈ ps'.flatMap (·.children)) ∧
        Part.kept xs = ps'.flatMap (·.children) ++ (d' :: c.body :: rest')
      else Part.kept xs = c.params ++ [c.body] := by
  obtain ⟨hps, hd, hbody, hrest, -, rfl⟩ := h
  rename_i a g s d d' body body' ps ps' qs rest rest' trp trd trb trr
  have hbelow : ∀ v ∈ .list ps :: d :: body :: rest, Beneath t v :=
    fun v hv => ht.trans (.child rfl rfl hv)
  have hdecorators : b = false → ∀ q ∈ ps, q.child 0 ∈ gone := by
    intro hb q hq
    refine hl hb _ ?_
    simp only [lostOf, List.cons_append, List.mem_cons, List.mem_append, List.mem_map]
    exact .inr (.inl ⟨q, hq, rfl⟩)
  have htypes : b = false → ∀ u ∈ rest, u ∈ gone := fun hb u hu => hl hb u (by simp [lostOf, hu])
  obtain ⟨xs, hxs, hkept⟩ := hps.parts b (fun v hv => (hbelow _ (by simp)).trans (.item hv)) hdecorators
  obtain ⟨ys, hys, hkept'⟩ := hrest.parts b (fun v hv => hbelow v (by simp [hv])) htypes
  refine ⟨xs ++ (⟨b, d, d', trd⟩ :: ⟨true, body, body', trb⟩ :: ys), ?_, ?_⟩
  · refine .append hxs (.cons hd (hbelow d (by simp)) (fun hb => hl hb d (by simp [lostOf])) ?_)
    exact .cons hbody (hbelow body (by simp)) (by simp) hys
  · rw [Part.kept_append, hkept]
    cases b with
    | true =>
      exact ⟨a, g, s, ps', d', rest', rfl, hps.mem_lists, hps.mem_children,
        by simpa [Part.kept] using hkept'⟩
    | false => simpa [Part.kept] using hkept'

end Parts

/-! ### Lists in made code -/

/-- What the function of a prepared candidate is bound to inside its wrapper. -/
def Prepared.binding (p : Prepared) : String :=
  ((selfName? p.candidate).toList.foldl UsedNames.insert
    (UsedNames.ofTree p.candidate.toFunction)).freshName canonicalName

/-- The statements that make the function of a prepared candidate. -/
def Prepared.factory (p : Prepared) : List Ast :=
  madeVar .const p.binding
      (madeFunctionExpr (madeIdent ((selfName? p.candidate).getD p.binding)) p.candidate.toFunction) ::
    metadataStmts p.binding p.metadata ++ [madeReturn (madeIdent p.binding)]

theorem statementListsAll_append (ts us : List Ast) :
    statementListsAll (ts ++ us) = statementListsAll ts ++ statementListsAll us :=
  Joins.append ⟨rfl, fun _ _ => rfl⟩ _ _

theorem statementListsAll_eq_nil (h : ∀ t ∈ ts, statementLists t = []) :
    statementListsAll ts = [] :=
  Joins.eq_nil ⟨rfl, fun _ _ => rfl⟩ h

theorem statementListsAll_metadataStmts (target : String) (m : Metadata) :
    statementListsAll (metadataStmts target m) = [] := by
  have hnames : statementListsAll (m.closure.map madeIdent) = [] :=
    statementListsAll_eq_nil (by simp [madeIdent, made, statementLists, statementListsAll,
      ownStatements, isStatementList])
  simp [metadataStmts, assignProperty, madeStatement, madeAssign, madeMember, made, madeString,
    madeNumber, statementListsAll, statementLists, ownStatements, isStatementList, hnames]
  simp [madeIdent, made, statementListsAll, statementLists, ownStatements, isStatementList]

theorem statementListsAll_madeParams (ps : List Ast) :
    statementListsAll (ps.map madeParam) = statementListsAll ps := by
  induction ps with
  | nil => rfl
  | cons p ps ih =>
    simp [madeParam, made, statementListsAll, statementLists, ownStatements, isStatementList] at ih ⊢
    exact ih

theorem statementLists_wrapper (p : Prepared) :
    statementLists p.wrapper =
      p.factory :: (statementListsAll p.candidate.params ++ statementLists p.candidate.body) := by
  change statementLists (wrap p.candidate.toFunction p.binding (selfName? p.candidate) p.metadata) = _
  simp [wrap, Prepared.factory, Candidate.toFunction, Candidate.paramList, madeFunction, madeCall,
    madeParen, madeFunctionExpr, madeVar, madeReturn, madeBinding, madeBlock, madeIdent, made,
    statementLists, statementListsAll, statementListsAll_append, statementListsAll_metadataStmts,
    statementListsAll_madeParams, ownStatements, isStatementList]

theorem statementLists_delegate (wrapper : Ast) (cache : Option String) :
    ∃ r, statementLists (delegate wrapper cache) = [madeReturn r] :: statementLists wrapper := by
  have hblock : ∀ r, statementLists (madeBlock [madeReturn r]) = [madeReturn r] :: statementLists r := by
    intro r
    simp [madeBlock, madeReturn, made, statementLists, statementListsAll, ownStatements, isStatementList]
  simp only [delegate, hblock]
  refine ⟨_, congrArg _ ?_⟩
  cases cache <;>
    simp [madeCall, madeMember, madeParen, madeAssign, madeBinding, madeIdent, made, statementLists,
      statementListsAll, ownStatements, isStatementList]

/-- A list of statements, perhaps without a marker at its head. -/
def Loses (marker : String) (ss ss' : List Ast) : Prop :=
  ss' = ss ∨ ∃ d, isDirective marker d = true ∧ ss = d :: ss'

theorem statementLists_directive {marker : String} {d : Ast} (h : isDirective marker d = true) :
    statementLists d = [] := by
  unfold isDirective at h
  split at h
  · simp [statementLists, statementListsAll, ownStatements, isStatementList]
  · cases h

/-- A body that loses its marker keeps its lists of statements, but for the marker. -/
theorem loses_stripDirective (marker : String) (t : Ast) :
    (∀ ss' ∈ statementLists (stripDirective marker t), ∃ ss ∈ statementLists t, Loses marker ss ss') ∧
      ∀ ss ∈ statementLists t, ∃ ss' ∈ statementLists (stripDirective marker t), Loses marker ss ss' := by
  unfold stripDirective
  split
  · split
    · rename_i s first rest h
      have hlists : ∀ ss : List Ast, statementLists (.node .block s ss) = ss :: statementListsAll ss :=
        fun _ => rfl
      rw [hlists, hlists, statementListsAll, statementLists_directive h, List.nil_append]
      constructor
      · intro ss' hss'
        rcases List.mem_cons.1 hss' with rfl | hss'
        · exact ⟨first :: ss', List.mem_cons_self, .inr ⟨first, h, rfl⟩⟩
        · exact ⟨ss', List.mem_cons_of_mem _ hss', .inl rfl⟩
      · intro ss hss
        rcases List.mem_cons.1 hss with rfl | hss
        · exact ⟨rest, List.mem_cons_self, .inr ⟨first, h, rfl⟩⟩
        · exact ⟨ss, List.mem_cons_of_mem _ hss, .inl rfl⟩
    · exact ⟨fun ss hss => ⟨ss, hss, .inl rfl⟩, fun ss hss => ⟨ss, hss, .inl rfl⟩⟩
  · exact ⟨fun ss hss => ⟨ss, hss, .inl rfl⟩, fun ss hss => ⟨ss, hss, .inl rfl⟩⟩

theorem statementLists_unparen (t : Ast) : statementLists t.unparen = statementLists t := by
  fun_induction Ast.unparen t with
  | case1 s e ih =>
    rw [ih]
    simp [statementLists, statementListsAll, ownStatements, isStatementList]
  | case2 t h => rfl

/-- The block of an arrow has the lists of the arrow's body, and one more for an expression. -/
theorem statementLists_arrowBody (t : Ast) :
    statementLists (Candidate.arrowBody t) = statementLists t ∨
      ∃ s e, statementLists (Candidate.arrowBody t) = [.node .returnStmt s [e]] :: statementLists t := by
  unfold Candidate.arrowBody
  split
  · exact .inl rfl
  · refine .inr ⟨t.span, t.unparen, ?_⟩
    simp [statementLists, statementListsAll, ownStatements, isStatementList, statementLists_unparen]

/-! ### Lists in what takes the place of a function -/

/-- The list was made for a function: it makes the function, or only returns something. -/
def IsMadeList (p : Prepared) (ss : List Ast) : Prop :=
  ss = p.factory ∨ ∃ s e, ss = [.node .returnStmt s [e]]

/-- The lists of a tree are made for a function, or those of other trees, perhaps without a marker. -/
structure KeepsLists (marker : String) (p : Prepared) (ts : List Ast) (t : Ast) : Prop where
  origin : ∀ ss' ∈ statementLists t, IsMadeList p ss' ∨ ∃ ss ∈ statementListsAll ts, Loses marker ss ss'
  stays : ∀ ss ∈ statementListsAll ts, ∃ ss' ∈ statementLists t, Loses marker ss ss'

section Lists

variable {job : Job} {w : Slot} {t : Ast} {tr : Trace} {p : Prepared} {marker : String}

/-- The lists of other trees stay beside. -/
theorem KeepsLists.beside {t' : Ast} (h : KeepsLists marker p ts t) (us : List Ast)
    (heq : ∀ ss, ss ∈ statementLists t' ↔ ss ∈ statementListsAll us ∨ ss ∈ statementLists t)
    {vs : List Ast} (hvs : ∀ v, v ∈ vs ↔ v ∈ us ∨ v ∈ ts) : KeepsLists marker p vs t' := by
  have hmem : ∀ ss, ss ∈ statementListsAll vs ↔ ss ∈ statementListsAll us ∨ ss ∈ statementListsAll ts := by
    intro ss
    simp only [mem_statementListsAll, hvs, or_and_right, exists_or]
  refine ⟨fun ss' hss' => ?_, fun ss hss => ?_⟩
  · rcases (heq ss').1 hss' with hss' | hss'
    · exact .inr ⟨ss', (hmem ss').2 (.inl hss'), .inl rfl⟩
    · refine (h.origin ss' hss').imp_right ?_
      rintro ⟨ss, hss, hl⟩
      exact ⟨ss, (hmem ss).2 (.inr hss), hl⟩
  · rcases (hmem ss).1 hss with hss | hss
    · exact ⟨ss, (heq ss).2 (.inl hss), .inl rfl⟩
    · obtain ⟨ss', hss', hl⟩ := h.stays ss hss
      exact ⟨ss', (heq ss').2 (.inr hss'), hl⟩

theorem keepsLists_wrapper (hp : job.prepare c = .ok p) :
    KeepsLists job.config.marker p (c.params ++ [c.body]) p.wrapper := by
  have hc : p.candidate = c.unmarked job.config.marker := (Job.prepare_eq_ok hp).1
  have hbody := loses_stripDirective job.config.marker c.body
  constructor
  · intro ss' hss'
    rw [statementLists_wrapper, hc] at hss'
    simp only [Candidate.unmarked, List.mem_cons, List.mem_append] at hss'
    rcases hss' with rfl | hss' | hss'
    · exact .inl (.inl rfl)
    · exact .inr ⟨ss', by simp [statementListsAll_append, hss'], .inl rfl⟩
    · obtain ⟨ss, hss, hl⟩ := hbody.1 ss' hss'
      exact .inr ⟨ss, by simp [statementListsAll_append, statementListsAll, hss], hl⟩
  · intro ss hss
    rw [statementListsAll_append, statementListsAll, statementListsAll, List.append_nil,
      List.mem_append] at hss
    rw [statementLists_wrapper, hc]
    rcases hss with hss | hss
    · exact ⟨ss, by simp [Candidate.unmarked, hss], .inl rfl⟩
    · obtain ⟨ss', hss', hl⟩ := hbody.2 ss hss
      exact ⟨ss', by simp [Candidate.unmarked, hss'], hl⟩

/-- An accessor that hands over has the lists of its function. -/
theorem keepsLists_delegate (hp : job.prepare c = .ok p) (cache : Option String) :
    KeepsLists job.config.marker p (c.params ++ [c.body]) (delegate p.wrapper cache) := by
  obtain ⟨r, hr⟩ := statementLists_delegate p.wrapper cache
  have hw := keepsLists_wrapper hp
  refine ⟨fun ss' hss' => ?_, fun ss hss => ?_⟩
  · rw [hr, List.mem_cons] at hss'
    rcases hss' with rfl | hss'
    · exact .inl (.inr ⟨_, _, rfl⟩)
    · exact hw.origin ss' hss'
  · obtain ⟨ss', hss', hl⟩ := hw.stays ss hss
    exact ⟨ss', by rw [hr]; exact List.mem_cons_of_mem _ hss', hl⟩

theorem keepsLists_unmarked (hp : job.prepare c = .ok p) :
    KeepsLists job.config.marker p [c.body] p.candidate.body := by
  rw [(Job.prepare_eq_ok hp).1]
  have hbody := loses_stripDirective job.config.marker c.body
  refine ⟨fun ss' hss' => .inr ?_, fun ss hss => hbody.2 ss (by simpa [statementListsAll] using hss)⟩
  obtain ⟨ss, hss, hl⟩ := hbody.1 ss' hss'
  exact ⟨ss, by simpa [statementListsAll] using hss, hl⟩

/-- A wrapped arrow has the lists of the arrow's body. -/
theorem KeepsLists.of_arrow {body : Ast}
    (h : KeepsLists marker p (ps ++ [Candidate.arrowBody body]) t) :
    KeepsLists marker p (ps ++ [body]) t := by
  have hreturn : ∀ (s : Span) (e : Ast) (ss' : List Ast),
      Loses marker [.node .returnStmt s [e]] ss' → ss' = [.node .returnStmt s [e]] := by
    rintro s e ss' (h | ⟨d, hd, heq⟩)
    · exact h
    · cases heq
      cases hd
  have hmem : ∀ ss, ss ∈ statementListsAll (ps ++ [body]) ↔
      ss ∈ statementListsAll ps ∨ ss ∈ statementLists body := by
    simp [statementListsAll_append, statementListsAll]
  have hmem' : ∀ ss, ss ∈ statementListsAll (ps ++ [Candidate.arrowBody body]) ↔
      ss ∈ statementListsAll ps ∨ ss ∈ statementLists (Candidate.arrowBody body) := by
    simp [statementListsAll_append, statementListsAll]
  rcases statementLists_arrowBody body with heq | ⟨s, e, heq⟩
  · simp only [heq] at hmem'
    exact ⟨fun ss' hss' => (h.origin ss' hss').imp_right fun ⟨ss, hss, hl⟩ =>
      ⟨ss, (hmem ss).2 ((hmem' ss).1 hss), hl⟩, fun ss hss => h.stays ss ((hmem' ss).2 ((hmem ss).1 hss))⟩
  · simp only [heq, List.mem_cons] at hmem'
    refine ⟨fun ss' hss' => ?_, fun ss hss => h.stays ss ((hmem' ss).2 ?_)⟩
    · rcases h.origin ss' hss' with hmade | ⟨ss, hss, hl⟩
      · exact .inl hmade
      · rcases (hmem' ss).1 hss with hss | rfl | hss
        · exact .inr ⟨ss, (hmem ss).2 (.inl hss), hl⟩
        · exact .inl (.inr ⟨s, e, hreturn s e ss' hl⟩)
        · exact .inr ⟨ss, (hmem ss).2 (.inr hss), hl⟩
    · exact ((hmem ss).1 hss).imp_right .inr

theorem factory_mem_wrapper (p : Prepared) : p.factory ∈ statementLists p.wrapper := by
  rw [statementLists_wrapper]
  exact List.mem_cons_self

theorem factory_mem_delegate (p : Prepared) (cache : Option String) :
    p.factory ∈ statementLists (delegate p.wrapper cache) := by
  obtain ⟨r, hr⟩ := statementLists_delegate p.wrapper cache
  rw [hr]
  exact List.mem_cons_of_mem _ (factory_mem_wrapper p)

/-- The lists in the parts of a function, but for those that are lost, go on in a tree. -/
def Spreads (job : Job) (p : Prepared) (t : Ast) (gone : List Ast) (tr : Trace) (e : Ast) : Prop :=
  ∃ xs, PartsOf job t gone xs tr ∧ KeepsLists job.config.marker p (Part.kept xs) e

section Spreads

variable {u u' f f' e e' : Ast} {gone us us' : List Ast} {tru : Trace}

/-- One more part stands beside the others. -/
theorem Spreads.beside (h : Spreads job p t gone tr e) (hu : Becomes job .plain u u' tru)
    (ht : Beneath t u)
    (heq : ∀ ss, ss ∈ statementLists e' ↔ ss ∈ statementLists u' ∨ ss ∈ statementLists e) :
    Spreads job p t gone (tru ++ tr) e' := by
  obtain ⟨xs, hxs, hkeeps⟩ := h
  refine ⟨⟨true, u, u', tru⟩ :: xs, .cons hu ht nofun hxs, ?_⟩
  exact hkeeps.beside [u'] (by simpa [statementListsAll] using heq) (by simp [Part.kept])

theorem Lifts.spreads_wrapper (h : Lifts job kind name f f' c tr) (hp : job.prepare c = .ok p)
    (ht : Beneath t f) (hl : ∀ u ∈ lostOf f, u ∈ gone) : Spreads job p t gone tr p.wrapper := by
  obtain ⟨xs, hxs, hkept⟩ := h.parts false ht fun _ => hl
  simp only [Bool.false_eq_true, if_false] at hkept
  exact ⟨xs, hxs, hkept ▸ keepsLists_wrapper hp⟩

theorem Lifts.spreads_withBody (h : Lifts job kind name f f' c tr) (ht : Beneath t f) (qs : List Ast)
    (hqs : ∀ q ∈ qs, q ∈ c.params) (hbody : KeepsLists job.config.marker p (qs ++ [c.body]) e) :
    Spreads job p t gone tr (withBody e f') := by
  obtain ⟨xs, hxs, a, g, s, ps', d', rest', rfl, hlists, hparams, hkept⟩ :
      ∃ xs, PartsOf job t gone xs tr ∧ _ := h.parts true ht nofun
  refine ⟨xs, hxs, hbody.beside (ps'.flatMap (·.children) ++ d' :: rest') (fun ss => ?_) fun v => ?_⟩
  · rw [withBody, mem_statementLists_node rfl]
    simp only [List.mem_cons, exists_eq_or_imp, statementLists, hlists, statementListsAll_append,
      statementListsAll, List.mem_append, mem_statementListsAll]
    simp only [or_assoc, or_comm, or_left_comm]
  · rw [hkept]
    have hv := fun hv => hparams v (hqs v hv)
    simp only [List.mem_append, List.mem_cons, List.not_mem_nil, or_false]
    tauto

/-- The parts of an accessor of a literal, of which the last one is its body. -/
theorem BecomesAll.spreads (h : BecomesAll job (fun _ => .plain) us us' tr)
    (hu : Becomes job .plain u u' tru) {all : Trace} (hall : all = tr ++ tru)
    (ht : ∀ v ∈ us ++ [u], Beneath t v) (hqs : ∀ q ∈ qs, q ∈ us')
    (hbody : KeepsLists job.config.marker p (qs ++ [u']) e)
    (hl : holdsStatements (.node k s (us' ++ [e])) = false) :
    Spreads job p t gone all (.node k s (us' ++ [e])) := by
  obtain ⟨xs, hxs, hkept⟩ := h.parts true (fun v hv => ht v (by simp [hv])) nofun
  refine ⟨xs ++ [⟨true, u, u', tru⟩],
    hall ▸ .append hxs (.single (b := true) hu (ht u (by simp)) nofun), ?_⟩
  refine hbody.beside us' (fun ss => ?_) (fun v => ?_)
  · rw [mem_statementLists_node hl, mem_statementListsAll]
    simp [or_and_right, exists_or]
  · have hv := hqs v
    rw [Part.kept_append, hkept]
    simp only [Part.kept, if_true, List.filter_cons, List.filter_nil, List.map_cons, List.map_nil,
      List.mem_append, List.mem_singleton]
    tauto

end Spreads

theorem mem_statementLists_pair {v : Ast} (h : holdsStatements (.node k s [u', v]) = false)
    (ss : List Ast) :
    ss ∈ statementLists (.node k s [u', v]) ↔ ss ∈ statementLists u' ∨ ss ∈ statementLists v := by
  rw [mem_statementLists_node h]
  simp

theorem beneath_default {s fs : Span} {v : Ast} (h : v ∈ cs) :
    Beneath (.node .exportDefaultDecl s [.node .funcExpr fs cs]) v :=
  .trans (.child rfl rfl List.mem_cons_self) (.child rfl rfl h)

/-- **The lists of what takes the place of a function** are those of its parts, but for the parts that
are lost, and the list that makes the function. -/
theorem GivesWay.parts {f : Form} (h : GivesWay job w t f tr) (hp : f.subject.prepare job = .ok p)
    (cache : Option String) :
    Spreads job p t (lostHere t) tr (f.turned p cache) ∧
      (f.attached p = [] → p.factory ∈ statementLists (f.turned p cache)) := by
  have hwrapper := factory_mem_wrapper p
  have hdelegate := factory_mem_delegate p cache
  cases h with
  | @expression _ s name name' f f' c trn tr _ hname hf hall =>
    subst hall
    obtain ⟨xs, hxs, hkeeps⟩ := hf.spreads_wrapper (t := .node .funcExpr s [name, f]) hp
      (.child rfl rfl (by simp)) fun u hu => List.mem_cons_of_mem name hu
    refine ⟨⟨⟨false, name, name', trn⟩ :: xs, ?_, hkeeps⟩, fun _ => hwrapper⟩
    exact .cons hname (.child rfl rfl (by simp)) (fun _ => List.mem_cons_self) hxs
  | @arrow _ a s body body' ps ps' rest rest' trp trb trr _ hps hbody hrest hall =>
    have hbelow : ∀ v ∈ .list ps :: body :: rest,
        Beneath (.node (.arrow a) s (.list ps :: body :: rest)) v := fun v hv => .child rfl rfl hv
    obtain ⟨xs, hxs, hkept⟩ := hps.parts true (fun v hv => (hbelow _ (by simp)).trans (.item hv)) nofun
    obtain ⟨ys, hys, hkept'⟩ := hrest.parts false (fun v hv => hbelow v (by simp [hv])) fun _ v hv => hv
    refine ⟨⟨xs ++ ⟨true, body, body', trb⟩ :: ys, ?_, ?_⟩, fun _ => hwrapper⟩
    · exact hall ▸ .append hxs (.cons hbody (hbelow body (by simp)) nofun hys)
    · have hall : Part.kept (xs ++ ⟨true, body, body', trb⟩ :: ys) = ps' ++ [body'] := by
        rw [Part.kept_append, hkept]
        simpa [Part.kept] using hkept'
      rw [hall]
      exact (keepsLists_wrapper hp).of_arrow
  | declaration hname _ hf hall =>
    exact ⟨hall ▸ .beside (hf.spreads_withBody (.child rfl rfl (by simp)) [] (by simp)
      (keepsLists_unmarked hp)) hname (.child rfl rfl (by simp)) (mem_statementLists_pair rfl), nofun⟩
  | method hkey hf hall =>
    refine ⟨hall ▸ .beside (hf.spreads_wrapper hp (.child rfl rfl (by simp)) fun u hu => hu) hkey
      (.child rfl rfl (by simp)) (mem_statementLists_pair rfl), fun _ => ?_⟩
    exact (mem_statementLists_node rfl).2 ⟨_, by simp, hwrapper⟩
  | @getter _ s key key' type type' body body' trk trt trb _ hkey htype hbody hb hall =>
    have hparts : BecomesAll job (fun _ => .plain) [key, type] [key', type'] (trk ++ trt) :=
      .cons hkey (.cons htype .nil rfl) (by simp)
    refine ⟨?_, fun _ => (mem_statementLists_node rfl).2 ⟨_, by simp, hdelegate⟩⟩
    exact hparts.spreads hbody (hall.trans (by simp [Trace.append_def])) (fun v hv => .child rfl rfl hv)
      (by simp) (keepsLists_delegate hp cache) rfl
  | @setter _ s key key' this this' param param' body body' trk trt trp trb _ hkey hthis hq hbody hb
      hall =>
    have hparts : BecomesAll job (fun _ => .plain) [key, this, param] [key', this', param']
        (trk ++ (trt ++ trp)) := .cons hkey (.cons hthis (.cons hq .nil rfl) rfl) (by simp)
    refine ⟨?_, fun _ => (mem_statementLists_node rfl).2 ⟨_, by simp, hdelegate⟩⟩
    exact hparts.spreads hbody (hall.trans (by simp [Trace.append_def])) (fun v hv => .child rfl rfl hv)
      (by simp) (keepsLists_delegate hp cache) rfl
  | classMethod hkey hf hall =>
    refine ⟨hall ▸ .beside (hf.spreads_wrapper hp (.child rfl rfl (by simp)) fun u hu => hu) hkey
      (.child rfl rfl (by simp)) fun ss => ?_, fun _ => ?_⟩
    · rw [Form.wrapped, mem_statementLists_node rfl]
      simp [statementLists, statementListsAll]
    · exact (mem_statementLists_node rfl).2 ⟨_, by simp, hwrapper⟩
  | classAccessor hm hkey hf hall =>
    refine ⟨hall ▸ .beside (hf.spreads_withBody (.child rfl rfl (by simp)) _ (fun _ hq => hq)
      (keepsLists_delegate hp cache)) hkey (.child rfl rfl (by simp)) (mem_statementLists_pair rfl),
      fun _ => (mem_statementLists_pair rfl _).2 (.inr ?_)⟩
    obtain ⟨-, -, -, -, -, -⟩ := hf
    exact (mem_statementLists_node rfl).2 ⟨_, by simp, hdelegate⟩
  | namedDefault hname _ hf hall =>
    refine ⟨hall ▸ .beside (hf.spreads_withBody (beneath_default (by simp)) [] (by simp)
      (keepsLists_unmarked hp)) hname (beneath_default (by simp)) fun ss => ?_, nofun⟩
    rw [Form.declared, mem_statementLists_node rfl]
    simpa using mem_statementLists_pair rfl ss
  | @namelessDefault _ _ name _ _ _ _ _ _ _ hname habsent hf hall =>
    cases name with
    | absent =>
      refine ⟨hall ▸ .beside (hf.spreads_wrapper hp (beneath_default (by simp)) fun u hu => hu) hname
        (beneath_default (by simp)) fun ss => ?_, fun _ => ?_⟩
      · cases hname
        rw [Form.wrapped, mem_statementLists_node rfl]
        simp [statementLists]
      · exact (mem_statementLists_node rfl).2 ⟨_, by simp, hwrapper⟩
    | _ => cases habsent

end Lists

end Worklet
