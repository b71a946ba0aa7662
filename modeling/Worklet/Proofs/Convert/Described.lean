import Worklet.Proofs.Convert.Alike
import Worklet.Proofs.Convert.Mentions
import Worklet.Proofs.Convert.Parts

/-!
# Metadata and the functions it describes

The statements that attach metadata stand in a list of statements, beside the function that their
target denotes there.

Principal result: `transform_describes` — every group belongs to a record and describes the function
that its target denotes, and every record has a group.
-/

set_option autoImplicit false

namespace Worklet

open Syntax

/-! ### Functions that a list of statements declares -/

/-- The function that a name denotes in a list of statements: what it is bound to as a constant, or
the last function that is declared with it. -/
inductive Denotes (ss : List Ast) (n : String) (f : Ast) : Prop
  | constant (name : Ast) : madeVar .const n (madeFunctionExpr name f) ∈ ss → Denotes ss n f
  | declared : ((declarationsAll ss).filter (·.1 == n)).getLast? = some (n, f) → Denotes ss n f

/-- The function is the one whose text and hash were recorded. -/
def Describes (target : Target) (e : Conversion) (f : Ast) : Prop :=
  ∃ c, Candidate.ofFunction e.prepared.candidate.kind e.prepared.candidate.name f = some c ∧
    e.record.canonical = canonicalText target c ∧ e.record.hash = workletHash e.record.canonical

/-- What a record says is attached. -/
def Record.metadata (r : Record) : Metadata :=
  ⟨r.closure, r.canonical, r.hash, r.location⟩

/-! ### Groups -/

/-- The statement was made and assigns something. -/
def isAttachment : Ast → Bool
  | .node .exprStmt s [.node (.assign _) _ _] => s.isMade
  | _ => false

/-- A list of statements, with groups that attach metadata among others. -/
inductive Attaches (P : String → Metadata → Prop) : List Ast → Prop
  | nil : Attaches P []
  | other {t : Ast} {ts : List Ast} : isAttachment t = false → Attaches P ts → Attaches P (t :: ts)
  | group {target : String} {m : Metadata} {ts : List Ast} :
    P target m → Attaches P ts → Attaches P (metadataStmts target m ++ ts)

variable {marker n : String} {ts cs ss : List Ast} {s : Span} {converted : List Span} {k : Kind}
  {kind : FunctionKind} {name : Option String} {f : Ast} {c : Candidate} {ds : List (String × Ast)}
  {entries : List Entry}

namespace Attaches

variable {P Q : String → Metadata → Prop}

theorem mono (h : Attaches P ss) (hPQ : ∀ n m, P n m → Q n m) : Attaches Q ss := by
  induction h with
  | nil => exact .nil
  | other ht _ ih => exact .other ht ih
  | group hP _ ih => exact .group (hPQ _ _ hP) ih

theorem append (h : Attaches P ss) (h' : Attaches P ts) : Attaches P (ss ++ ts) := by
  induction h with
  | nil => exact h'
  | other ht _ ih => exact .other ht ih
  | group hP _ ih =>
    rw [List.append_assoc]
    exact .group hP ih

theorem others (h : ∀ t ∈ ss, isAttachment t = false) : Attaches P ss := by
  induction ss with
  | nil => exact .nil
  | cons t ss ih =>
    exact .other (h t List.mem_cons_self) (ih fun t ht => h t (List.mem_cons_of_mem _ ht))

/-- A marker at the head of a list belongs to no group. -/
theorem tail {d : Ast} (h : Attaches P (d :: ss)) (hd : isDirective marker d = true) :
    Attaches P ss := by
  generalize hds : d :: ss = ds at h
  cases h with
  | nil => cases hds
  | other _ h =>
    cases hds
    exact h
  | group _ _ =>
    cases hds
    cases hd

/-- A group of four assignments is one of the groups of the list. -/
theorem mem {pre post : List Ast} {m : Metadata} (h : Attaches P ss)
    (heq : ss = pre ++ metadataStmts n m ++ post) :
    ∃ m', P n m' ∧ metadataStmts n m = metadataStmts n m' := by
  induction h generalizing pre with
  | nil => simp [metadataStmts] at heq
  | @other t ts ht _ ih =>
    cases pre with
    | nil =>
      simp only [metadataStmts, List.nil_append, List.cons_append, List.cons.injEq] at heq
      rw [heq.1] at ht
      cases ht
    | cons a pre =>
      simp only [List.cons_append, List.cons.injEq] at heq
      exact ih heq.2
  | @group n' m' ts hP _ ih =>
    rcases pre with _ | ⟨a, _ | ⟨b, _ | ⟨c, _ | ⟨d, pre⟩⟩⟩⟩
    case nil =>
      have hgroup : metadataStmts n m = metadataStmts n' m' :=
        (List.append_inj heq.symm (by simp [metadataStmts])).1
      have hn : n = n' := by
        simp only [metadataStmts, assignProperty, madeStatement, madeAssign, madeMember, madeIdent, made,
          List.cons.injEq, Ast.node.injEq, Kind.ident.injEq, true_and, and_true] at hgroup
        exact hgroup.2.1.1
      subst hn
      exact ⟨m', hP, hgroup⟩
    case cons.cons.cons.cons =>
      refine @ih pre ?_
      simp only [metadataStmts, List.cons_append, List.nil_append, List.cons.injEq] at heq
      simpa [metadataStmts] using heq.2.2.2.2
    all_goals
      -- The four assignments of a group name their properties in a fixed order.
      simp [metadataStmts, assignProperty, madeStatement, madeAssign, madeMember, made] at heq

end Attaches

/-! ### Functions that cannot be told apart, and functions that are lost -/

/-- Where functions stand after which others are declared with their names. -/
def shadowedIn : List (String × Ast) → List Span
  | [] => []
  | d :: ds => (if ds.any (·.1 == d.1) then [d.2.span] else []) ++ shadowedIn ds

/-- The statements of a node that have one scope: a switch has one for all its cases. -/
def scopeStatements : Ast → List Ast
  | .node .switchStmt _ [_, .list cases] => cases.flatMap (·.children.tail)
  | t => (ownStatements t).getD []

mutual

/-- Where declared functions stand whose names denote other functions, because these are declared
later or because what is declared where it stands is not seen in any list. The tree itself may be in a
list. -/
def unclear (owned : Bool) : Ast → List Span
  | .absent => []
  | .list ts => unclearAll false ts
  | .node .switchCase s (test :: ss) =>
    shadowedIn (declarationsAll (scopeStatements (.node .switchCase s (test :: ss)))) ++
      (unclear false test ++ unclearAll true ss)
  | .node k s cs =>
    shadowedIn (declarationsAll (scopeStatements (.node k s cs))) ++
      ((if owned then [] else (declaredFunction? (.node k s cs)).toList.map (·.2.span)) ++
        unclearAll (isStatementList k || isCarrier k && owned) cs)

def unclearAll (owned : Bool) : List Ast → List Span
  | [] => []
  | t :: ts => unclear owned t ++ unclearAll owned ts

end

/-! ### Names that are bound or assigned elsewhere -/

mutual

/-- The names in what is assigned to. The object of a member is not assigned. -/
def targetNames : Ast → List String
  | .absent => []
  | .list ts => targetNamesAll ts
  | .node (.ident n) _ _ => [n]
  | .node .member _ _ => []
  | .node _ _ cs => targetNamesAll cs

def targetNamesAll : List Ast → List String
  | [] => []
  | t :: ts => targetNames t ++ targetNamesAll ts

end

/-- The first part of the node is assigned to. -/
def assignsFirst : Kind → Bool
  | .assign _ | .update .. | .forIn | .forOf _ => true
  | _ => false

mutual

/-- The names that something in a tree assigns to. -/
def assignedNames : Ast → List String
  | .absent => []
  | .list ts => assignedNamesAll ts
  | .node k _ cs =>
    (if assignsFirst k then targetNames (cs.headD .absent) else []) ++ assignedNamesAll cs

def assignedNamesAll : List Ast → List String
  | [] => []
  | t :: ts => assignedNames t ++ assignedNamesAll ts

end

/-- The names that statements bind otherwise than by declaring functions. -/
def otherNames (ss : List Ast) : List String :=
  let facts := (ss.filter fun t => (declarations t).isEmpty).flatMap (Scoping.language.facts .refers)
  Outline.lexicalAll facts ++ Outline.hoistedAll facts

/-- Statements with a branch that need not run. -/
def isBranching : Kind → Bool
  | .ifStmt | .whileStmt | .doWhileStmt | .withStmt => true
  | _ => false

mutual

/-- Where declared functions stand whose names may denote something else: they are bound otherwise in
the same scope or assigned in it, or the function is declared in a branch. -/
def rebound : Ast → List Span
  | .absent => []
  | .list ts => reboundAll ts
  | .node k s cs =>
    let ss := scopeStatements (.node k s cs)
    let names := otherNames ss ++ assignedNames (.node k s cs)
    ((if isBranching k then declarationsAll cs else []) ++
      (declarationsAll ss).filter fun d => names.contains d.1).map (·.2.span) ++ reboundAll cs

def reboundAll : List Ast → List Span
  | [] => []
  | t :: ts => rebound t ++ reboundAll ts

end

/-- Where declared functions stand whose names need not denote them. -/
def doubtful (t : Ast) : List Span :=
  unclear false t ++ rebound t

/-- Where the function of a node stands. -/
def functionPlace : Ast → Span
  | .node .funcExpr _ [_, f] => f.span
  | .node (.funcDecl _) _ [_, f] => f.span
  | .node .method _ [_, f] => f.span
  | .node (.classMethod _ _) _ [_, f] => f.span
  | .node .exportDefaultDecl _ [.node .funcExpr _ [_, f]] => f.span
  | t => t.span

mutual

/-- Where functions stand that are lost with a part of a function, when the functions at some places are
converted. -/
def lostSpans (converted : List Span) : Ast → List Span
  | .absent => []
  | .list ts => lostSpansAll converted ts
  | .node k s cs =>
    (if converted.contains (functionPlace (.node k s cs)) then
      functionSpansAll (lostHere (.node k s cs)) else []) ++ lostSpansAll converted cs

def lostSpansAll (converted : List Span) : List Ast → List Span
  | [] => []
  | t :: ts => lostSpans converted t ++ lostSpansAll converted ts

end

section Beneath

variable {t u : Ast}

theorem mem_unclearAll {b : Bool} :
    s ∈ unclearAll b ts ↔ ∃ t ∈ ts, s ∈ unclear b t :=
  Joins.mem ⟨rfl, fun _ _ => rfl⟩

theorem mem_lostSpansAll :
    s ∈ lostSpansAll converted ts ↔ ∃ t ∈ ts, s ∈ lostSpans converted t :=
  Joins.mem ⟨rfl, fun _ _ => rfl⟩

theorem isStatementList_eq_false (h : holdsStatements (.node k s cs) = false) :
    isStatementList k = false := by
  revert h
  unfold holdsStatements
  split <;> simp_all

theorem unclear_node {b : Bool} (h : holdsStatements (.node k s cs) = false) :
    unclear b (.node k s cs) =
      shadowedIn (declarationsAll (scopeStatements (.node k s cs))) ++
      ((if b then [] else (declaredFunction? (.node k s cs)).toList.map (·.2.span)) ++
        unclearAll (isCarrier k && b) cs) := by
  have hk := isStatementList_eq_false h
  unfold unclear
  split
  · cases ‹_ = Ast.absent›
  · cases ‹_ = Ast.list _›
  · rename_i heq
    cases heq
    cases h
  · rename_i heq
    cases heq
    simp [hk]

theorem unclear_statements {b : Bool} (hk : isStatementList k = true) (s : Span) (cs : List Ast) :
    unclear b (.node k s cs) =
      shadowedIn (declarationsAll cs) ++
      ((if b then [] else (declaredFunction? (.node k s cs)).toList.map (·.2.span)) ++
        unclearAll true cs) := by
  cases k with
  | block | moduleBlock | module => rfl
  | _ => cases hk

/-- What is unclear in a tree is so in what it stands in. -/
theorem Beneath.unclear (h : Beneath t u) (hs : s ∈ unclear false u) (b : Bool) :
    s ∈ Worklet.unclear b t := by
  induction h generalizing b with
  | child hl hk hu =>
    rw [unclear_node hl, hk]
    exact List.mem_append_right _ (List.mem_append_right _ (mem_unclearAll.2 ⟨_, hu, hs⟩))
  | item hu =>
    rw [Worklet.unclear]
    exact mem_unclearAll.2 ⟨_, hu, hs⟩
  | trans _ _ ih₁ ih₂ => exact ih₁ (ih₂ hs false) b

theorem Beneath.lostSpans (h : Beneath t u) (hs : s ∈ lostSpans converted u) :
    s ∈ Worklet.lostSpans converted t := by
  induction h with
  | child _ _ hu => exact List.mem_append_right _ (mem_lostSpansAll.2 ⟨_, hu, hs⟩)
  | item hu => exact mem_lostSpansAll.2 ⟨_, hu, hs⟩
  | trans _ _ ih₁ ih₂ => exact ih₁ (ih₂ hs)

theorem Beneath.statementLists (h : Beneath t u) (hs : ss ∈ statementLists u) :
    ss ∈ Worklet.statementLists t := by
  induction h with
  | child _ _ hu => exact List.mem_append_right _ (mem_statementListsAll.2 ⟨_, hu, hs⟩)
  | item hu => exact mem_statementListsAll.2 ⟨_, hu, hs⟩
  | trans _ _ ih₁ ih₂ => exact ih₁ (ih₂ hs)

theorem Beneath.sizeOf_lt (h : Beneath t u) : sizeOf u < sizeOf t := by
  induction h with
  | child _ _ hu => exact sizeOf_lt_of_mem_node hu
  | item hu => exact sizeOf_lt_of_mem_list hu
  | trans _ _ ih₁ ih₂ => omega

end Beneath

/-! ### What stays as it is -/

section Becomes

variable {job : Job} {w : Slot} {t t' : Ast} {tr : Trace}

theorem Becomes.identName?_eq (h : Becomes job w t t' tr) : t'.identName? = t.identName? :=
  (likeness_becomes job).identName?_eq ⟨w, tr, h⟩

theorem Becomes.span_mem (h : Becomes job w t t' tr) (e : Conversion)
    (he : .converted e ∈ tr.entries) : e.span ∈ functionSpans t := by
  obtain ⟨fates, hsites, hfits, hentries⟩ := h.yields
  obtain ⟨⟨site, fate⟩, hx, he⟩ := List.mem_flatMap.1 (hentries.mem_iff.1 he)
  cases hfits _ hx with
  | ignored _ => cases he
  | refused _ _ => cases (List.mem_replicate.1 he).2
  | converted hsubject _ _ hspan _ =>
    cases List.mem_singleton.1 he
    have hsite : site ∈ functionSites job.config.hooks w t := hsites ▸ List.mem_map_of_mem hx
    obtain ⟨r, hr⟩ := located_of_mem hsite hsubject .code
    rw [Conversion.span, hspan]
    exact (map_fst_regionsOf _ t).subset (List.mem_map_of_mem hr)

/-- No statement becomes one that attaches something. -/
theorem Becomes.isAttachment_eq_false (h : Becomes job w t t' tr) (ht : isAttachment t = false) :
    isAttachment t' = false := by
  unfold isAttachment
  split
  · rename_i s op s' cs
    obtain ⟨cs₁, tr₁, own, cache, rfl, hcs, -, -⟩ := h.of_node rfl rfl
    rcases hcs with _ | ⟨h, _ | _, -⟩
    obtain ⟨cs₂, tr₂, own', cache', rfl, -, -, -⟩ := h.of_node rfl rfl
    exact ht
  · rfl

/-- The name of a declared function, and where it stands. -/
def placed (d : String × Ast) : String × Span :=
  (d.1, d.2.span)

theorem namedFunction?_eq_none {name : Ast} (h : ∀ a g s cs, f ≠ .node (.function a g) s cs) :
    namedFunction? name f = none := by
  unfold namedFunction?
  split
  · exact absurd rfl (h _ _ _ _)
  · rfl

/-- A function of a name is one of the same name, in the same place, when its parts are converted. -/
theorem Becomes.named {w₁ w₂ : Slot} {name name' f' : Ast} {tr₁ tr₂ : Trace}
    (hn : Becomes job w₁ name name' tr₁) (hf : Becomes job w₂ f f' tr₂) :
    (namedFunction? name' f').map placed = (namedFunction? name f).map placed := by
  by_cases h : ∃ a g s cs, f = .node (.function a g) s cs
  · obtain ⟨a, g, s, cs, rfl⟩ := h
    rcases hf.node_or (k := .function a g) rfl rfl fun _ _ => rfl with
      ⟨_, _, cs', _, heq, rfl, -⟩ | ⟨hne, -⟩
    · cases heq
      simp [namedFunction?, hn.identName?_eq, Function.comp_def, placed, Ast.span]
    · exact absurd rfl (hne s cs)
  · push Not at h
    rw [namedFunction?_eq_none h, namedFunction?_eq_none]
    rintro a g s cs rfl
    rcases hf.node_or (k := .function a g) rfl rfl fun _ _ => rfl with
      ⟨s', cs', _, _, rfl, -, -⟩ | ⟨-, hne⟩
    · exact h a g s' cs' rfl
    · exact hne s cs rfl

theorem declaredFunction?_default (h : ∀ fs name f, cs ≠ [.node .funcExpr fs [name, f]]) :
    declaredFunction? (.node .exportDefaultDecl s cs) = none := by
  unfold declaredFunction?
  split
  · cases ‹_ = Ast.node (.funcDecl _) _ _›
  · rename_i heq
    cases heq
    exact absurd rfl (h _ _ _)
  · rfl

/-- A node declares the same name, for a function in the same place, when its parts are converted. -/
theorem BecomesAll.declares {cs' : List Ast}
    (h : BecomesAll job (job.config.hooks.childSlot w (.node k s cs)) cs cs' tr) :
    (declaredFunction? (.node k s cs')).map placed =
      (declaredFunction? (.node k s cs)).map placed := by
  by_cases hk : ∃ d, k = .funcDecl d
  · obtain ⟨d, rfl⟩ := hk
    rcases h with _ | ⟨hn, _ | ⟨hf, _ | ⟨hr, hrs, -⟩, -⟩, -⟩
    · rfl
    · rfl
    · exact hn.named hf
    · rfl
  by_cases hk' : k = .exportDefaultDecl
  · subst hk'
    by_cases hd : ∃ fs name f, cs = [.node .funcExpr fs [name, f]]
    · obtain ⟨fs, name, f, rfl⟩ := hd
      rcases h with _ | ⟨h, _ | _, -⟩
      rcases h.exported_or with ⟨_, _, cs₁', _, heq, rfl, hcs⟩ | ⟨hne, -⟩
      · cases heq
        rcases hcs with _ | ⟨hn, _ | ⟨hf, _ | _, -⟩, -⟩
        exact hn.named hf
      · exact absurd rfl (hne _ _)
    · push Not at hd
      rw [declaredFunction?_default hd, declaredFunction?_default]
      rintro fs name f rfl
      obtain ⟨cs₁, rfl, hcs⟩ := h.of_default
      rcases hcs with _ | ⟨hn, _ | ⟨hf, _ | _, -⟩, -⟩
      exact hd _ _ _ rfl
  · have hnone : ∀ cs, declaredFunction? (.node k s cs) = none := by
      intro cs
      unfold declaredFunction?
      split <;> simp_all
    rw [hnone, hnone]

theorem declarations_node (k : Kind) (s : Span) (cs : List Ast) :
    (declarations (.node k s cs)).map placed =
      match (declaredFunction? (.node k s cs)).map placed with
      | some d => [d]
      | none => if isCarrier k then (declarationsAll cs).map placed else [] := by
  rw [declarations]
  cases declaredFunction? (.node k s cs) with
  | some d => rfl
  | none =>
    simp only [Option.map_none]
    split <;> simp

theorem namedFunction?_withBody (name body f : Ast) :
    (namedFunction? name (withBody body f)).map placed = (namedFunction? name f).map placed := by
  unfold withBody
  split
  · simp [namedFunction?, Function.comp_def, placed, Ast.span]
  · rfl

/-- What takes the place of a function declares the same name, for a function in the same place. -/
theorem FormOf.declares {f : Form} (hf : FormOf w t f) (p : Prepared) (cache : Option String) :
    (declarations (f.turned p cache)).map placed = (declarations t).map placed := by
  cases hf with
  | declaration _ _ | namedDefault _ _ =>
    simp only [Form.declared, declarations_node, declaredFunction?, namedFunction?_withBody]
    rfl
  | @namelessDefault _ _ name g _ hname _ =>
    have hnone : namedFunction? name g = none := by
      cases name with
      | absent =>
        unfold namedFunction?
        split <;> rfl
      | _ => cases hname
    simp [declarations_node, declaredFunction?, hnone, isCarrier, Form.wrapped]
  | privateMethod _ | constructor =>
    simp [declaredFunction?, isCarrier, Form.unsupported, declarations]
  | expression _ _ | arrow _ | method _ | getter _ | setter _ | classMethod _ _ _
  | classAccessor _ _ _ =>
    simp [declarations_node, declaredFunction?, isCarrier, Form.wrapped, Form.accessor, made,
      Prepared.wrapper, wrap, madeCall]

/-- A tree declares the same names, for functions in the same places. -/
theorem Becomes.declarations_placed (h : Becomes job w t t' tr) :
    (declarations t').map placed = (declarations t).map placed := by
  refine Becomes.induct
    (P := fun _ t t' _ => (declarations t').map placed = (declarations t).map placed)
    (Q := fun _ ts ts' _ => (declarationsAll ts').map placed = (declarationsAll ts).map placed)
    (R := fun _ _ _ => True)
    ?absent ?list ?node ?statements ?switchCase ?nil ?cons ?none ?statement h
  case absent => exact fun _ => rfl
  case list => exact fun _ _ _ _ _ => rfl
  case node =>
    intro w k s cs cs' t' tr own cache _ hcs ht ih
    have hparts : (declarations (.node k s cs')).map placed =
        (declarations (.node k s cs)).map placed := by
      rw [declarations_node, declarations_node, hcs.declares, ih]
    rcases treat_cases ht with rfl | ⟨f, p, cache', hf, -, rfl⟩
    · exact hparts
    · exact ((FormOf.of_form? hf).declares p cache').trans hparts
  case statements =>
    intro w k s ss ss' entries hk _ _
    have hnone : ∀ ss, declarations (.node k s ss) = [] := by
      cases k with
      | block | moduleBlock | module =>
        simp [declarations, declaredFunction?, isCarrier]
      | _ => cases hk
    rw [hnone, hnone]
  case switchCase => exact fun _ _ _ _ _ _ _ _ _ _ _ _ => rfl
  case nil => exact fun _ => rfl
  case cons =>
    intro ws t t' ts ts' tr tr' _ _ ih ihs
    simp only [declarationsAll, List.map_append, ih, ihs]
  all_goals intros; trivial

end Becomes

/-! ### Functions as they are described -/

section Describes

variable {job : Job} {w : Slot} {t : Ast} {tr : Trace} {p : Prepared}

theorem canonicalText_congr {target : Target} {c' : Candidate} (h : c.toFunction = c'.toFunction) :
    canonicalText target c = canonicalText target c' := by
  unfold canonicalText canonicalModule
  rw [h]

theorem paramPatterns?_madeParam (ps : List Ast) : paramPatterns? (ps.map madeParam) = some ps := by
  induction ps with
  | nil => rfl
  | cons p ps ih => simp [madeParam, made, paramPatterns?] at ih ⊢; exact ih

theorem isAbsent_stripDirective (marker : String) (body : Ast) :
    (stripDirective marker body).isAbsent = body.isAbsent := by
  unfold stripDirective
  split
  · split <;> rfl
  · rfl

theorem prepare_span (hp : job.prepare c = .ok p) : p.candidate.span = c.span := by
  rw [(Job.prepare_eq_ok hp).1]
  rfl

/-- A function that is written as a prepared candidate has the text that was recorded. -/
theorem describes_of_toFunction {d : Candidate} (hp : job.prepare c = .ok p)
    (hf : Candidate.ofFunction p.candidate.kind p.candidate.name f = some d)
    (heq : d.toFunction = p.candidate.toFunction) (reason : Reason) (callable : Ast) :
    Describes job.config.target ⟨p, reason, callable⟩ f := by
  obtain ⟨-, htext, hhash⟩ := canonical_of_prepare hp
  refine ⟨d, hf, ?_, hhash⟩
  rw [canonicalText_congr heq, (Job.prepare_eq_ok hp).1]
  exact htext

/-- The function that a wrapper makes is the one that was recorded. -/
theorem describes_toFunction (hp : job.prepare c = .ok p) (hbody : c.body.isAbsent = false)
    (reason : Reason) (callable : Ast) :
    Describes job.config.target ⟨p, reason, callable⟩ p.candidate.toFunction := by
  have hb : p.candidate.body.isAbsent = false := by
    rw [(Job.prepare_eq_ok hp).1]
    exact (isAbsent_stripDirective _ _).trans hbody
  refine describes_of_toFunction hp (d := { p.candidate with span := .made }) ?_ rfl reason callable
  simp [Candidate.toFunction, madeFunction, made, Candidate.ofFunction, hb, Candidate.paramList,
    paramPatterns?_madeParam]

/-- A declared function that lost its marker is the one that was recorded. -/
theorem describes_withBody (hp : job.prepare c = .ok p)
    (hc : Candidate.ofFunction kind name f = some c) (reason : Reason) (callable : Ast) :
    Describes job.config.target ⟨p, reason, callable⟩ (withBody p.candidate.body f) := by
  have hcand := (Job.prepare_eq_ok hp).1
  refine describes_of_toFunction hp (d := p.candidate) ?_ rfl reason callable
  rw [hcand]
  obtain ⟨_, _, _, _, _, _, _, _, rfl, hbody, hps, rfl⟩ := Candidate.ofFunction_eq_some hc
  simp [withBody, Candidate.ofFunction, Candidate.unmarked, isAbsent_stripDirective, hbody, hps]

theorem LiftsParams.paramPatterns? {ps ps' qs : List Ast} (h : LiftsParams job ps ps' qs tr) :
    Worklet.paramPatterns? ps' = some qs := by
  induction h with
  | nil => rfl
  | cons _ _ _ _ ih => simp [Worklet.paramPatterns?, ih]

theorem Lifts.ofFunction {f' : Ast} (h : Lifts job kind name f f' c tr) :
    Candidate.ofFunction kind name f' = some c := by
  obtain ⟨hps, -, -, -, hbody, -⟩ := h
  simp [Candidate.ofFunction, hbody, hps.paramPatterns?]

theorem Lifts.body_isAbsent {f' : Ast} (h : Lifts job kind name f f' c tr) :
    c.body.isAbsent = false := by
  obtain ⟨-, -, -, -, hbody, -⟩ := h
  exact hbody

theorem isAbsent_arrowBody (t : Ast) : (Candidate.arrowBody t).isAbsent = false := by
  unfold Candidate.arrowBody
  split <;> rfl

/-- A function of a name stands where its candidate does, before and after. -/
theorem Lifts.named {x : Option String} {f' name name' : Ast} (h : Lifts job kind x f f' c tr)
    (hname : name.identName? = some n) (hname' : name'.identName? = some n) (body : Ast) :
    namedFunction? name f = some (n, f) ∧ f.span = c.span ∧
      namedFunction? name' (withBody body f') = some (n, withBody body f') ∧
      (withBody body f').span = c.span := by
  obtain ⟨-, -, -, -, -, -⟩ := h
  simp [namedFunction?, withBody, Ast.span, hname, hname']

/-- What is attached after a function that gives way: nothing, or a group for the function that its name
declares. -/
theorem GivesWay.attached {f : Form} (h : GivesWay job w t f tr) (hp : f.subject.prepare job = .ok p)
    (cache : Option String) (reason : Reason) :
    Describes job.config.target ⟨p, reason, f.callable p⟩ p.candidate.toFunction ∧
    (f.attached p = [] ∨
    ∃ n F, f.attached p = metadataStmts n p.metadata ∧ (n, F) ∈ declarations (f.turned p cache) ∧
      F.span = p.candidate.span ∧ p.candidate.span ∈ unclear false t ∧
      Describes job.config.target ⟨p, reason, f.callable p⟩ F) := by
  cases h with
  | expression _ hf _ | method _ hf _ | classMethod _ hf _ | classAccessor _ _ hf _
  | namelessDefault _ _ hf _ =>
    exact ⟨describes_toFunction hp hf.body_isAbsent _ _, .inl rfl⟩
  | arrow _ _ _ _ => exact ⟨describes_toFunction hp (isAbsent_arrowBody _) _ _, .inl rfl⟩
  | getter _ _ _ hbody _ | setter _ _ _ _ hbody _ =>
    exact ⟨describes_toFunction hp hbody _ _, .inl rfl⟩
  | @declaration _ _ _ name name' g g' n c _ _ _ hname hn hf _
  | @namedDefault _ _ name name' g g' n c _ _ _ hname hn hf _ =>
    obtain ⟨hbefore, hplace, hafter, hplace'⟩ :=
      hf.named (hname.identName?_eq.symm.trans hn) hn p.candidate.body
    refine ⟨describes_toFunction hp hf.body_isAbsent _ _, .inr ⟨n, withBody p.candidate.body g', rfl, ?_,
      hplace'.trans (prepare_span hp).symm, ?_, describes_withBody hp hf.ofFunction _ _⟩⟩
    · simp [Form.declared, declarations, declaredFunction?, hafter]
    · rw [unclear_node rfl]
      simp [declaredFunction?, hbefore, hplace, prepare_span hp]

theorem GivesWay.functionPlace {f : Form} (h : GivesWay job w t f tr)
    (hp : f.subject.prepare job = .ok p) : Worklet.functionPlace t = p.candidate.span := by
  cases h with
  | expression _ hf _ | method _ hf _ | classMethod _ hf _ | classAccessor _ _ hf _
  | namelessDefault _ _ hf _ | declaration _ _ hf _ | namedDefault _ _ hf _ =>
    obtain ⟨-, -, -, -, -, -⟩ := hf
    exact (prepare_span hp).symm
  | arrow _ _ _ _ | getter _ _ _ hbody _ | setter _ _ _ _ hbody _ => exact (prepare_span hp).symm

end Describes

/-! ### Groups and what they belong to -/

/-- The metadata are those of a conversion, and the name denotes its function in the list, unless names
are unclear where the function stands. -/
def Belongs (target : Target) (all : List Conversion) (exc : List Span) (ss : List Ast) (n : String)
    (m : Metadata) : Prop :=
  ∃ e ∈ all, m = e.record.metadata ∧
    (e.span ∉ exc → ∃ f, Denotes ss n f ∧ Describes target e f)

/-- The metadata are those of a conversion, and its function is declared with the name, unless names are
unclear where the function stands. -/
def Declares (target : Target) (all : List Conversion) (exc : List Span) (ds : List (String × Ast))
    (n : String) (m : Metadata) : Prop :=
  ∃ e ∈ all, m = e.record.metadata ∧
    (e.span ∉ exc → ∃ f, (n, f) ∈ ds ∧ f.span = e.span ∧ Describes target e f)

/-- The list has a group for the conversion. -/
def HasGroup (e : Conversion) (ss : List Ast) : Prop :=
  ∃ pre n post, ss = pre ++ metadataStmts n e.record.metadata ++ post

/-- Groups in lists of statements, and those that wait to be put after a statement which declares
functions. -/
structure Laid (target : Target) (all : List Conversion) (exc lost : List Span)
    (lists : List (List Ast)) (ds : List (String × Ast)) (tr : Trace) : Prop where
  groups : ∀ ss ∈ lists, Attaches (Belongs target all exc ss) ss
  queued : Attaches (Declares target all exc ds) tr.stmts
  simple : ∀ u ∈ tr.stmts, declarations u = [] ∧ statementLists u = []
  has : ∀ e, .converted e ∈ tr.entries →
    e.span ∈ lost ∨ HasGroup e tr.stmts ∨ ∃ ss ∈ lists, HasGroup e ss

section Laid

variable {target : Target} {all : List Conversion} {exc lost : List Span} {e : Conversion}
  {lists lists' : List (List Ast)} {ds' : List (String × Ast)} {tr tr' : Trace}

theorem HasGroup.append_left (h : HasGroup e ss) (ts : List Ast) : HasGroup e (ts ++ ss) := by
  obtain ⟨pre, n, post, rfl⟩ := h
  exact ⟨ts ++ pre, n, post, by simp⟩

theorem HasGroup.append_right (h : HasGroup e ss) (ts : List Ast) : HasGroup e (ss ++ ts) := by
  obtain ⟨pre, n, post, rfl⟩ := h
  exact ⟨pre, n, post ++ ts, by simp⟩

theorem Declares.mono {m : Metadata} (h : Declares target all exc ds n m) (hds : ∀ d ∈ ds, d ∈ ds') :
    Declares target all exc ds' n m := by
  obtain ⟨e, he, hm, h⟩ := h
  refine ⟨e, he, hm, fun hs => ?_⟩
  obtain ⟨f, hf, hspan, hdescribes⟩ := h hs
  exact ⟨f, hds _ hf, hspan, hdescribes⟩

namespace Laid

theorem nil : Laid target all exc lost [] [] {} :=
  ⟨by simp, .nil, by simp, by simp⟩

theorem append (h : Laid target all exc lost lists ds tr) (h' : Laid target all exc lost lists' ds' tr') :
    Laid target all exc lost (lists ++ lists') (ds ++ ds') (tr ++ tr') where
  groups ss hss := (List.mem_append.1 hss).elim (h.groups ss) (h'.groups ss)
  queued :=
    (h.queued.mono fun _ _ hd => hd.mono fun _ => List.mem_append_left _).append
      (h'.queued.mono fun _ _ hd => hd.mono fun _ => List.mem_append_right _)
  simple u hu := (List.mem_append.1 hu).elim (h.simple u) (h'.simple u)
  has e he := by
    rcases Trace.mem_entries_append.1 he with he | he
    · rcases h.has e he with hl | hg | ⟨ss, hss, hg⟩
      · exact .inl hl
      · exact .inr (.inl (hg.append_right _))
      · exact .inr (.inr ⟨ss, List.mem_append_left _ hss, hg⟩)
    · rcases h'.has e he with hl | hg | ⟨ss, hss, hg⟩
      · exact .inl hl
      · exact .inr (.inl (hg.append_left _))
      · exact .inr (.inr ⟨ss, List.mem_append_right _ hss, hg⟩)

theorem mono (h : Laid target all exc lost lists ds tr) (hlists : ∀ ss, ss ∈ lists' ↔ ss ∈ lists)
    (hds : ∀ d ∈ ds, d ∈ ds') : Laid target all exc lost lists' ds' tr where
  groups ss hss := h.groups ss ((hlists ss).1 hss)
  queued := h.queued.mono fun _ _ hd => hd.mono hds
  simple := h.simple
  has e he := (h.has e he).imp_right fun hg =>
    hg.imp_right fun ⟨ss, hss, hg⟩ => ⟨ss, (hlists ss).2 hss, hg⟩

/-- The parts of a function: what is in parts that are lost is lost. -/
theorem parts {xs : List Part} (h : ∀ x ∈ xs, Laid target all exc lost (statementLists x.after) [] x.trace)
    (hlost : ∀ x ∈ xs, x.isKept = false → ∀ e, .converted e ∈ x.trace.entries → e.span ∈ lost) :
    Laid target all exc lost (statementListsAll (Part.kept xs)) [] (Part.traces xs) := by
  induction xs with
  | nil => exact .nil
  | cons x xs ih =>
    have hx := h x List.mem_cons_self
    have hxs := ih (fun y hy => h y (List.mem_cons_of_mem _ hy))
      fun y hy => hlost y (List.mem_cons_of_mem _ hy)
    cases hk : x.isKept with
    | true => simpa [Part.kept, hk, statementListsAll, Part.traces] using hx.append hxs
    | false =>
      have hnone : Laid target all exc lost [] [] x.trace :=
        ⟨by simp, hx.queued, hx.simple, fun e he => .inl (hlost x List.mem_cons_self hk e he)⟩
      simpa [Part.kept, hk, Part.traces] using hnone.append hxs

end Laid

/-! ### Lists without their markers -/

theorem declarations_directive {d : Ast} (hd : isDirective marker d = true) :
    declarations d = [] := by
  unfold isDirective at hd
  split at hd
  · simp [declarations, declaredFunction?, isCarrier]
  · cases hd

theorem Denotes.loses (h : Denotes ss n f) (hl : Loses marker ss ts) :
    Denotes ts n f := by
  rcases hl with rfl | ⟨d, hd, rfl⟩
  · exact h
  · cases h with
    | constant name hmem =>
      refine .constant name ((List.mem_cons.1 hmem).resolve_left ?_)
      rintro rfl
      cases hd
    | declared h =>
      rw [declarationsAll, declarations_directive hd, List.nil_append] at h
      exact .declared h

theorem Attaches.loses (h : Attaches (Belongs target all exc ss) ss) (hl : Loses marker ss ts) :
    Attaches (Belongs target all exc ts) ts := by
  have hbelongs : ∀ n m, Belongs target all exc ss n m → Belongs target all exc ts n m := by
    rintro n m ⟨e, he, hm, h⟩
    refine ⟨e, he, hm, fun hs => ?_⟩
    obtain ⟨f, hf, hdescribes⟩ := h hs
    exact ⟨f, hf.loses hl, hdescribes⟩
  rcases hl with rfl | ⟨d, hd, rfl⟩
  · exact h
  · exact (h.tail hd).mono hbelongs

theorem HasGroup.loses (h : HasGroup e ss) (hl : Loses marker ss ts) :
    HasGroup e ts := by
  obtain ⟨pre, n, post, rfl⟩ := h
  rcases hl with rfl | ⟨d, hd, heq⟩
  · exact ⟨pre, n, post, rfl⟩
  · cases pre with
    | nil =>
      cases heq
      cases hd
    | cons a pre =>
      cases heq
      exact ⟨pre, n, post, rfl⟩

/-! ### What takes the place of a function -/

variable {job : Job} {w : Slot} {t t' : Ast} {p : Prepared}

/-- The list that makes a function has its group. -/
theorem attaches_factory (he : e ∈ all) (hp : e.prepared = p)
    (hd : Describes target e p.candidate.toFunction) :
    Attaches (Belongs target all exc p.factory) p.factory := by
  subst hp
  refine .other rfl (.group ⟨e, he, rfl, fun _ => ⟨_, .constant _ List.mem_cons_self, hd⟩⟩ ?_)
  exact .other rfl .nil

theorem hasGroup_factory (e : Conversion) : HasGroup e e.prepared.factory :=
  ⟨[_], _, [_], rfl⟩

theorem Laid.keeps (h : Laid target all exc lost (statementListsAll ts) ds tr)
    (hk : KeepsLists marker p ts t') (hp : Attaches (Belongs target all exc p.factory) p.factory) :
    Laid target all exc lost (statementLists t') ds tr where
  groups ss' hss' := by
    rcases hk.origin ss' hss' with (rfl | ⟨s, r, rfl⟩) | ⟨ss, hss, hl⟩
    · exact hp
    · exact .other rfl .nil
    · exact (h.groups ss hss).loses hl
  queued := h.queued
  simple := h.simple
  has e he := (h.has e he).imp_right fun hg => hg.imp_right fun ⟨ss, hss, hg⟩ =>
    let ⟨ss', hss', hl⟩ := hk.stays ss hss
    ⟨ss', hss', hg.loses hl⟩

theorem metadataStmts_simple (n : String) (m : Metadata) :
    ∀ u ∈ metadataStmts n m, declarations u = [] ∧ statementLists u = [] := by
  have hlists : ∀ u ∈ metadataStmts n m, statementLists u = [] := by
    intro u hu
    refine List.eq_nil_iff_forall_not_mem.2 fun ss hss => ?_
    have := mem_statementListsAll.2 ⟨u, hu, hss⟩
    rw [statementListsAll_metadataStmts] at this
    cases this
  refine fun u hu => ⟨?_, hlists u hu⟩
  simp only [metadataStmts, assignProperty, madeStatement, made, List.mem_cons, List.not_mem_nil,
    or_false] at hu
  rcases hu with rfl | rfl | rfl | rfl <;> simp [declarations, declaredFunction?, isCarrier]

end Laid

/-! ### Whole trees -/

/-- What a tree is assumed to be when it is converted: its conversions are among those of the run, the
exceptions hold what is unclear or lost in it, and none of its statements was made to attach
something. -/
structure Tracked (all : List Conversion) (exc lost : List Span) (owned : Bool) (t : Ast) (tr : Trace) :
    Prop where
  conversions : ∀ e, .converted e ∈ tr.entries → e ∈ all
  names : ∀ s ∈ unclear owned t, s ∈ exc
  lost : ∀ s ∈ lostSpans (all.map (·.span)) t, s ∈ lost
  read : ∀ ss ∈ statementLists t, ∀ u ∈ ss, isAttachment u = false

/-- However the tree is converted, its groups are laid. -/
def Lays (job : Job) (all : List Conversion) (exc lost : List Span) (t : Ast) : Prop :=
  ∀ {w : Slot} {t' : Ast} {tr : Trace} (owned : Bool), Becomes job w t t' tr →
    Tracked all exc lost owned t tr →
    Laid job.config.target all exc lost (statementLists t') (if owned then declarations t' else []) tr

section Lays

variable {job : Job} {w : Slot} {t t' u : Ast} {tr tr' : Trace} {all : List Conversion}
  {exc lost : List Span} {owned : Bool} {p : Prepared}

theorem Tracked.beneath (h : Tracked all exc lost owned t tr) (hu : Beneath t u)
    (hc : ∀ e, .converted e ∈ tr'.entries → .converted e ∈ tr.entries) :
    Tracked all exc lost false u tr' where
  conversions e he := h.conversions e (hc e he)
  names s hs := h.names s (hu.unclear hs owned)
  lost s hs := h.lost s (hu.lostSpans hs)
  read ss hss := h.read ss (hu.statementLists hss)

theorem Part.mem_traces {xs : List Part} {x : Part} (hx : x ∈ xs) {e : Entry}
    (he : e ∈ x.trace.entries) : e ∈ (Part.traces xs).entries := by
  induction xs with
  | nil => cases hx
  | cons y xs ih =>
    rw [Part.traces, Trace.mem_entries_append]
    rcases List.mem_cons.1 hx with rfl | hx
    · exact .inl he
    · exact .inr (ih hx)

theorem mem_functionSpansAll :
    s ∈ functionSpansAll ts ↔ ∃ t ∈ ts, s ∈ functionSpans t :=
  Joins.mem ⟨rfl, fun _ _ => rfl⟩

/-- What stands in a part that is lost is lost. -/
theorem mem_lostSpans (ht : functionPlace t ∈ converted) (hu : u ∈ lostHere t)
    (hs : s ∈ functionSpans u) : s ∈ lostSpans converted t := by
  cases t with
  | absent => cases hu
  | list ts => cases hu
  | node k sp cs =>
    rw [lostSpans, if_pos (by simpa using ht)]
    exact List.mem_append_left _ (mem_functionSpansAll.2 ⟨u, hu, hs⟩)

/-- **A function that gives way**: its parts keep their groups, and its own group is in the list that
makes it or waits for the statement. -/
theorem GivesWay.laid {f : Form} {cache : Option String} {reason : Reason} {own : Trace}
    (ih : ∀ u, sizeOf u < sizeOf t → Lays job all exc lost u)
    (h : GivesWay job w t f tr) (hp : f.subject.prepare job = .ok p)
    (hentries : own.entries = [.converted ⟨p, reason, f.callable p⟩]) (hstmts : own.stmts = f.attached p)
    (htracked : Tracked all exc lost owned t (tr ++ own)) :
    Laid job.config.target all exc lost (statementLists (f.turned p cache))
      (if owned then declarations (f.turned p cache) else []) (tr ++ own) := by
  set e : Conversion := ⟨p, reason, f.callable p⟩ with he
  have hmem : e ∈ all :=
    htracked.conversions e (Trace.mem_entries_append.2 (.inr (by simp [hentries])))
  obtain ⟨⟨xs, hxs, hkeeps⟩, hfactory⟩ := h.parts hp cache
  obtain ⟨hfunction, hattached⟩ := h.attached hp cache reason
  have hparts : Laid job.config.target all exc lost (statementListsAll (Part.kept xs)) [] tr := by
    rw [hxs.traces]
    refine .parts (fun x hx => ?_) fun x hx hk e he => ?_
    · have hbelow := hxs.beneath x hx
      refine ih _ hbelow.sizeOf_lt false (hxs.becomes x hx) (htracked.beneath hbelow fun e he => ?_)
      rw [Trace.mem_entries_append, hxs.traces]
      exact .inl (Part.mem_traces hx he)
    · refine htracked.lost _ (mem_lostSpans ?_ (hxs.lost x hx hk) ((hxs.becomes x hx).span_mem e he))
      rw [h.functionPlace hp]
      exact List.mem_map_of_mem hmem
  have hmade : Attaches (Belongs job.config.target all exc p.factory) p.factory :=
    attaches_factory hmem rfl hfunction
  have htree := hparts.keeps hkeeps hmade
  have hown : Laid job.config.target all exc lost (statementLists (f.turned p cache))
      (if owned then declarations (f.turned p cache) else []) own := by
    rcases hattached with hnone | ⟨n, F, hgroup, hF, hspan, hunclear, hdescribes⟩
    · rw [hnone] at hstmts
      refine ⟨htree.groups, hstmts ▸ .nil, by simp [hstmts], fun e' he' => .inr (.inr ?_)⟩
      rw [hentries, List.mem_singleton, Entry.converted.injEq] at he'
      exact ⟨p.factory, hfactory hnone, he' ▸ hasGroup_factory e⟩
    · rw [hgroup] at hstmts
      refine ⟨htree.groups, ?_, hstmts ▸ metadataStmts_simple n p.metadata,
        fun e' he' => .inr (.inl ?_)⟩
      · rw [hstmts, ← List.append_nil (metadataStmts n p.metadata)]
        refine .group ⟨e, hmem, rfl, fun hclear => ?_⟩ .nil
        cases owned with
        | true => exact ⟨F, hF, hspan, hdescribes⟩
        | false => exact absurd (htracked.names _ hunclear) hclear
      · rw [hentries, List.mem_singleton, Entry.converted.injEq] at he'
        rw [hstmts, he']
        exact ⟨[], n, [], by simp; rfl⟩
  exact (htree.append hown).mono (by simp) (by simp)

/-- A node that stays keeps the groups of its parts. -/
theorem BecomesAll.laid : ∀ {ws : Nat → Slot} {ts ts' : List Ast} {tr : Trace} (owned : Bool),
    BecomesAll job ws ts ts' tr → (∀ u ∈ ts, Lays job all exc lost u) →
    (∀ u ∈ ts, ∀ tr', (∀ e, .converted e ∈ tr'.entries → .converted e ∈ tr.entries) →
      Tracked all exc lost owned u tr') →
    Laid job.config.target all exc lost (statementListsAll ts')
      (if owned then declarationsAll ts' else []) tr := by
  intro ws ts
  induction ts generalizing ws with
  | nil =>
    intro _ _ owned h _ _
    cases h
    cases owned <;> exact .nil
  | cons t ts hrec =>
    intro _ _ owned h ih htracked
    obtain _ | ⟨h, hs, rfl⟩ := h
    have ht := ih t List.mem_cons_self owned h
      (htracked t List.mem_cons_self _ fun e he => Trace.mem_entries_append.2 (.inl he))
    have hts := hrec owned hs (fun u hu => ih u (List.mem_cons_of_mem _ hu)) fun u hu tr'' he =>
      htracked u (List.mem_cons_of_mem _ hu) tr'' fun e h => Trace.mem_entries_append.2 (.inr (he e h))
    refine (ht.append hts).mono (fun ss => by rw [statementListsAll]) fun d hd => ?_
    cases owned with
    | false => simp at hd
    | true => simpa [declarationsAll] using hd

/-- Statements with what is put around them. -/
structure LaidIn (target : Target) (all : List Conversion) (exc lost : List Span) (ss ss' : List Ast)
    (entries : List Entry) : Prop where
  groups : Attaches (Declares target all exc (declarationsAll ss')) ss'
  inner : ∀ l ∈ statementListsAll ss', Attaches (Belongs target all exc l) l
  places : (declarationsAll ss').map placed = (declarationsAll ss).map placed
  has : ∀ e, .converted e ∈ entries →
    e.span ∈ lost ∨ HasGroup e ss' ∨ ∃ l ∈ statementListsAll ss', HasGroup e l

theorem declarationsAll_append (ts us : List Ast) :
    declarationsAll (ts ++ us) = declarationsAll ts ++ declarationsAll us :=
  Joins.append ⟨rfl, fun _ _ => rfl⟩ _ _

theorem declarationsAll_eq_nil (h : ∀ t ∈ ts, declarations t = []) :
    declarationsAll ts = [] :=
  Joins.eq_nil ⟨rfl, fun _ _ => rfl⟩ h

theorem cacheDecl_simple (name : String) :
    declarations (cacheDecl name) = [] ∧ statementLists (cacheDecl name) = [] ∧
      isAttachment (cacheDecl name) = false := by
  simp [cacheDecl, madeVar, madeBinding, madeIdent, made, declarations, declaredFunction?, isCarrier,
    statementLists, statementListsAll, ownStatements, isStatementList, isAttachment]

/-- Statements keep their groups, and each is followed by what waits for it. -/
theorem BecomesStmts.laid : ∀ {ss ss' : List Ast} {entries : List Entry},
    BecomesStmts job ss ss' entries → (∀ u ∈ ss, Lays job all exc lost u) →
    (∀ u ∈ ss, ∀ tr, (∀ e, .converted e ∈ tr.entries → .converted e ∈ entries) →
      Tracked all exc lost true u tr) →
    (∀ u ∈ ss, isAttachment u = false) → LaidIn job.config.target all exc lost ss ss' entries := by
  intro ss
  induction ss with
  | nil =>
    intro _ _ h _ _ _
    cases h
    exact ⟨.nil, by simp [statementListsAll], rfl, by simp⟩
  | cons t ts hrec =>
    intro _ _ h ih htracked hread
    obtain _ | @⟨_, t', _, ts', tr, _, h, hs⟩ := h
    have ht := ih t List.mem_cons_self true h
      (htracked t List.mem_cons_self tr fun e he => List.mem_append_left _ he)
    have hts := hrec hs (fun u hu => ih u (List.mem_cons_of_mem _ hu))
      (fun u hu tr' he => htracked u (List.mem_cons_of_mem _ hu) tr' fun e h =>
        List.mem_append_right _ (he e h))
      fun u hu => hread u (List.mem_cons_of_mem _ hu)
    have hcaches : ∀ u ∈ tr.caches.map cacheDecl,
        declarations u = [] ∧ statementLists u = [] ∧ isAttachment u = false := by
      intro u hu
      obtain ⟨name, -, rfl⟩ := List.mem_map.1 hu
      exact cacheDecl_simple name
    have hdecls : declarationsAll (tr.caches.map cacheDecl ++ t' :: tr.stmts ++ ts') =
        declarations t' ++ declarationsAll ts' := by
      rw [declarationsAll_append, declarationsAll_append, declarationsAll,
        declarationsAll_eq_nil fun u hu => (hcaches u hu).1,
        declarationsAll_eq_nil fun u hu => (ht.simple u hu).1]
      simp
    have hlists : statementListsAll (tr.caches.map cacheDecl ++ t' :: tr.stmts ++ ts') =
        statementLists t' ++ statementListsAll ts' := by
      rw [statementListsAll_append, statementListsAll_append, statementListsAll,
        statementListsAll_eq_nil fun u hu => (hcaches u hu).2.1,
        statementListsAll_eq_nil fun u hu => (ht.simple u hu).2]
      simp
    refine ⟨?_, ?_, ?_, ?_⟩
    · rw [hdecls]
      refine .append (.append (.others fun u hu => (hcaches u hu).2.2) (.other ?_ ?_)) ?_
      · exact h.isAttachment_eq_false (hread t List.mem_cons_self)
      · exact ht.queued.mono fun _ _ hd => hd.mono fun _ => List.mem_append_left _
      · exact hts.groups.mono fun _ _ hd => hd.mono fun _ => List.mem_append_right _
    · rw [hlists]
      exact fun l hl => (List.mem_append.1 hl).elim (ht.groups l) (hts.inner l)
    · rw [hdecls, declarationsAll, List.map_append, List.map_append, h.declarations_placed, hts.places]
    · rw [hlists]
      intro e he
      rcases List.mem_append.1 he with he | he
      · rcases ht.has e he with hl | hg | ⟨l, hl, hg⟩
        · exact .inl hl
        · refine .inr (.inl ?_)
          rw [← List.singleton_append, ← List.append_assoc]
          exact (hg.append_left _).append_right _
        · exact .inr (.inr ⟨l, List.mem_append_left _ hl, hg⟩)
      · rcases hts.has e he with hl | hg | ⟨l, hl, hg⟩
        · exact .inl hl
        · exact .inr (.inl (hg.append_left _))
        · exact .inr (.inr ⟨l, List.mem_append_right _ hl, hg⟩)

theorem shadowedIn_placed {ds' : List (String × Ast)} (h : ds'.map placed = ds.map placed) :
    shadowedIn ds' = shadowedIn ds := by
  induction ds generalizing ds' with
  | nil =>
    cases ds' with
    | nil => rfl
    | cons => cases h
  | cons d ds ih =>
    cases ds' with
    | nil => cases h
    | cons d' ds' =>
      simp only [List.map_cons, List.cons.injEq, placed, Prod.mk.injEq] at h
      have hany : ∀ n, ds'.any (·.1 == n) = ds.any (·.1 == n) := by
        intro n
        have := congrArg (fun l => l.any (·.1 == n)) h.2
        simpa [List.any_map, Function.comp_def, placed] using this
      rw [shadowedIn, shadowedIn, h.1.1, h.1.2, hany, ih h.2]

/-- A function after which no other is declared with its name is the last one of the name. -/
theorem getLast?_of_not_shadowed (h : (n, f) ∈ ds) (hs : f.span ∉ shadowedIn ds) :
    (ds.filter (·.1 == n)).getLast? = some (n, f) := by
  induction ds with
  | nil => cases h
  | cons d ds ih =>
    simp only [shadowedIn, List.mem_append, not_or] at hs
    rcases List.mem_cons.1 h with rfl | h
    · have hnone : ds.filter (·.1 == n) = [] := by
        refine List.filter_eq_nil_iff.2 fun d hd hn => ?_
        rw [if_pos (List.any_eq_true.2 ⟨d, hd, hn⟩)] at hs
        exact hs.1 List.mem_cons_self
      simp [hnone]
    · have := ih h hs.2
      rw [List.filter_cons]
      split
      · rw [List.getLast?_cons, this]
        rfl
      · exact this

/-- In a whole list the names denote the functions that are declared with them. -/
theorem LaidIn.laid {ss' : List Ast} {target : Target}
    (h : LaidIn target all exc lost ss ss' entries)
    (hs : ∀ s ∈ shadowedIn (declarationsAll ss), s ∈ exc) :
    Laid target all exc lost (ss' :: statementListsAll ss') [] { now := entries } where
  groups l hl := by
    rcases List.mem_cons.1 hl with rfl | hl
    · refine h.groups.mono fun n m ⟨e, he, hm, hd⟩ => ⟨e, he, hm, fun hclear => ?_⟩
      obtain ⟨f, hf, hspan, hdescribes⟩ := hd hclear
      refine ⟨f, .declared (getLast?_of_not_shadowed hf ?_), hdescribes⟩
      rw [shadowedIn_placed h.places, hspan]
      exact fun hmem => hclear (hs _ hmem)
    · exact h.inner l hl
  queued := .nil
  simple := by simp
  has e he := by
    rcases h.has e (by simpa using he) with hl | hg | ⟨l, hl, hg⟩
    · exact .inl hl
    · exact .inr (.inr ⟨ss', List.mem_cons_self, hg⟩)
    · exact .inr (.inr ⟨l, List.mem_cons_of_mem _ hl, hg⟩)

theorem Tracked.child (h : Tracked all exc lost owned (.node k s cs) tr)
    (hl : holdsStatements (.node k s cs) = false) (hu : u ∈ cs)
    (hc : ∀ e, .converted e ∈ tr'.entries → .converted e ∈ tr.entries) :
    Tracked all exc lost (isCarrier k && owned) u tr' where
  conversions e he := h.conversions e (hc e he)
  names s hs := by
    refine h.names s ?_
    rw [unclear_node hl]
    exact List.mem_append_right _ (List.mem_append_right _ (mem_unclearAll.2 ⟨u, hu, hs⟩))
  lost s hs := h.lost s (List.mem_append_right _ (mem_lostSpansAll.2 ⟨u, hu, hs⟩))
  read ss hss := h.read ss ((mem_statementLists_node hl).2 ⟨u, hu, hss⟩)

theorem Tracked.statement (h : Tracked all exc lost owned (.node k s cs) tr)
    (hss : ∀ u ∈ ss, u ∈ cs)
    (hunclear : ∀ s' ∈ unclearAll true ss, s' ∈ unclear owned (.node k s cs)) (hu : u ∈ ss)
    (hc : ∀ e, .converted e ∈ tr'.entries → .converted e ∈ tr.entries) :
    Tracked all exc lost true u tr' where
  conversions e he := h.conversions e (hc e he)
  names s hs := h.names s (hunclear s (mem_unclearAll.2 ⟨u, hu, hs⟩))
  lost s hs := h.lost s (List.mem_append_right _ (mem_lostSpansAll.2 ⟨u, hss u hu, hs⟩))
  read l hl := h.read l (List.mem_append_right _ (mem_statementListsAll.2 ⟨u, hss u hu, hl⟩))

theorem Laid.stays {target : Target} {lists : List (List Ast)} {own : Trace}
    (h : Laid target all exc lost lists ds tr) (k : Kind) (hown : ∀ e, .converted e ∉ own.entries)
    (hstmts : own.stmts = []) : Laid target all exc lost lists ds (tr.through k ++ own) where
  groups := h.groups
  queued := by simpa [hstmts] using h.queued
  simple := by simpa [hstmts] using h.simple
  has e he := by
    rw [Trace.mem_entries_append, Trace.through_entries] at he
    simpa [hstmts] using h.has e (he.resolve_right (hown e))

theorem declarations_carrier (hk : isCarrier k = true) (s : Span) (cs : List Ast) :
    declarations (.node k s cs) = declarationsAll cs := by
  have hnone : declaredFunction? (.node k s cs) = none := by
    unfold declaredFunction?
    split <;> simp_all [isCarrier]
  rw [declarations, hnone]
  simp [hk]

theorem BecomesAll.holdsStatements {ws : Nat → Slot} {cs' : List Ast}
    (h : BecomesAll job ws cs cs' tr) :
    Worklet.holdsStatements (.node k s cs') = Worklet.holdsStatements (.node k s cs) := by
  cases h with
  | nil => rfl
  | cons => cases k <;> rfl

/-- Statements that have a scope of their own. -/
theorem BecomesStmts.laid_list {ss' : List Ast} (ih : ∀ u ∈ cs, Lays job all exc lost u)
    (h : BecomesStmts job ss ss' entries) (htracked : Tracked all exc lost owned (.node k s cs) tr)
    (hss : ∀ u ∈ ss, u ∈ cs) (hlist : ss ∈ statementLists (.node k s cs))
    (hunclear : ∀ s' ∈ shadowedIn (declarationsAll ss) ++ unclearAll true ss, s' ∈ unclear owned (.node k s cs))
    (hc : ∀ e, .converted e ∈ entries → .converted e ∈ tr.entries) :
    Laid job.config.target all exc lost (ss' :: statementListsAll ss') [] { now := entries } := by
  refine (h.laid (fun u hu => ih u (hss u hu)) (fun u hu tr' he => ?_)
    (htracked.read ss hlist)).laid fun s' hs' => ?_
  · exact htracked.statement hss (fun s' hs' => hunclear s' (List.mem_append_right _ hs')) hu
      fun e h => hc e (he e h)
  · exact htracked.names s' (hunclear s' (List.mem_append_left _ hs'))

/-- **The groups of a tree are laid if those of smaller trees are.** -/
theorem Becomes.laid_of_smaller (ih : ∀ u, sizeOf u < sizeOf t → Lays job all exc lost u)
    (h : Becomes job w t t' tr) (htracked : Tracked all exc lost owned t tr) :
    Laid job.config.target all exc lost (statementLists t') (if owned then declarations t' else [])
      tr := by
  cases t with
  | absent =>
    cases h
    cases owned <;> exact .nil
  | list ts =>
    cases h with
    | list hs =>
      refine (hs.laid false (fun u hu => ih u (Beneath.item hu).sizeOf_lt) fun u hu tr' hc =>
        htracked.beneath (.item hu) hc).mono (fun _ => Iff.rfl) (by simp)
  | node k s cs =>
    cases hl : holdsStatements (.node k s cs) with
    | false =>
      rcases h.stays_or_givesWay hl with
        ⟨cs', tr₁, own, rfl, hcs, hown, -, hstmts, rfl⟩ |
        ⟨f, p, cache, reason, tr₁, own, hway, hp, rfl, hentries, -, hstmts, rfl⟩
      · have hparts := hcs.laid (isCarrier k && owned) (fun u hu => ih u (sizeOf_lt_of_mem_node hu))
          fun u hu tr' hc => htracked.child hl hu fun e he =>
            Trace.mem_entries_append.2 (.inl (by rw [Trace.through_entries]; exact hc e he))
        refine (hparts.mono (fun ss => ?_) fun d hd => ?_).stays k hown hstmts
        · rw [mem_statementLists_node (hcs.holdsStatements.trans hl), mem_statementListsAll]
        · cases hk : isCarrier k && owned with
          | false => simp [hk] at hd
          | true =>
            simp only [Bool.and_eq_true] at hk
            simpa [hk, declarations_carrier hk.1] using hd
      · exact hway.laid ih hp hentries hstmts htracked
    | true =>
      have hsmaller : ∀ u ∈ cs, Lays job all exc lost u := fun u hu => ih u (sizeOf_lt_of_mem_node hu)
      cases h with
      | node _ hl' => simp [hl] at hl'
      | @statements _ _ _ _ ss' entries hk hss =>
        have hown : ownStatements (.node k s cs) = some cs ∧ ownStatements (.node k s ss') = some ss' := by
          cases k with
          | block | moduleBlock | module => exact ⟨rfl, rfl⟩
          | _ => cases hk
        have hunclear : ∀ s' ∈ shadowedIn (declarationsAll cs) ++ unclearAll true cs,
            s' ∈ unclear owned (.node k s cs) := by
          intro s' hs'
          rw [unclear_statements hk]
          exact (List.mem_append.1 hs').elim (List.mem_append_left _) fun hs' =>
            List.mem_append_right _ (List.mem_append_right _ hs')
        have hlaid := hss.laid_list hsmaller htracked (fun _ hu => hu) (by simp [statementLists, hown])
          hunclear (fun e he => by simpa using he)
        refine hlaid.mono (fun l => ?_) (by simp)
        simp [statementLists, hown]
      | @switchCase _ _ test test' ss ss' tr₁ _ entries ht hss hall =>
        subst hall
        have htest := hsmaller test List.mem_cons_self false ht
          ⟨fun e he => htracked.conversions e (Trace.mem_entries_append.2 (.inl he)),
            fun s' hs' => htracked.names s' (List.mem_append_right _ (List.mem_append_left _ hs')),
            fun s' hs' => htracked.lost s' (List.mem_append_right _ (List.mem_append_left _ hs')),
            fun l hl => htracked.read l (List.mem_append_right _ (List.mem_append_left _ hl))⟩
        have hlaid := hss.laid_list hsmaller htracked (fun _ hu => List.mem_cons_of_mem _ hu)
          (by simp [statementLists, ownStatements])
          (fun s' hs' => (List.mem_append.1 hs').elim (List.mem_append_left _) fun hs' =>
            List.mem_append_right _ (List.mem_append_right _ hs'))
          (fun e he => Trace.mem_entries_append.2 (.inr (by simpa using he)))
        refine (htest.append hlaid).mono (fun l => ?_) (by simp)
        simp only [statementLists, ownStatements, statementListsAll, Option.toList_some,
          List.singleton_append, List.mem_cons, List.mem_append]
        tauto

/-- **However a tree is converted, its groups are laid.** -/
theorem lays (job : Job) (all : List Conversion) (exc lost : List Span) (N : Nat) :
    ∀ t, sizeOf t < N → Lays job all exc lost t := by
  induction N with
  | zero => exact fun _ hN => absurd hN (Nat.not_lt_zero _)
  | succ N ih =>
    intro t hN w t' tr owned h htracked
    exact h.laid_of_smaller (fun u hu => ih u (by omega)) htracked

end Lays

/-! ### Converted programs -/

/-- No statement of the tree was made to attach something. -/
def Unattached (t : Ast) : Prop :=
  ∀ ss ∈ statementLists t, ∀ u ∈ ss, isAttachment u = false

instance (t : Ast) : Decidable (Unattached t) :=
  inferInstanceAs (Decidable (∀ ss ∈ statementLists t, ∀ u ∈ ss, isAttachment u = false))

section Strict

variable {target : Target} {all : List Conversion} {exc lost : List Span} {t : Ast} {e : Conversion}

theorem Denotes.cons {d : Ast} (h : Denotes ss n f) (hd : declarations d = []) :
    Denotes (d :: ss) n f := by
  cases h with
  | constant name hmem => exact .constant name (List.mem_cons_of_mem _ hmem)
  | declared h =>
    refine .declared ?_
    rw [declarationsAll, hd, List.nil_append]
    exact h

/-- The directive of strict mode changes no group. -/
theorem Laid.ensureStrict (h : Laid target all exc lost (statementLists t) [] { now := entries }) :
    Laid target all exc lost (statementLists (ensureStrict t)) [] { now := entries } := by
  unfold Worklet.ensureStrict
  split
  · rename_i shebang s items
    split
    · exact h
    · set d := madeStatement (madeString strictDirective)
      have hd : declarations d = [] := by
        simp [d, madeStatement, madeString, made, declarations, declaredFunction?, isCarrier]
      have hl : statementLists d = [] := by
        simp [d, madeStatement, madeString, made, statementLists, statementListsAll, ownStatements,
          isStatementList]
      have hlists : ∀ items, statementLists (.node (.module shebang) s items) =
          items :: statementListsAll items := fun _ => rfl
      rw [hlists, statementListsAll, hl, List.nil_append]
      rw [hlists] at h
      refine ⟨fun l hmem => ?_, .nil, by simp, fun e he => ?_⟩
      · rcases List.mem_cons.1 hmem with rfl | hmem
        · refine .other rfl ((h.groups items List.mem_cons_self).mono ?_)
          rintro n m ⟨e, he, hm, hclear⟩
          refine ⟨e, he, hm, fun hs => ?_⟩
          obtain ⟨f, hf, hdescribes⟩ := hclear hs
          exact ⟨f, hf.cons hd, hdescribes⟩
        · exact h.groups l (List.mem_cons_of_mem _ hmem)
      · rcases h.has e he with hlost | hg | ⟨l, hmem, hg⟩
        · exact .inl hlost
        · exact .inr (.inl hg)
        · rcases List.mem_cons.1 hmem with rfl | hmem
          · exact .inr (.inr ⟨_, List.mem_cons_self, hg.append_left [d]⟩)
          · exact .inr (.inr ⟨l, List.mem_cons_of_mem _ hmem, hg⟩)
  · exact h

end Strict

/-- **Attached metadata describe the function that they are attached to.** A group of assignments in a
list of statements of the result belongs to a conversion, and has its closure, its text, its hash and its
location; in that list the target of the group denotes a function of that text and that hash, unless the
name may denote something else: it is bound otherwise or assigned, or the function is declared in a branch,
in no list, or before another one of its name. Every conversion has a group, unless its function stands in
a part that is lost. -/
theorem transform_describes (config : Config) (p : Program) (hroot : isModule p.module = true)
    (hread : Unattached p.module) :
    let out := transform config p
    (∀ ss ∈ statementLists out.module, ∀ pre n m post, ss = pre ++ metadataStmts n m ++ post →
      ∃ e ∈ out.conversions, metadataStmts n m = metadataStmts n e.record.metadata ∧
        (e.span ∉ doubtful p.module → ∃ f, Denotes ss n f ∧ Describes config.target e f)) ∧
    ∀ e ∈ out.conversions, e.span ∉ lostSpans (out.conversions.map (·.span)) p.module →
      ∃ ss ∈ statementLists out.module, ∃ pre n post,
        ss = pre ++ metadataStmts n e.record.metadata ++ post := by
  intro out
  obtain ⟨module, entries, hb, hmodule, hconverted, -⟩ := transform_becomes config hroot
  have hmem : ∀ e, .converted e ∈ entries ↔ e ∈ out.conversions := by
    intro e
    simp only [out, hconverted, convertedIn, List.mem_filterMap]
    constructor
    · exact fun he => ⟨_, he, rfl⟩
    · rintro ⟨_ | _, he, heq⟩ <;> cases heq
      exact he
  have htracked : Tracked out.conversions (doubtful p.module)
      (lostSpans (out.conversions.map (·.span)) p.module) false p.module { now := entries } :=
    ⟨fun e he => (hmem e).1 (by simpa using he), fun _ hs => List.mem_append_left _ hs,
      fun _ hs => hs, hread⟩
  have hlaid : Laid config.target out.conversions (doubtful p.module)
      (lostSpans (out.conversions.map (·.span)) p.module) (statementLists out.module) []
      { now := entries } := by
    have h := lays _ _ _ _ _ p.module (Nat.lt_succ_self _) false hb htracked
    simp only [out, hmodule]
    split
    · exact h.ensureStrict
    · exact h
  refine ⟨fun ss hss pre n m post heq => ?_, fun e he hlost => ?_⟩
  · obtain ⟨m', ⟨e, he, hm', hclear⟩, hgroup⟩ := (hlaid.groups ss hss).mem heq
    exact ⟨e, he, hm' ▸ hgroup, hclear⟩
  · rcases hlaid.has e (by simpa using (hmem e).2 he) with hl | ⟨pre, n, post, hg⟩ | hg
    · exact absurd hl hlost
    · simp [metadataStmts] at hg
    · exact hg

/-- `function f() { "worklet"; return () => { "worklet"; return f; }; }` -/
def sampleNested : Program where
  filename := "/app/a.js"
  text := []
  module :=
    made (.module none)
      [made (.funcDecl false)
        [readIdent "f" 10,
         .node (.function false false) ⟨1, 66⟩
          [.list [], .list [],
           made .block
            [madeStatement (madeString "worklet"),
             madeReturn (.node (.arrow false) ⟨34, 63⟩
              [.list [],
               made .block [madeStatement (madeString "worklet"), madeReturn (readIdent "f" 59)],
               .absent, .absent])],
           .absent, .absent]]]
  comments := default

/-- A declared function and an arrow in it are converted: one group is in the body of the function, the
other one follows it. -/
theorem transform_describes_sampleNested :
    isModule sampleNested.module = true ∧ Unattached sampleNested.module ∧
      (transform .standard sampleNested).conversions.map (·.span) = [⟨34, 63⟩, ⟨1, 66⟩] ∧
      (∀ ss ∈ statementLists (transform .standard sampleNested).module, ∀ pre n m post,
        ss = pre ++ metadataStmts n m ++ post → ∃ f, Denotes ss n f ∧
          ∃ e ∈ (transform .standard sampleNested).conversions, Describes Config.standard.target e f) ∧
      ∀ e ∈ (transform .standard sampleNested).conversions,
        ∃ ss ∈ statementLists (transform .standard sampleNested).module, ∃ pre n post,
          ss = pre ++ metadataStmts n e.record.metadata ++ post := by
  have hclear : doubtful sampleNested.module = [] := by decide +kernel
  have hlost : lostSpans ((transform .standard sampleNested).conversions.map (·.span))
      sampleNested.module = [] := by
    decide +kernel
  have hread : Unattached sampleNested.module := by decide +kernel
  obtain ⟨hgroups, hrecords⟩ := transform_describes .standard sampleNested rfl hread
  refine ⟨rfl, hread, by decide +kernel, fun ss hss pre n m post heq => ?_, fun e he => ?_⟩
  · obtain ⟨e, he, -, hdescribes⟩ := hgroups ss hss pre n m post heq
    obtain ⟨f, hf, h⟩ := hdescribes (by simp [hclear])
    exact ⟨f, hf, e, he, h⟩
  · exact hrecords e he (by simp [hlost])

end Worklet
