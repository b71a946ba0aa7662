import Mathlib.Data.List.Forall2
import Mathlib.Logic.Relation
import Worklet.Canonical

/-!
# The canonical text is a normal form

Functions that differ only in what does not matter at run time have the same canonical text. What does
not matter is said here by single edits of a tree, which may be made anywhere in it and undone.

Principal results: `Edit.normalize_eq` — an edit does not change the normal form;
`canonicalText_eq_of_normalize` — so edits of parameters and body do not change the canonical text.
-/

set_option autoImplicit false

namespace Worklet

open Syntax

/-! ### Edits -/

/-- A type can be put around the tree. -/
def isOperand : Ast → Bool
  | .node k _ _ => k.isExpr
  | _ => false

/-- What stands at the index is looked at as it is: the target of an assignment, the function of a
declaration, the key of a property. -/
def isLookedAt : Kind → Nat → Bool
  | .assign _, 0 => true
  | .funcDecl _, 1 => true
  | .classProp _, 0 => true
  | _, _ => false

/-- One edit of a tree. If the flag is not set, no type is put around the tree as a whole. -/
inductive Edit : Bool → Ast → Ast → Prop
  -- Places and spellings
  | place {b : Bool} (k : Kind) (s s' : Span) (cs : List Ast) :
    Edit b (.node k s cs) (.node k s' cs)
  | stringSpelling {b : Bool} (v : List UInt16) (raw raw' : Option String) (s : Span) (cs : List Ast) :
    Edit b (.node (.strLit v raw) s cs) (.node (.strLit v raw') s cs)
  | numberSpelling {b : Bool} (v : Binary64) (raw raw' : Option String) (s : Span) (cs : List Ast) :
    Edit b (.node (.numLit v raw) s cs) (.node (.numLit v raw') s cs)
  -- Types of patterns
  | nameType {b : Bool} (o o' : Bool) (s : Span) (name type type' : Ast) :
    Edit b (.node (.bindName o) s [name, type]) (.node (.bindName o') s [name, type'])
  | arrayType {b : Bool} (o o' : Bool) (s : Span) (es type type' : Ast) :
    Edit b (.node (.arrayPat o) s [es, type]) (.node (.arrayPat o') s [es, type'])
  | objectType {b : Bool} (o o' : Bool) (s : Span) (ps type type' : Ast) :
    Edit b (.node (.objectPat o) s [ps, type]) (.node (.objectPat o') s [ps, type'])
  | restType {b : Bool} (s : Span) (p type type' : Ast) :
    Edit b (.node .restPat s [p, type]) (.node .restPat s [p, type'])
  -- Types of functions, calls and classes
  | functionTypes {b : Bool} (a g : Bool) (s : Span) (params decorators body tps tps' type type' : Ast) :
    Edit b (.node (.function a g) s [params, decorators, body, tps, type])
      (.node (.function a g) s [params, decorators, body, tps', type'])
  | arrowTypes {b : Bool} (a : Bool) (s : Span) (params body tps tps' type type' : Ast) :
    Edit b (.node (.arrow a) s [params, body, tps, type])
      (.node (.arrow a) s [params, body, tps', type'])
  | callTypes {b : Bool} (s : Span) (callee args types types' : Ast) :
    Edit b (.node .call s [callee, args, types]) (.node .call s [callee, args, types'])
  | newTypes {b : Bool} (s : Span) (callee args types types' : Ast) :
    Edit b (.node .new_ s [callee, args, types]) (.node .new_ s [callee, args, types'])
  | classTypes {b : Bool} (abs : Bool) (s : Span)
    (decorators members base tps tps' supers supers' implemented implemented' : Ast) :
    Edit b (.node (.class_ abs) s [decorators, members, base, tps, supers, implemented])
      (.node (.class_ abs) s [decorators, members, base, tps', supers', implemented'])
  | propType {b : Bool} (mods : Modifiers) (s : Span) (key value type type' decorators : Ast) :
    key.isPrivateName = false →
    Edit b (.node (.classProp mods) s [key, value, type, decorators])
      (.node (.classProp mods) s [key, value, type', decorators])
  | wrap {k : Kind} (s : Span) (e : Ast) (types : List Ast) : isTypeWrapper k = true →
    isOperand e = true → Edit true e (.node k s (e :: types))
  -- Statements that declare only types
  | statement {b : Bool} (s : Span) (ss ss' : List Ast) (t : Ast) : isTypeOnly t = true →
    Edit b (.node .block s (ss ++ ss')) (.node .block s (ss ++ t :: ss'))
  | caseStatement {b : Bool} (s : Span) (test : Ast) (ss ss' : List Ast) (t : Ast) :
    isTypeOnly t = true →
    Edit b (.node .switchCase s (test :: (ss ++ ss'))) (.node .switchCase s (test :: (ss ++ t :: ss')))
  -- Parts
  | item {b : Bool} (ts ts' : List Ast) {t t' : Ast} : Edit true t t' →
    Edit b (.list (ts ++ t :: ts')) (.list (ts ++ t' :: ts'))
  | part {b : Bool} {k : Kind} (s : Span) (ts ts' : List Ast) {t t' : Ast} :
    isLookedAt k ts.length = false → Edit true t t' →
    Edit b (.node k s (ts ++ t :: ts')) (.node k s (ts ++ t' :: ts'))
  | target {b : Bool} (op : AssignOp) (s : Span) (value : Ast) {t t' : Ast} : Edit false t t' →
    Edit b (.node (.assign op) s [t, value]) (.node (.assign op) s [t', value])
  | key {b : Bool} (mods : Modifiers) (s : Span) (value type decorators : Ast) {t t' : Ast} :
    Edit false t t' →
    Edit b (.node (.classProp mods) s [t, value, type, decorators])
      (.node (.classProp mods) s [t', value, type, decorators])
  | declared {b : Bool} {a g : Bool} (d : Bool) (s : Span) (name : Ast) {fs fs' : Span}
    {cs cs' : List Ast} :
    Edit false (.node (.function a g) fs cs) (.node (.function a g) fs' cs') →
    Edit b (.node (.funcDecl d) s [name, .node (.function a g) fs cs])
      (.node (.funcDecl d) s [name, .node (.function a g) fs' cs'])

/-- Edits, made or undone, lead from one tree to the other. -/
abbrev Edit.Related : Ast → Ast → Prop :=
  Relation.EqvGen (Edit true)

/-! ### What the normal form depends on -/

/-- The normal form of what is assigned to: a type that stands directly around it stays. -/
def normalTarget : Ast → Ast
  | .node k s cs =>
    if isTypeWrapper k then made k (normalizeAll cs) else normalize (.node k s cs)
  | t => normalize t

/-- What the normal form of a node takes from a part of it. -/
structure View where
  normal : Ast
  /-- The normal form as what is assigned to, where it matters. -/
  target : Ast
  isTypeOnly : Bool
  /-- Whether it is a private name, where it matters. -/
  isPrivateName : Bool

/-- What is taken from most parts. -/
def view (t : Ast) : View :=
  ⟨normalize t, .absent, isTypeOnly t, false⟩

/-- What is taken from the first part. -/
def firstView : Kind → Ast → View
  | .assign _, t => { view t with target := normalTarget t }
  | .classProp _, t => { view t with isPrivateName := t.isPrivateName }
  | _, t => view t

/-- What is taken from the parts of a node. -/
def views (k : Kind) : List Ast → List View
  | [] => []
  | t :: ts => firstView k t :: ts.map view

def keptStatements (vs : List View) : List Ast :=
  (vs.filter fun v => !v.isTypeOnly).map (·.normal)

/-- The normal form of a node from what is taken from its parts. -/
def assemble : Kind → List View → Ast
  | .bindName _, [name, _] => made (.bindName false) [name.normal, .absent]
  | .arrayPat _, [es, _] => made (.arrayPat false) [es.normal, .absent]
  | .objectPat _, [ps, _] => made (.objectPat false) [ps.normal, .absent]
  | .restPat, [p, _] => made .restPat [p.normal, .absent]
  | .function a g, [params, decorators, body, _, _] =>
    made (.function a g) [params.normal, decorators.normal, body.normal, .absent, .absent]
  | .arrow a, [params, body, _, _] =>
    made (.arrow a) [params.normal, body.normal, .absent, .absent]
  | .call, [callee, args, _] => made .call [callee.normal, args.normal, .absent]
  | .new_, [callee, args, _] => made .new_ [callee.normal, args.normal, .absent]
  | .class_ abs, [decorators, members, base, _, _, _] =>
    made (.class_ abs)
      [decorators.normal, members.normal, base.normal, .absent, .absent, .list []]
  | .classProp mods, [key, value, type, decorators] =>
    made (.classProp mods)
      [key.normal, value.normal, if key.isPrivateName then type.normal else .absent,
        decorators.normal]
  | .assign op, [target, value] => made (.assign op) [target.target, value.normal]
  | .block, vs => made .block (keptStatements vs)
  | .switchCase, test :: vs => made .switchCase (test.normal :: keptStatements vs)
  | .asType, e :: _ => e.normal
  | .satisfiesType, e :: _ => e.normal
  | .typeAssertion, e :: _ => e.normal
  | .nonNull, e :: _ => e.normal
  | .asConst, e :: _ => e.normal
  | .instantiation, e :: _ => e.normal
  | k, vs => made (normalKind k) (vs.map (·.normal))

@[simp] theorem isTypeWrapper_normalKind (k : Kind) :
    isTypeWrapper (normalKind k) = isTypeWrapper k := by
  cases k <;> rfl

theorem normalizeAll_eq (ts : List Ast) : normalizeAll ts = ts.map normalize := by
  induction ts with
  | nil => rfl
  | cons t ts ih => rw [normalizeAll, ih, List.map_cons]

theorem normalizeStmts_eq (ts : List Ast) : normalizeStmts ts = keptStatements (ts.map view) := by
  induction ts with
  | nil => rfl
  | cons t ts ih =>
    rw [normalizeStmts, ih]
    cases h : isTypeOnly t <;> simp [keptStatements, view, h]

theorem views_normal (k : Kind) (cs : List Ast) :
    (views k cs).map (·.normal) = cs.map normalize := by
  cases cs with
  | nil => rfl
  | cons t ts =>
    rw [views, List.map_cons, List.map_cons, List.map_map]
    congr 1
    fun_cases firstView k t <;> rfl

/-- **The normal form of a node comes from what is taken from its parts.** -/
theorem normalize_node (k : Kind) (s : Span) (cs : List Ast) :
    normalize (.node k s cs) = assemble k (views k cs) := by
  generalize hv : views k cs = vs
  fun_cases assemble k vs
  case case20 =>
    subst hv
    rw [normalize, normalizeAll_eq, views_normal]
    -- What is read in a way of its own is assembled in a way of its own
    all_goals
      intros
      subst_vars
      solve_by_elim
  case case11 op target value =>
    rcases cs with _ | ⟨_ | _ | _, _ | ⟨_, _ | ⟨_, _⟩⟩⟩
    all_goals cases hv <;> rfl
  case case12 =>
    subst hv
    rw [normalize, normalizeStmts_eq]
    cases cs <;> rfl
  case case13 =>
    rcases cs with _ | ⟨test, ss⟩
    · cases hv
    · cases hv
      rw [normalize, normalizeStmts_eq]
      rfl
  all_goals
    rcases cs with _ | ⟨_, _ | ⟨_, _ | ⟨_, _ | ⟨_, _ | ⟨_, _ | ⟨_, _ | ⟨_, _⟩⟩⟩⟩⟩⟩⟩
    all_goals cases hv <;> rfl

variable {k : Kind} {cs cs' : List Ast} {t t' : Ast}

/-- What the normal form takes from the parts decides it, wherever the node stands. -/
theorem normalize_congr {s s' : Span} (h : views k cs = views k cs') :
    normalize (.node k s cs) = normalize (.node k s' cs') := by
  rw [normalize_node, normalize_node, h]

/-! ### Edits keep the normal form -/

theorem isPrivateName_node (k : Kind) (s s' : Span) (cs cs' : List Ast) :
    (Ast.node k s cs).isPrivateName = (Ast.node k s' cs').isPrivateName := by
  unfold Ast.isPrivateName
  split <;> split <;> simp_all

/-- Whether a statement declares only types depends on its kind and on whether a function has a
body. -/
theorem isTypeOnly_node (s s' : Span)
    (h : ∀ d, k = .funcDecl d → cs.length = cs'.length ∧
      ((cs.getD 1 .absent).child 2).isAbsent = ((cs'.getD 1 .absent).child 2).isAbsent) :
    isTypeOnly (.node k s cs) = isTypeOnly (.node k s' cs') := by
  cases k with
  | funcDecl d =>
    obtain ⟨hlen, hbody⟩ := h d rfl
    match cs, cs', hlen with
    | [], [], _ | [_], [_], _ | _ :: _ :: _ :: _, _ :: _ :: _ :: _, _ => rfl
    | [_, f], [_, f'], _ => exact congrArg (d || ·) hbody
  | _ => rfl

theorem isTypeOnly_of_isOperand (h : isOperand t = true) : isTypeOnly t = false := by
  cases t with
  | absent | list => cases h
  | node k s cs => cases k with
    | interfaceDecl | typeAlias | funcDecl | varDecl => cases h
    | _ => rfl

theorem isOperand_of_isTypeWrapper (h : isTypeWrapper k = true) (s : Span) (cs : List Ast) :
    isOperand (.node k s cs) = true := by
  revert h
  fun_cases isTypeWrapper k <;> intro h
  all_goals first | rfl | cases h

theorem normalize_wrapped (h : isTypeWrapper k = true) (s : Span) (t : Ast) (types : List Ast) :
    normalize (.node k s (t :: types)) = normalize t := by
  revert h
  fun_cases isTypeWrapper k <;> intro h
  all_goals first | rfl | cases h

/-- Edits of a part that is not looked at do not change what is taken. -/
theorem views_part {ts ts' : List Ast} (hk : isLookedAt k ts.length = false) (h : view t = view t') :
    views k (ts ++ t :: ts') = views k (ts ++ t' :: ts') := by
  cases ts with
  | nil =>
    have hfirst : firstView k t = firstView k t' := by
      cases k with
      | assign | classProp => cases hk
      | _ => exact h
    rw [List.nil_append, List.nil_append, views, views, hfirst]
  | cons a ts => simp only [List.cons_append, views, List.map_append, List.map_cons, h]

theorem view_congr (h : normalize t = normalize t') (htype : isTypeOnly t = isTypeOnly t') :
    view t = view t' := by
  rw [view, view, h, htype]

theorem normalizeAll_congr (ts ts' : List Ast) (h : normalize t = normalize t') :
    normalizeAll (ts ++ t :: ts') = normalizeAll (ts ++ t' :: ts') := by
  simp only [normalizeAll_eq, List.map_append, List.map_cons, h]

/-- A statement that declares only types is not in the normal form. -/
theorem normalizeStmts_insert (ss ss' : List Ast) (h : isTypeOnly t = true) :
    normalizeStmts (ss ++ ss') = normalizeStmts (ss ++ t :: ss') := by
  simp [normalizeStmts_eq, keptStatements, view, h]

namespace Edit

variable {b : Bool}

theorem isPresent (h : Edit b t t') : t.isAbsent = false ∧ t'.isAbsent = false := by
  cases h with
  | wrap s e types hk he =>
    cases t with
    | absent => cases he
    | list | node => exact ⟨rfl, rfl⟩
  | _ => exact ⟨rfl, rfl⟩

theorem isPrivateName_eq (h : Edit false t t') : t.isPrivateName = t'.isPrivateName := by
  cases h with
  | place | part => exact isPrivateName_node ..
  | _ => rfl

/-- An edit of a function leaves it with a body or without one. -/
theorem body_isAbsent_eq {a g : Bool} {s s' : Span}
    (h : Edit false (.node (.function a g) s cs) (.node (.function a g) s' cs')) :
    ((Ast.node (.function a g) s cs).child 2).isAbsent =
      ((Ast.node (.function a g) s' cs').child 2).isAbsent := by
  cases h with
  | place => rfl
  | functionTypes => rfl
  | part s ts ts' _ h =>
    simp only [Ast.child, Ast.children, List.getD_eq_getElem?_getD]
    match ts with
    | [] | [_] | _ :: _ :: _ :: _ => rfl
    | [_, _] => exact h.isPresent.1.trans h.isPresent.2.symm

theorem isTypeOnly_eq (h : Edit b t t') : isTypeOnly t = isTypeOnly t' := by
  cases h with
  | place k s s' cs => exact isTypeOnly_node _ _ fun _ _ => ⟨rfl, rfl⟩
  | wrap s e types hk he =>
    rw [isTypeOnly_of_isOperand he, isTypeOnly_of_isOperand (isOperand_of_isTypeWrapper hk _ _)]
  | part s ts ts' hk h =>
    refine isTypeOnly_node _ _ fun d hd => ⟨by simp only [List.length_append, List.length_cons], ?_⟩
    subst hd
    match ts with
    | [] | _ :: _ :: _ => rfl
    | [_] => cases hk
  | declared d s name h => exact isTypeOnly_node _ _ fun _ _ => ⟨rfl, h.body_isAbsent_eq⟩
  | _ => rfl

/-- **An edit does not change the normal form**, and one that puts no type around the tree as a
whole does not change it as what is assigned to either. -/
theorem normalize_eq (h : Edit b t t') :
    normalize t = normalize t' ∧ (b = false → normalTarget t = normalTarget t') := by
  induction h with
  | place k s s' cs =>
    have hn : normalize (.node k s cs) = normalize (.node k s' cs) := normalize_congr rfl
    exact ⟨hn, fun _ => by rw [normalTarget, normalTarget, hn]⟩
  | wrap s e types hk _ => exact ⟨(normalize_wrapped hk s e types).symm, nofun⟩
  | propType mods s key value type type' decorators hkey =>
    have hn : normalize (.node (.classProp mods) s [key, value, type, decorators]) =
        normalize (.node (.classProp mods) s [key, value, type', decorators]) := by
      simp only [normalize, hkey, Bool.false_eq_true, if_false]
    exact ⟨hn, fun _ => hn⟩
  | statement s ss ss' t ht =>
    have hn : normalize (.node .block s (ss ++ ss')) = normalize (.node .block s (ss ++ t :: ss')) := by
      rw [normalize, normalize, normalizeStmts_insert ss ss' ht]
    exact ⟨hn, fun _ => hn⟩
  | caseStatement s test ss ss' t ht =>
    have hn : normalize (.node .switchCase s (test :: (ss ++ ss'))) =
        normalize (.node .switchCase s (test :: (ss ++ t :: ss'))) := by
      rw [normalize, normalize, normalizeStmts_insert ss ss' ht]
    exact ⟨hn, fun _ => hn⟩
  | @item b ts ts' t t' _ ih =>
    have hn : normalize (.list (ts ++ t :: ts')) = normalize (.list (ts ++ t' :: ts')) := by
      rw [normalize, normalize, normalizeAll_congr ts ts' ih.1]
    exact ⟨hn, fun _ => hn⟩
  | @part b k s ts ts' t t' hk h ih =>
    have hn : normalize (.node k s (ts ++ t :: ts')) = normalize (.node k s (ts ++ t' :: ts')) :=
      normalize_congr (views_part hk (view_congr ih.1 h.isTypeOnly_eq))
    exact ⟨hn, fun _ => by rw [normalTarget, normalTarget, hn, normalizeAll_congr ts ts' ih.1]⟩
  | @target b op s value t t' h ih =>
    have hfirst : firstView (.assign op) t = firstView (.assign op) t' := by
      rw [firstView, firstView, view_congr ih.1 h.isTypeOnly_eq, ih.2 rfl]
    have hn : normalize (.node (.assign op) s [t, value]) =
        normalize (.node (.assign op) s [t', value]) :=
      normalize_congr (by rw [views, views, hfirst])
    exact ⟨hn, fun _ => hn⟩
  | @key b mods s value type decorators t t' h ih =>
    have hfirst : firstView (.classProp mods) t = firstView (.classProp mods) t' := by
      rw [firstView, firstView, view_congr ih.1 h.isTypeOnly_eq, h.isPrivateName_eq]
    have hn : normalize (.node (.classProp mods) s [t, value, type, decorators]) =
        normalize (.node (.classProp mods) s [t', value, type, decorators]) :=
      normalize_congr (by rw [views, views, hfirst])
    exact ⟨hn, fun _ => hn⟩
  | @declared b a g d s name fs fs' cs cs' h ih =>
    have hn : normalize (.node (.funcDecl d) s [name, .node (.function a g) fs cs]) =
        normalize (.node (.funcDecl d) s [name, .node (.function a g) fs' cs']) :=
      normalize_congr (by rw [views, views, List.map_singleton, List.map_singleton, view_congr ih.1 rfl])
    exact ⟨hn, fun _ => hn⟩
  | _ => exact ⟨rfl, fun _ => rfl⟩

/-- Trees that edits lead from one to the other have the same normal form. -/
theorem Related.normalize_eq (h : Related t t') : normalize t = normalize t' := by
  induction h with
  | rel t t' h => exact h.normalize_eq.1
  | refl t => rfl
  | symm t t' _ ih => exact ih.symm
  | trans t u t' _ _ ih ih' => exact ih.trans ih'

end Edit

/-! ### The canonical text -/

/-- The canonical text depends on the normal forms of parameters and body alone. -/
theorem canonicalText_eq_of_normalize (target : Target) {c c' : Candidate}
    (hasync : c.isAsync = c'.isAsync) (hgen : c.isGenerator = c'.isGenerator)
    (hparams : c.params.map normalize = c'.params.map normalize)
    (hbody : normalize c.body = normalize c'.body) :
    canonicalText target c = canonicalText target c' := by
  have hparam : ∀ p, normalize (madeParam p) = made .param [.list [], normalize p] := fun _ => rfl
  have hlist : c.paramList.map normalize = c'.paramList.map normalize := by
    simpa only [Candidate.paramList, List.map_map, Function.comp_def, hparam] using
      congrArg (List.map fun p => made .param [.list [], p]) hparams
  have hfunction : normalize c.toFunction = normalize c'.toFunction := by
    simp only [Candidate.toFunction, madeFunction, made, normalize, normalizeAll_eq, hasync, hgen,
      hlist, hbody]
  have hdecl : ∀ f, normalize (made (.funcDecl false) [madeIdent canonicalName, f]) =
      made (.funcDecl false) [madeIdent canonicalName, normalize f] := fun _ => rfl
  rw [canonicalText, canonicalText, canonicalModule, canonicalModule, hdecl, hdecl, hfunction]

/-- Parameters that edits lead from one to the other have the same normal forms. -/
theorem map_normalize_of_related {ts ts' : List Ast} (h : List.Forall₂ Edit.Related ts ts') :
    ts.map normalize = ts'.map normalize := by
  induction h with
  | nil => rfl
  | cons h _ ih => rw [List.map_cons, List.map_cons, h.normalize_eq, ih]

/-- The block of an arrow whose body is an expression returns that expression. -/
theorem arrowBody_of_isOperand {e : Ast} (h : isOperand e = true) :
    Candidate.arrowBody e = .node .block e.span [.node .returnStmt e.span [e.unparen]] := by
  cases e with
  | absent | list => cases h
  | node k s cs => cases k with
    | block => cases h
    | _ => rfl

/-- **The canonical text is a normal form.** An arrow whose body is an expression has the canonical
text of the arrow whose block returns that expression, and edits of parameters and body do not
change the canonical text, whatever the form, the name and the place of the function. -/
theorem canonicalText_edited (target : Target) :
    (∀ (isAsync : Bool) (s s' sb sr : Span) (params types types' : List Ast) (e : Ast),
      isOperand e = true →
      ∃ c c' : Candidate,
        Candidate.ofArrow (.node (.arrow isAsync) s (.list params :: e :: types)) = some c ∧
        Candidate.ofArrow (.node (.arrow isAsync) s'
          (.list params :: .node .block sb [.node .returnStmt sr [e.unparen]] :: types')) = some c' ∧
        canonicalText target c = canonicalText target c') ∧
    ∀ c c' : Candidate, c.isAsync = c'.isAsync → c.isGenerator = c'.isGenerator →
      List.Forall₂ Edit.Related c.params c'.params → Edit.Related c.body c'.body →
      canonicalText target c = canonicalText target c' := by
  refine ⟨?_, ?_⟩
  · intro isAsync s s' sb sr params types types' e he
    have hbody : normalize (Candidate.arrowBody e) =
        normalize (.node .block sb [.node .returnStmt sr [e.unparen]]) := by
      rw [arrowBody_of_isOperand he]
      rfl
    exact ⟨_, _, rfl, rfl, canonicalText_eq_of_normalize target rfl rfl rfl hbody⟩
  · intro c c' hasync hgen hparams hbody
    exact canonicalText_eq_of_normalize target hasync hgen (map_normalize_of_related hparams)
      hbody.normalize_eq

/-- The arrow `(x?: number) => { interface I {} return x as number; }`. -/
def sampleAnnotated : Candidate where
  kind := .arrow
  name := none
  params := [made (.bindName true) [madeIdent "x", made (.keywordType "number") []]]
  body := madeBlock [made (.interfaceDecl false) [madeIdent "I", .absent, .list [], .list []],
    madeReturn (made .asType [madeIdent "x", made (.keywordType "number") []])]
  span := ⟨10, 60⟩
  isAsync := false
  isGenerator := false

/-- The declaration `function f(x) { return x; }`. -/
def sampleBare : Candidate where
  kind := .declaration
  name := some "f"
  params := [madeBinding "x"]
  body := madeBlock [madeReturn (madeIdent "x")]
  span := ⟨1, 30⟩
  isAsync := false
  isGenerator := false

/-- The edits that take the types from the arrow. -/
theorem related_sampleAnnotated : List.Forall₂ Edit.Related sampleAnnotated.params sampleBare.params ∧
    Edit.Related sampleAnnotated.body sampleBare.body := by
  have hparam : Edit.Related (made (.bindName true) [madeIdent "x", made (.keywordType "number") []])
      (madeBinding "x") :=
    .rel _ _ (.nameType ..)
  have hinserted : Edit true (madeBlock [madeReturn (made .asType
      [madeIdent "x", made (.keywordType "number") []])]) sampleAnnotated.body :=
    .statement Span.made [] _ _ rfl
  have hwrapped : Edit true sampleBare.body (madeBlock [madeReturn (made .asType
      [madeIdent "x", made (.keywordType "number") []])]) :=
    .part Span.made [] [] rfl (.part Span.made [] [] rfl (.wrap Span.made (madeIdent "x") _ rfl rfl))
  exact ⟨.cons hparam .nil,
    .trans _ _ _ (.symm _ _ (.rel _ _ hinserted)) (.symm _ _ (.rel _ _ hwrapped))⟩

/-- The arrow with types and the declaration have one canonical text, and so have the arrows
`() => (x)` and `() => { return x; }`. -/
theorem canonicalText_sampleAnnotated :
    (∃ c c' : Candidate,
      Candidate.ofArrow (.node (.arrow false) ⟨1, 10⟩
        [.list [], madeParen (madeIdent "x"), .absent, .absent]) = some c ∧
      Candidate.ofArrow (.node (.arrow false) ⟨1, 20⟩
        [.list [], madeBlock [madeReturn (madeIdent "x")], .absent, .absent]) = some c' ∧
      canonicalText .es2022 c = canonicalText .es2022 c') ∧
    canonicalText .es2022 sampleAnnotated = canonicalText .es2022 sampleBare :=
  ⟨(canonicalText_edited .es2022).1 false ⟨1, 10⟩ ⟨1, 20⟩ Span.made Span.made [] _ _
      (madeParen (madeIdent "x")) rfl,
    (canonicalText_edited .es2022).2 sampleAnnotated sampleBare rfl rfl related_sampleAnnotated.1
      related_sampleAnnotated.2⟩

end Worklet
