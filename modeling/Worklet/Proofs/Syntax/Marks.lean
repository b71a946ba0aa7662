import Worklet.Proofs.Syntax.Reading
import Worklet.Scope.Outline

/-!
# Where the words of a tree stand

Some nodes do not hold their parts in the order of the text: the decorators of a method stand
before its key, those of a property come last, a class holds its members before the class that
it extends, and a loop that tests at its end holds the test before the body.
-/

set_option autoImplicit false

namespace Worklet.Syntax

mutual

/-- Where the words of a tree stand, in the order of the text. The name of a class does not count,
and types, imports and enumerations have none. -/
def marks : Ast → List Nat
  | .absent => []
  | .list ts => marksAll ts
  | .node (.ident _) s _ => [s.lo]
  | .node (.word _) s cs => s.lo :: marksAll cs
  | .node (.classMethod ..) _ [key, .node (.function ..) _ (ps :: ds :: body :: _)] =>
    marks ds ++ marks key ++ marks ps ++ marks body
  | .node (.function ..) _ (ps :: ds :: body :: _) => marks ds ++ marks ps ++ marks body
  | .node (.classDecl _) _ [_, c] => marks c
  | .node .classExpr _ [_, c] => marks c
  | .node (.class_ _) _ (ds :: ms :: base :: rest) =>
    marks ds ++ marks base ++ marks ms ++ marksAll rest
  | .node (.classProp _) _ [key, value, ann, ds] =>
    marks ds ++ marks key ++ marks value ++ marks ann
  | .node (.accessorProp _) _ [key, value, ann, ds] =>
    marks ds ++ marks key ++ marks value ++ marks ann
  | .node .doWhileStmt _ [test, body] => marks body ++ marks test
  | .node (.importDecl _) _ (.list _ :: _) => []
  | .node (.enumDecl ..) _ _ => []
  | .node k _ cs => if isTypeKind k then [] else marksAll cs

def marksAll : List Ast → List Nat
  | [] => []
  | t :: ts => marks t ++ marksAll ts

end

@[simp]
theorem marks_absent : marks .absent = [] := rfl

@[simp]
theorem marks_list (ts : List Ast) : marks (.list ts) = marksAll ts := rfl

@[simp]
theorem marks_ident (n : String) (s : Span) (cs : List Ast) :
    marks (.node (.ident n) s cs) = [s.lo] := rfl

@[simp]
theorem marks_word (n : String) (s : Span) (cs : List Ast) :
    marks (.node (.word n) s cs) = s.lo :: marksAll cs := rfl

@[simp]
theorem marks_bindName (o : Bool) (s : Span) (cs : List Ast) :
    marks (.node (.bindName o) s cs) = marksAll cs := rfl

theorem marks_function (isAsync isGenerator : Bool) (s : Span) (ps ds body : Ast)
    (rest : List Ast) :
    marks (.node (.function isAsync isGenerator) s (ps :: ds :: body :: rest)) =
      marks ds ++ marks ps ++ marks body := rfl

theorem marks_class (isAbstract : Bool) (s : Span) (ds ms base : Ast) (rest : List Ast) :
    marks (.node (.class_ isAbstract) s (ds :: ms :: base :: rest)) =
      marks ds ++ marks base ++ marks ms ++ marksAll rest := rfl

theorem marks_doWhile (s : Span) (test body : Ast) :
    marks (.node .doWhileStmt s [test, body]) = marks body ++ marks test := rfl

theorem marks_classMethod (kind : MethodKind) (mods : Modifiers) (s s' : Span)
    (isAsync isGenerator : Bool) (key ps ds body : Ast) (rest : List Ast) :
    marks (.node (.classMethod kind mods) s
        [key, .node (.function isAsync isGenerator) s' (ps :: ds :: body :: rest)]) =
      marks ds ++ marks key ++ marks ps ++ marks body := rfl

theorem marks_classProp (mods : Modifiers) (s : Span) (key value ann ds : Ast) :
    marks (.node (.classProp mods) s [key, value, ann, ds]) =
      marks ds ++ marks key ++ marks value ++ marks ann := rfl

theorem marks_accessorProp (mods : Modifiers) (s : Span) (key value ann ds : Ast) :
    marks (.node (.accessorProp mods) s [key, value, ann, ds]) =
      marks ds ++ marks key ++ marks value ++ marks ann := rfl

@[simp]
theorem marksAll_nil : marksAll [] = [] := rfl

@[simp]
theorem marksAll_cons (t : Ast) (ts : List Ast) : marksAll (t :: ts) = marks t ++ marksAll ts := rfl

theorem marksAll_eq_flatMap (ts : List Ast) : marksAll ts = ts.flatMap marks := by
  induction ts with
  | nil => rfl
  | cons t ts ih => rw [marksAll_cons, ih, List.flatMap_cons]

theorem marksAll_eq_nil {ts : List Ast} (h : ∀ t ∈ ts, marks t = []) : marksAll ts = [] := by
  rw [marksAll_eq_flatMap]
  exact List.flatMap_eq_nil_iff.2 h

theorem marksAll_append (ts us : List Ast) : marksAll (ts ++ us) = marksAll ts ++ marksAll us := by
  simp only [marksAll_eq_flatMap, List.flatMap_append]

theorem marksAll_flatten (tss : List (List Ast)) : marksAll tss.flatten = tss.flatMap marksAll := by
  induction tss with
  | nil => rfl
  | cons ts tss ih => rw [List.flatten_cons, marksAll_append, ih, List.flatMap_cons]

theorem sublist_marksAll {u : Ast} {ts : List Ast} (h : u ∈ ts) :
    (marks u).Sublist (marksAll ts) := by
  rw [marksAll_eq_flatMap]
  exact List.sublist_flatten_of_mem (List.mem_map_of_mem h)

theorem pairwise_marksAll (ts : List Ast) :
    ts.Pairwise fun u v => (marks u ++ marks v).Sublist (marksAll ts) := by
  induction ts with
  | nil => exact .nil
  | cons t ts ih =>
    refine List.pairwise_cons.2 ⟨fun u hu => (sublist_marksAll hu).append_left _, ih.imp ?_⟩
    exact fun h => h.trans (List.sublist_append_right _ _)

/-- A node of the kind has the words of its parts, in the order of the parts. -/
def keepsOrder : Kind → Bool
  | .ident _ | .word _ | .classMethod .. | .function .. | .classDecl _ | .classExpr | .class_ _
  | .classProp _ | .accessorProp _ | .doWhileStmt | .importDecl _ | .enumDecl .. => false
  | k => !isTypeKind k

theorem marks_node {k : Kind} (hk : keepsOrder k = true) (s : Span) (cs : List Ast) :
    marks (.node k s cs) = marksAll cs := by
  cases k <;> cases hk <;> rfl

theorem marks_type {k : Kind} (hk : isTypeKind k = true) (s : Span) (cs : List Ast) :
    marks (.node k s cs) = [] := by
  cases k <;> cases hk <;> rfl

/-- Rules that read trees whose words follow each other, and types without words. -/
class Orderly (go : Rules) : Prop where
  reads : ∀ goal, Reads marks (go goal)
  type_gives : Gives (marks · = []) (go .type)
  typeOperator_gives : Gives (marks · = []) (go .typeOperator)

instance (priority := low) {go : Rules} {goal : Goal} [hgo : Orderly go] : Forward (go goal) :=
  (hgo.reads goal).forward

section

variable {l pre : List Nat} {lo : Nat} {k : Kind} {cs : List Ast} {s : State}

/-- A node that holds its parts in the order of the text. -/
theorem mk_brings (hk : keepsOrder k = true) (h : (l ++ marksAll cs).Sublist pre) :
    Brings pre (mk lo k cs) fun t => l ++ marks t :=
  .skip fun s => pure_brings (by rwa [marks_node hk])

theorem mk_brings_of {m : Ast → List Nat} (h : ∀ s, (m (.node k s cs)).Sublist pre) :
    Brings pre (mk lo k cs) m :=
  .skip fun s => pure_brings (h s)

theorem mk_type_gives (hk : isTypeKind k = true) : Gives (marks · = []) (mk lo k cs) :=
  mk_gives fun s => marks_type hk s cs

/-- A reader that goes forward and gives a tree without words. -/
theorem Reads.of_gives {p : Parser Ast} [hp : Forward p] (h : Gives (marks · = []) p) :
    Reads marks p := by
  intro l s hs t s' ht
  have hmarks : marks t = [] := h ht
  simpa [hmarks] using hp.brings l hs ht

theorem Reads.marksAll {p : Parser (List Ast)} (h : Reads (fun ts => ts.flatMap marks) p) :
    Reads marksAll p := by
  rwa [funext marksAll_eq_flatMap]

/-! ### Small parts -/

theorem advance_word {e : Ast} {w : String} {b : Bool} (ht : s.token.kind = .name w b)
    (he : marks e = [s.token.span.lo]) :
    BringsAt s l (do advance; return e) fun e => l ++ marks e :=
  (advance_place (by rw [ht]; rfl)).bind fun _ => pure_brings (by rw [he])

theorem advance_leaf {e : Ast} (he : marks e = []) :
    Brings l (do advance; return e) fun e => l ++ marks e :=
  .skip fun _ => pure_brings (by simp [he])

theorem bindingName_reads : Reads marks bindingName := by
  intro l
  refine .current fun s => ?_
  split
  · rename_i ht
    exact .ite (advance_word ht rfl) (unexpected_brings.at)
  · exact unexpected_brings.at

theorem anyWord_reads : Reads marks anyWord := by
  intro l
  refine .current fun s => ?_
  split
  · rename_i ht
    exact advance_word ht rfl
  · exact unexpected_brings.at

theorem anyIdent_reads : Reads marks anyIdent := by
  intro l
  refine .current fun s => ?_
  split
  · rename_i ht
    exact advance_word ht rfl
  · exact unexpected_brings.at

theorem stringLit_reads : Reads marks stringLit := by
  intro l
  refine .skip fun t => ?_
  split
  · exact advance_leaf rfl
  · exact unexpected_brings

theorem exportedName_reads : Reads marks exportedName := by
  intro l
  refine .skip fun t => ?_
  split
  · exact stringLit_reads l
  · exact anyIdent_reads l

instance : Forward bindingName := bindingName_reads.forward

instance : Forward anyWord := anyWord_reads.forward

instance : Forward anyIdent := anyIdent_reads.forward

instance : Forward stringLit := stringLit_reads.forward

instance : Forward exportedName := exportedName_reads.forward

variable {go : Rules} [hgo : Orderly go]

theorem propertyKey_reads : Reads marks (propertyKey go) := by
  intro l
  refine .current fun s => ?_
  split
  · rename_i ht
    exact advance_word ht rfl
  · exact (advance_leaf rfl).at
  · exact (advance_leaf rfl).at
  · exact (advance_leaf rfl).at
  · refine Brings.at ?_
    refine .skip fun _ => ((hgo.reads .assign).withContext l).bind fun e => ?_
    exact .skip fun _ => mk_brings rfl (by simp)
  · exact unexpected_brings.at

instance : Forward (propertyKey go) := propertyKey_reads.forward

theorem decorator_reads : Reads marks (decorator go) := by
  intro l
  refine .skip fun lo => .skip fun _ => .skip fun t => .ite ?_ unexpected_brings
  exact (hgo.reads .operand l).bind fun e => mk_brings rfl (by simp)

theorem decorators_reads : Reads marksAll (decorators go) := by
  refine (many_reads fun l => ?_).marksAll
  exact .skip fun s => .skip fun _ => .ite (decorator_reads.some l) (none_reads l)

instance : Forward (decorators go) := decorators_reads.forward

/-! ### Patterns -/

theorem restElement_reads : Reads marks (restElement go) := by
  intro l
  refine .skip fun lo => .skip fun _ => (hgo.reads .target l).bind fun p => ?_
  exact mk_brings rfl (by simp)

theorem patternProperty_reads : Reads marks (patternProperty go) := by
  intro l
  refine .skip fun _ => .ite (restElement_reads l) ?_
  refine .skip fun lo => .skip fun _ => .skip fun _ => .ite ?_ ?_
  · refine (bindingName_reads l).bind fun name => .skip fun _ => .ite ?_ ?_
    · refine ((hgo.reads .assign).withContext _).bind fun v => ?_
      exact mk_brings rfl (by simp)
    · exact mk_brings rfl (by simp)
  · refine (propertyKey_reads l).bind fun key => .skip fun _ => ?_
    exact (hgo.reads .element _).bind fun v => mk_brings rfl (by simp)

theorem bindingTarget_reads : Reads marks (bindingTarget go) := by
  intro l
  refine .skip fun t => .ite ?_ (.ite ?_ ?_)
  · refine .skip fun _ => ((many_reads ?_).marksAll l).bind fun es => ?_
    · intro l
      refine .skip fun _ => .ite (bare_brings rfl) ?_
      refine .skip fun _ => .ite (bare_brings rfl) ?_
      refine .skip fun _ => .ite_bind (restElement_reads l) (hgo.reads .element l) fun e => ?_
      refine .skip fun _ => .ite (done_brings rfl) ?_
      exact .skip fun _ => done_brings rfl
    · exact .skip fun _ => mk_brings rfl (by simp)
  · refine .skip fun _ => ((sepUntil_reads _ _ patternProperty_reads).marksAll l).bind fun ps => ?_
    exact mk_brings rfl (by simp)
  · refine .skip fun _ => .ite ?_ (fail_brings _)
    exact (anyIdent_reads l).bind fun name => pure_brings (by simp)

theorem bindingElement_reads : Reads marks (bindingElement go) := by
  intro l
  refine .skip fun lo => (hgo.reads .target l).bind fun p => .skip fun _ => .ite ?_ ?_
  · refine ((hgo.reads .assign).withContext _).bind fun v => ?_
    exact mk_brings rfl (by simp)
  · exact done_brings rfl

/-- An annotation takes the place of another. -/
theorem marks_annotate_sublist (isOptional : Bool) (ann : Ast) (hi : Nat) (p : Ast) :
    (marks (annotate isOptional ann hi p)).Sublist (marks p ++ marks ann) := by
  have hpair : ∀ a old : Ast,
      (marks a ++ (marks ann ++ [])).Sublist (marks a ++ (marks old ++ []) ++ marks ann) :=
    fun a old => by simp
  fun_cases annotate isOptional ann hi p with
  | case1 o s n old => exact hpair n old
  | case2 o s es old => exact hpair es old
  | case3 o s ps old => exact hpair ps old
  | case4 s p old => exact hpair p old
  | case5 p => exact List.sublist_append_left _ _

/-- The same, with words before the target and a tree after the annotation. -/
theorem marks_annotate_append_sublist (l : List Nat) (isOptional : Bool) (ann : Ast) (hi : Nat)
    (p v : Ast) : (l ++ marksAll [annotate isOptional ann hi p, v]).Sublist
      (l ++ marks p ++ marks ann ++ marks v) := by
  simpa using ((marks_annotate_sublist isOptional ann hi p).append_left l).append_right (marks v)

instance : Forward (typeAnnotation? go) := by unfold typeAnnotation?; infer_instance

omit hgo in
theorem typeAnnotation?_gives : Gives (marks · = []) (typeAnnotation? go) := by
  refine .after fun lo => .after fun _ => .after fun _ => .ite ?_ (pure_gives rfl)
  exact .after fun _ => .after fun _ => mk_type_gives rfl

theorem typeAnnotation?_reads : Reads marks (typeAnnotation? go) :=
  .of_gives typeAnnotation?_gives

theorem paramPattern_reads : Reads marks (paramPattern go) := by
  intro l
  refine .skip fun lo => .skip fun _ => .ite ?_ ?_
  · refine (restElement_reads l).bind fun p => (typeAnnotation?_reads _).bind fun ann => ?_
    refine .skip fun s => pure_brings ?_
    rw [List.append_assoc]
    exact (marks_annotate_sublist ..).append_left l
  · refine (hgo.reads .target l).bind fun p => .skip fun _ => ?_
    refine .ite_skip fun isOptional => (typeAnnotation?_reads _).bind fun ann => ?_
    refine .skip fun s => .skip fun _ => .ite ?_ (pure_brings ?_)
    · refine ((hgo.reads .assign).withContext _).bind fun v => mk_brings rfl ?_
      exact marks_annotate_append_sublist ..
    · rw [List.append_assoc]
      exact (marks_annotate_sublist ..).append_left l

instance : Forward (paramPattern go) := paramPattern_reads.forward

instance {fuel : Nat} {mods : Modifiers} : Forward (paramModifiers fuel mods) := by
  induction fuel generalizing mods with
  | zero => exact inferInstanceAs (Forward (pure mods))
  | succ fuel ih =>
    refine ⟨fun l => .skip fun t => .skip fun after => .ite ?_ (done_brings rfl)⟩
    split <;> first | exact .skip fun _ => ih.brings l | exact done_brings rfl

theorem formalParam_reads (ofConstructor : Bool) : Reads marks (formalParam go ofConstructor) := by
  intro l
  refine .skip fun lo => (decorators_reads l).bind fun decs => .skip fun _ => ?_
  refine .ite_skip fun mods => (paramPattern_reads _).bind fun p => .ite ?_ ?_
  · exact mk_brings rfl (by simp)
  · exact mk_brings rfl (by simp)

theorem formalParams_reads (ofConstructor : Bool) :
    Reads marksAll (formalParams go ofConstructor) :=
  fun l => .skip fun _ =>
    (sepUntil_reads _ _ (formalParam_reads ofConstructor)).marksAll.withContext l

theorem arrowParams_reads : Reads marksAll (arrowParams go) :=
  fun l => .skip fun _ => (sepUntil_reads _ _ paramPattern_reads).marksAll.withContext l

instance : Forward (arrowParams go) := arrowParams_reads.forward

mutual

/-- As a target of an assignment, an expression has the same words. -/
theorem marks_toTarget? {e p : Ast} (h : toTarget? e = some p) : marks p = marks e := by
  unfold toTarget? at h
  split at h
  case h_2 =>
    obtain ⟨ps, hps, hp⟩ := Option.bind_eq_some_iff.1 h
    cases hp
    exact (List.append_nil _).trans (marksAll_toElements? hps)
  case h_3 =>
    obtain ⟨ps, hps, hp⟩ := Option.bind_eq_some_iff.1 h
    cases hp
    exact (List.append_nil _).trans (marksAll_toProperties? hps)
  case h_5 =>
    obtain ⟨p', hp', hp⟩ := Option.bind_eq_some_iff.1 h
    cases hp
    exact congrArg (· ++ []) (marks_toTarget? hp')
  all_goals cases h
  all_goals rfl
termination_by sizeOf e
decreasing_by all_goals grind

theorem marksAll_toElements? {es ps : List Ast} (h : toElements? es = some ps) :
    marksAll ps = marksAll es := by
  unfold toElements? at h
  split at h
  · cases h
    rfl
  · obtain ⟨ps', hps, hp⟩ := Option.bind_eq_some_iff.1 h
    cases hp
    rw [marksAll_cons, marksAll_cons, marksAll_toElements? hps]
  · obtain ⟨p, hp, h⟩ := Option.bind_eq_some_iff.1 h
    obtain ⟨ps', hps, h⟩ := Option.bind_eq_some_iff.1 h
    cases h
    rw [marksAll_cons, marksAll_cons, marks_toTarget? hp, marksAll_toElements? hps]
termination_by sizeOf es
decreasing_by all_goals grind

theorem marksAll_toProperties? {es ps : List Ast} (h : toProperties? es = some ps) :
    marksAll ps = marksAll es := by
  unfold toProperties? at h
  split at h
  · cases h
    rfl
  · obtain ⟨p, hp, h⟩ := Option.bind_eq_some_iff.1 h
    obtain ⟨ps', hps, h⟩ := Option.bind_eq_some_iff.1 h
    cases h
    simp only [marksAll_cons, marks_node (k := .patProp) rfl, marks_node (k := .keyValue) rfl,
      marks_toTarget? hp, marksAll_toProperties? hps]
  · obtain ⟨ps', hps, hp⟩ := Option.bind_eq_some_iff.1 h
    cases hp
    simp [marks_node (k := .patShorthand) rfl, marks_node (k := .nameWithDefault) rfl,
      marksAll_toProperties? hps]
  · obtain ⟨ps', hps, hp⟩ := Option.bind_eq_some_iff.1 h
    cases hp
    simp [marks_node (k := .patShorthand) rfl, marksAll_toProperties? hps]
  · obtain ⟨p, hp, h⟩ := Option.bind_eq_some_iff.1 h
    obtain ⟨ps', hps, h⟩ := Option.bind_eq_some_iff.1 h
    cases h
    simp [marks_node (k := .restPat) rfl, marks_node (k := .spread) rfl, marks_toTarget? hp,
      marksAll_toProperties? hps]
  · cases h
termination_by sizeOf es
decreasing_by all_goals grind

end

end

end Worklet.Syntax
