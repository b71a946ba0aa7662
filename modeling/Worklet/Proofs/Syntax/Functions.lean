import Worklet.Proofs.Syntax.Types

/-!
# Functions, classes and elements are read in order

The decorators of a method and of a class are read before them, so they are behind when the rest is
read. An element of markup is no sequence of tokens: its text is passed over.

Principal results: `functionRest_reads`, `classRest_brings`, `markupRule_reads`.
-/

set_option autoImplicit false

namespace Worklet.Syntax

section

variable {l pre : List Nat} {go : Rules} {lo : Nat} {k : Kind} {decs : List Ast}
  {isAsync isGenerator : Bool}

theorem marks_splitTypeArgs (t : Ast) : marks (splitTypeArgs t).1 = marks t := by
  unfold splitTypeArgs
  split
  · exact (List.append_nil _).symm
  · rfl

theorem marks_splitTypeArgs_args (t : Ast) : marks (splitTypeArgs t).2 = [] := by
  unfold splitTypeArgs
  split <;> rfl

variable [hgo : Orderly go]

/-! ### Functions -/

theorem functionBody_reads : Reads marks (functionBody go isGenerator) :=
  (hgo.reads .block).withContext

theorem functionBody?_reads : Reads marks (functionBody? go isGenerator) := by
  intro l
  refine .skip fun _ => .ite (functionBody_reads l) (.skip fun _ => .ite ?_ unexpected_brings)
  exact .skip fun _ => bare_brings rfl

/-- Where the words of the parameters and the body of a function stand. -/
def bodyMarks : Ast → List Nat
  | .node (.function ..) _ (ps :: _ :: body :: _) => marks ps ++ marks body
  | _ => []

theorem functionRest_reads_body :
    Reads bodyMarks (functionRest go lo decs isAsync isGenerator) := by
  intro l
  refine .skip fun tps => ((formalParams_reads false).withContext l).bind fun ps => ?_
  refine .skip fun ret => (functionBody?_reads _).bind fun body => mk_brings_of fun s => ?_
  simp [bodyMarks]

omit hgo in
theorem functionRest_gives : Gives (fun f => ∃ s ps body rest,
    f = .node (.function isAsync isGenerator) s (ps :: .list decs :: body :: rest))
    (functionRest go lo decs isAsync isGenerator) := by
  refine .after fun tps => .after fun ps => .after fun ret => .after fun body => ?_
  exact mk_gives fun s => ⟨s, .list ps, body, [tps, ret], rfl⟩

/-- The decorators of a function were read before it, if it has any. -/
theorem functionRest_brings {m : Ast → List Nat} {f : Ast → Parser Ast}
    (h : ∀ s ps body rest, Brings (pre ++ (marks ps ++ marks body)) (f (.node (.function isAsync isGenerator) s
      (ps :: .list decs :: body :: rest))) m) :
    Brings pre (functionRest go lo decs isAsync isGenerator >>= f) m := by
  refine (functionRest_reads_body pre).bind_gives functionRest_gives ?_
  rintro _ ⟨s, ps, body, rest, rfl⟩
  exact h s ps body rest

theorem functionRest_reads : Reads marks (functionRest go lo [] isAsync isGenerator) := by
  intro l
  rw [← bind_pure (functionRest go lo [] isAsync isGenerator)]
  refine functionRest_brings fun s ps body rest => pure_brings ?_
  exact .refl _

instance : Forward functionHead := by unfold functionHead; infer_instance

theorem functionExpr_reads : Reads marks (functionExpr go) := by
  intro l
  refine .skip fun _ => .skip fun t => ?_
  refine .ite_bind (bindingName_reads l) (bare_brings rfl) fun name => ?_
  exact (functionRest_reads _).bind fun f => mk_brings rfl (by simp)

theorem functionDecl_reads (isDeclare : Bool) : Reads marks (functionDecl go lo isDeclare) := by
  intro l
  refine .skip fun _ => (bindingName_reads l).bind fun name => ?_
  exact (functionRest_reads _).bind fun f => mk_brings rfl (by simp)

/-! ### Classes -/

instance {fuel : Nat} {head : MemberHead} : Forward (memberHead fuel head) := by
  induction fuel generalizing head with
  | zero => exact inferInstanceAs (Forward (pure head))
  | succ fuel ih =>
    simp only [memberHead]
    refine Forward.andThen fun typed => Forward.andThen fun t => Forward.andThen fun after => ?_
    split
    · infer_instance
    · split <;> infer_instance

theorem classKey_reads : Reads marks (classKey go) := by
  intro l
  refine .skip fun t => ?_
  split
  · exact advance_leaf rfl
  · exact propertyKey_reads l

theorem classMember_reads : Reads marks (classMember go) := by
  intro l
  refine .skip fun lo => .skip fun _ => .ite (mk_brings rfl (by simp)) ?_
  refine (decorators_reads l).bind fun decs => .skip fun head => ?_
  refine .skip fun _ => .skip fun _ => .ite ?_ ?_
  · exact .skip fun _ => (functionBody_reads _).bind fun body => mk_brings rfl (by simp)
  refine .skip fun _ => .skip fun _ => .ite ?_ ?_
  · exact (indexSignature_reads _ _ _).bind fun sig => .skip fun _ => pure_brings (by simp)
  refine .skip fun isGenerator => (classKey_reads _).bind fun key => .skip fun typed => ?_
  refine .ite_skip fun isOptional => .skip fun _ => .skip fun _ => .ite (.ite ?_ ?_) ?_
  · refine (formalParams_reads true _).bind fun ps => (functionBody?_reads _).bind fun body => ?_
    exact mk_brings rfl (by simp)
  · refine functionRest_brings fun s ps body rest => mk_brings_of fun _ => ?_
    change (l ++ (marksAll decs ++ marks key ++ marks ps ++ marks body)).Sublist _
    simp
  · refine .ite_skip fun isDefinite => .skip_gives typeAnnotation?_gives fun ann hann => ?_
    refine .skip fun _ => .ite_bind ((hgo.reads .assign).withContext _) (bare_brings rfl) fun value => ?_
    have hmarks : (l ++ (marksAll decs ++ marks key ++ marks value ++ marks ann)).Sublist
        (l ++ marksAll decs ++ marks key ++ marks value) := by simp [hann]
    refine .skip fun _ => mk_brings_of fun _ => ?_
    dsimp only
    split
    · exact hmarks
    · exact hmarks

omit hgo in
theorem heritage_gives : Gives (marks · = []) (heritage go) := by
  refine .after fun lo => .after fun t => .ite ?_ ?_
  all_goals exact .after fun args => mk_gives fun _ => rfl

instance : Forward (heritage go) := by simp only [heritage]; infer_instance

theorem superclass_reads : Reads (fun b => marks b.1) (superclass go) := by
  intro l
  refine .skip fun _ => .ite ?_ (bare_brings rfl)
  refine .skip fun typed => (hgo.reads .operand l).bind fun e => .ite_skip fun args => ?_
  refine pure_brings ?_
  change (l ++ marks (splitTypeArgs e).1).Sublist (l ++ marks e)
  rw [marks_splitTypeArgs]

omit hgo in
theorem superclass_gives : Gives (fun b => marks b.2 = []) (superclass go) := by
  refine .after fun _ => .ite (.after fun typed => .after fun e => .ite ?_ ?_) (pure_gives rfl)
  · exact typeArgs?_gives.bind fun args h => pure_gives h
  · refine Gives.bind (P := (marks · = [])) (pure_gives (marks_splitTypeArgs_args e)) ?_
    exact fun args h => pure_gives h

/-- The decorators of a class were read before it. -/
theorem classRest_brings (isAbstract : Bool) :
    Brings (l ++ marksAll decs) (classRest go lo decs isAbstract) fun c => l ++ marks c.2 := by
  refine .skip fun _ => .skip fun typed => .skip fun t => .skip fun _ => .skip fun _ => ?_
  refine .ite_skip fun name => .skip_gives typeParams?_gives fun tps htps => ?_
  refine (superclass_reads _).bind_gives superclass_gives ?_
  rintro ⟨base, args⟩ hargs
  refine .skip fun _ => .ite_skip_gives (sepBy1_gives "," heritage_gives)
    (pure_gives (by simp)) fun implemented himpl => ?_
  refine .skip fun _ => Brings.bind ((many_reads ?_).marksAll.withContext _) fun members => ?_
  · intro l
    exact .skip fun _ => .ite (none_reads l) (classMember_reads.some l)
  · refine .skip fun _ => (mk_brings_of (m := fun c => l ++ marks c) fun _ => ?_).bind fun c =>
      (done_brings rfl)
    change (l ++ (marksAll decs ++ marks base ++ marksAll members ++
      (marks tps ++ (marks args ++ (marksAll implemented ++ []))))).Sublist _
    simp [show marks args = [] from hargs, htps, marksAll_eq_nil himpl]

theorem classExpr_brings : Brings (l ++ marksAll decs) (classExpr go lo decs) fun t => l ++ marks t :=
  (classRest_brings false).bind fun _ => mk_brings_of fun _ => .refl _

theorem classExpr_reads : Reads marks (classExpr go lo []) := by
  intro l
  have h : Brings (l ++ marksAll []) (classExpr go lo []) fun t => l ++ marks t := classExpr_brings
  rwa [marksAll_nil, List.append_nil] at h

theorem classDecl_brings {start : Nat} (isAbstract isDeclare : Bool) :
    Brings (l ++ marksAll decs) (classDecl go start lo decs isAbstract isDeclare)
      fun t => l ++ marks t := by
  refine .skip fun _ => .ite ?_ (.skip fun _ => unexpected_bind_brings)
  exact (classRest_brings isAbstract).bind fun _ => mk_brings_of fun _ => .refl _

theorem classDecl_reads {start : Nat} (isAbstract isDeclare : Bool) :
    Reads marks (classDecl go start lo [] isAbstract isDeclare) := by
  intro l
  have h : Brings (l ++ marksAll []) (classDecl go start lo [] isAbstract isDeclare)
      fun t => l ++ marks t := classDecl_brings isAbstract isDeclare
  rwa [marksAll_nil, List.append_nil] at h

/-! ### Markup -/

omit hgo in
instance : Forward advanceMarkup :=
  ⟨fun _ _ => modify_scan_brings id⟩

omit hgo in
instance {text : String} : Forward (expectMarkup text) := by unfold expectMarkup; infer_instance

omit hgo in
theorem markupName_reads : Reads (fun name => [name.2.lo]) markupName := by
  intro l
  refine .get fun s => ?_
  split
  · rename_i hk
    refine (set_scan_place (by rw [hk]; rfl) (Nat.le_add_right _ _)).bind fun _ => ?_
    exact done_brings rfl
  · exact unexpected_brings.at

omit hgo in
theorem elementName_reads : Reads marks elementName := by
  intro l
  refine (markupName_reads l).bind fun name => .skip fun _ => .ite ?_ ?_
  · refine .skip fun _ => (markupName_reads _).bind fun second => mk_brings rfl (by simp)
  · refine iterate_brings (m := fun t => l ++ marks t) (fun left => ?_)
      (.node (.ident name.1) name.2 [])
    refine .skip fun _ => .ite (.skip fun _ => (markupName_reads _).bind fun second => ?_) ?_
    · exact .some (mk_brings rfl (by simp))
    · exact done_brings rfl

omit hgo in
theorem attributeName_reads : Reads marks attributeName := by
  intro l
  refine (markupName_reads l).bind fun name => .skip fun _ => .ite ?_ (done_brings rfl)
  exact .skip fun _ => (markupName_reads _).bind fun second => mk_brings rfl (by simp)

omit hgo in
instance : Forward closingBrace := by simp only [closingBrace]; infer_instance

theorem container_reads : Reads marks (container go) := by
  intro l
  refine .skip fun lo => .skip fun _ => .skip fun _ => .ite ?_ (.skip fun _ => .ite ?_ ?_)
  · refine .skip fun s => .skip fun hi => pure_brings ?_
    simp [marks_node (k := .jsxContainer) rfl, marks_node (k := .jsxEmpty) rfl]
  · refine .skip fun _ => (hgo.reads .expr l).bind fun e => .skip fun hi => pure_brings ?_
    simp [marks_node (k := .jsxSpreadChild) rfl]
  · refine (hgo.reads .expr l).bind fun e => .skip fun hi => pure_brings ?_
    simp [marks_node (k := .jsxContainer) rfl]

theorem attributeValue_reads : Reads marks (attributeValue go) := by
  intro l
  refine .get fun s => ?_
  have hpos := skip_pos_le markupTrail (s.limit + 1)
    ⟨s.rest, s.token.span.hi, false, [], [], none⟩
  dsimp only at hpos ⊢
  split
  · refine .ite ?_ ?_
    · split
      · refine (set_scan_brings (by omega)).bind fun _ => pure_brings ?_
        simp [marks_node (k := .strLit _ _) rfl]
      · exact (failAt_brings _ _).at
    · refine Brings.at (.skip fun _ => .skip fun _ => .ite ?_ (.skip fun _ => .ite ?_ ?_))
      · exact (container_reads l).bind fun e => .skip fun _ => done_brings rfl
      · exact (hgo.reads .markup l).bind fun e => .skip fun _ => done_brings rfl
      · exact unexpected_brings
  · exact Brings.at (.skip fun _ => unexpected_brings)

theorem markupAttr_reads : Reads marks (markupAttr go) := by
  intro l
  refine .skip fun lo => .skip fun _ => .ite ?_ ?_
  · refine .skip fun _ => .skip fun slo => .skip fun _ => (hgo.reads .assign l).bind fun e => ?_
    exact (mk_brings rfl (by simp)).bind fun spread => .skip fun _ => done_brings rfl
  · refine (attributeName_reads l).bind fun name => .skip fun _ => .ite ?_ ?_
    · exact (attributeValue_reads _).bind fun v => mk_brings rfl (by simp)
    · exact mk_brings rfl (by simp)

theorem markupChildren_reads : Reads marksAll (markupChildren go) := by
  intro l
  refine (many_reads (m := marksAll) ?_ l).bind fun children =>
    pure_brings (by rw [marksAll_flatten])
  intro l
  refine .get fun s => .ite (Brings.at (bare_brings rfl)) ?_
  dsimp only
  have htext : ∀ c : Prop, [Decidable c] → ∀ text span,
      marksAll (if c then [] else [.node (.jsxText text) span []]) = [] := by
    intro c _ text span
    split <;> rfl
  refine (set_scan_brings (by omega)).bind fun _ => .skip fun _ => .ite ?_ (.skip fun _ => .ite ?_ ?_)
  · refine (container_reads l).bind fun e => pure_brings ?_
    simp [marksAll_append, htext]
  · refine .skip fun _ => .ite (pure_brings (by simp [htext])) ?_
    refine (hgo.reads .markup l).bind fun e => pure_brings ?_
    simp [marksAll_append, htext]
  · exact unexpected_brings

theorem markupRule_reads : Reads marks (markupRule go) := by
  intro l
  refine .skip fun lo => .skip fun _ => .skip fun _ => .ite ?_ ?_
  · refine (markupChildren_reads l).bind fun children => .skip fun _ => .skip fun _ => ?_
    refine .skip fun _ => .ite ?_ unexpected_bind_brings
    refine .skip fun t => pure_brings ?_
    rw [marks_node (k := .jsxFragment) rfl]
  refine (elementName_reads l).bind fun name => .skip fun _ => ?_
  refine .ite_skip_gives typeArgs?_gives (pure_gives rfl) fun args hargs => ?_
  refine ((many_reads ?_).marksAll _).bind fun attrs => .skip fun _ => .ite ?_ ?_
  · intro l
    exact .skip fun _ => .skip fun _ => .ite (none_reads l) (markupAttr_reads.some l)
  · refine .skip fun _ => .skip fun _ => .ite (.skip fun t => ?_) unexpected_bind_brings
    refine pure_brings ?_
    simp [marks_node (k := .jsxElement) rfl, marks_node (k := .jsxOpening true) rfl, hargs]
  · refine .skip fun t => (markupChildren_reads _).bind fun children => .skip fun clo => ?_
    refine .skip fun _ => .skip fun _ => (elementName_reads _).bind fun cname => .skip fun _ => ?_
    refine .ite (.skip fun t => pure_brings ?_) unexpected_bind_brings
    simp [marks_node (k := .jsxElement) rfl, marks_node (k := .jsxOpening false) rfl,
      marks_node (k := .jsxClosing) rfl, hargs]

end

end Worklet.Syntax
