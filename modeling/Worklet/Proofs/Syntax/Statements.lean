import Worklet.Proofs.Syntax.Exprs

/-!
# Statements are read in order

Principal results: `statementRule_reads`, `blockRule_reads` — the rules of statements are orderly.
-/

set_option autoImplicit false
set_option synthInstance.maxSize 10000000

namespace Worklet.Syntax

section

variable {l : List Nat} {go : Rules} [hgo : Orderly go] {lo : Nat}

theorem blockRule_reads : Reads marks (blockRule go) := by
  intro l
  refine .skip fun lo => .skip fun _ => ((many_reads ?_).marksAll l).bind fun stmts => ?_
  · intro l
    exact .skip fun _ => .ite (none_reads l) ((hgo.reads .statement).some l)
  · exact .skip fun _ => mk_brings rfl (by simp)

/-! ### Declarations of variables -/

theorem variable_reads : Reads marks (variable_ go) := by
  intro l
  refine .skip fun lo => (hgo.reads .target l).bind fun p => .skip fun typed => .skip fun _ => ?_
  refine .ite_skip fun isDefinite => (typeAnnotation?_reads _).bind fun ann => ?_
  refine .skip fun _ => .ite_bind (hgo.reads .assign _) (bare_brings rfl) fun v => ?_
  refine mk_brings rfl ?_
  split
  · exact marks_annotate_append_sublist ..
  · exact marks_annotate_append_sublist ..
  · simp

theorem declarators_reads : Reads marksAll (declarators go) :=
  (sepBy1_reads "," variable_reads).marksAll

theorem varStatement_reads (kind : VarKind) (isDeclare : Bool) :
    Reads marks (varStatement go lo kind isDeclare) := by
  intro l
  refine .skip fun _ => (declarators_reads l).bind fun ds => .skip fun _ => ?_
  exact mk_brings rfl (by simp)

instance : Looks usingWords := by simp only [usingWords]; infer_instance

theorem usingStatement_reads (words : Nat) : Reads marks (usingStatement go words) := by
  intro l
  have hrest : ∀ lo, Brings l (do
      let ds ← declarators go
      semicolon
      mk lo (.usingDecl (words == 2)) ds) fun t => l ++ marks t := fun lo =>
    (declarators_reads l).bind fun ds => .skip fun _ => mk_brings rfl (by simp)
  exact .skip fun lo => .skip fun _ => .ite (.skip fun _ => hrest lo) (hrest lo)

/-! ### Loops -/

theorem forEach_brings (isAwait : Bool) (left : Ast) :
    Brings (l ++ marks left) (forEach go lo isAwait left) fun t => l ++ marks t := by
  refine .skip fun _ => .ite ?_ (.skip fun _ => ?_)
  all_goals
    refine (hgo.reads _ _).bind fun right => .skip fun _ => ?_
    exact (hgo.reads .statement _).bind fun body => mk_brings rfl (by simp)

theorem forRest_brings (start : Ast) :
    Brings (l ++ marks start) (forRest go lo start) fun t => l ++ marks t := by
  refine .skip fun _ => .skip fun _ => ?_
  refine .ite_bind (bare_brings rfl) (hgo.reads .expr _) fun test => .skip fun _ => ?_
  refine .skip fun _ => .ite_bind (bare_brings rfl) (hgo.reads .expr _) fun step => ?_
  refine .skip fun _ => (hgo.reads .statement _).bind fun body => mk_brings rfl (by simp)

instance : Looks atForEach := by unfold atForEach; infer_instance

theorem forDeclared_reads {slo : Nat} (isAwait : Bool) {k : Kind} (hk : keepsOrder k = true) :
    Reads marks (forDeclared go lo slo isAwait k) := by
  intro l
  refine (declarators_reads.withContext l).bind fun ds => (mk_brings hk (.refl _)).bind fun left => ?_
  exact .skip fun _ => .ite (forEach_brings isAwait left) (forRest_brings left)

theorem forStatement_reads : Reads marks (forStatement go) := by
  intro l
  refine .skip fun lo => .skip fun _ => .skip fun isAwait => .skip fun _ => .skip fun _ => ?_
  refine .ite ?_ (.skip fun t => .skip fun words => .ite (.skip fun _ => ?_) ?_)
  · have h : Brings (l ++ marks .absent) (forRest go lo .absent) fun t => l ++ marks t :=
      forRest_brings .absent
    simpa using h
  · have h : Brings l (forDeclared go lo t.span.lo isAwait (.usingDecl (words == 2)))
        fun t => l ++ marks t := forDeclared_reads isAwait rfl l
    exact .ite (.skip fun _ => h) h
  split
  · exact .skip fun _ => forDeclared_reads isAwait rfl l
  · refine ((hgo.reads .expr).withContext l).bind fun e => .skip fun _ => .ite ?_ (forRest_brings e)
    exact (target_brings e).bind fun p => forEach_brings isAwait p

/-! ### Branches -/

theorem caseTest_reads : Reads marks (caseTest go) := by
  intro l
  refine .skip fun _ => .ite (bare_brings rfl) (.skip fun _ => hgo.reads .expr l)

theorem switchCase_reads : Reads marks (switchCase go) := by
  intro l
  refine .skip fun lo => (caseTest_reads l).bind fun test => .skip fun _ => ?_
  refine ((many_reads ?_).marksAll _).bind fun stmts => mk_brings rfl (by simp)
  intro l
  refine .skip fun _ => .skip fun _ => .skip fun _ => ?_
  exact .ite (none_reads l) ((hgo.reads .statement).some l)

theorem switchStatement_reads : Reads marks (switchStatement go) := by
  intro l
  refine .skip fun lo => .skip fun _ => .skip fun _ => (hgo.reads .expr l).bind fun v => ?_
  refine .skip fun _ => .skip fun _ => ((many_reads ?_).marksAll _).bind fun cases => ?_
  · intro l
    exact .skip fun _ => .ite (none_reads l) (switchCase_reads.some l)
  · exact .skip fun _ => mk_brings rfl (by simp)

theorem catchParam_reads : Reads marks (catchParam go) := by
  intro l
  refine .skip fun _ => .ite ?_ (bare_brings rfl)
  refine (hgo.reads .target l).bind fun p => (typeAnnotation?_reads _).bind fun ann => ?_
  refine .skip fun s => .skip fun _ => pure_brings ?_
  simpa using (marks_annotate_sublist false ann s.lastEnd p).append_left l

theorem catchClause?_reads : Reads marks (catchClause? go) := by
  intro l
  refine .skip fun lo => .skip fun _ => .ite ?_ (bare_brings rfl)
  refine (catchParam_reads l).bind fun param => (hgo.reads .block _).bind fun body => ?_
  exact mk_brings rfl (by simp)

theorem tryStatement_reads : Reads marks (tryStatement go) := by
  intro l
  refine .skip fun lo => .skip fun _ => (hgo.reads .block l).bind fun body => ?_
  refine (catchClause?_reads _).bind fun handler => .skip fun _ => ?_
  refine .ite_bind (hgo.reads .block _) (bare_brings rfl) fun finalizer => ?_
  exact .ite unexpected_bind_brings (mk_brings rfl (by simp))

theorem head_reads (word : String) : Reads marks (head go word) := by
  intro l
  refine .skip fun _ => .skip fun _ => (hgo.reads .expr l).bind fun e => ?_
  exact .skip fun _ => done_brings rfl

theorem jump_reads {k : Kind} (hk : keepsOrder k = true) : Reads marks (jump k) := by
  intro l
  refine .skip fun lo => .skip fun _ => .skip fun _ => ?_
  refine .ite_bind (bare_brings rfl) (bindingName_reads l) fun label => ?_
  exact .skip fun _ => mk_brings hk (by simp)

/-! ### Declarations of types -/

theorem interfaceDecl_reads (isDeclare : Bool) : Reads marks (interfaceDecl go lo isDeclare) := by
  have : Forward (interfaceDecl go lo isDeclare) := by simp only [interfaceDecl]; infer_instance
  refine .of_gives (.after fun _ => .after fun name => .after fun tps => .after fun _ => ?_)
  exact .ite_after fun bases => .after fun ms => mk_type_gives rfl

theorem typeAlias_reads (isDeclare : Bool) : Reads marks (typeAlias go lo isDeclare) := by
  have : Forward (typeAlias go lo isDeclare) := by simp only [typeAlias]; infer_instance
  refine .of_gives (.after fun _ => .after fun name => .after fun tps => .after fun _ => ?_)
  exact .after fun t => .after fun _ => mk_type_gives rfl

instance : Forward (enumMember go) := by
  simp only [enumMember]
  refine Forward.andThen fun lo => Forward.andThen fun t => ?_
  split <;> infer_instance

theorem enumDecl_reads (isDeclare isConst : Bool) :
    Reads marks (enumDecl go lo isDeclare isConst) := by
  have : Forward (enumDecl go lo isDeclare isConst) := by simp only [enumDecl]; infer_instance
  refine .of_gives (.after fun _ => .after fun name => .after fun _ => .after fun ms => ?_)
  exact mk_gives fun _ => rfl

instance : Forward (moduleBlock go) := by simp only [moduleBlock]; infer_instance

instance {fuel : Nat} : Forward (namespaceRest go fuel) := by
  induction fuel with
  | zero => exact inferInstanceAs (Forward (moduleBlock go))
  | succ fuel ih => simp only [namespaceRest]; infer_instance

theorem namespaceDecl_reads (word : NamespaceWord) (isDeclare : Bool) :
    Reads marks (namespaceDecl go lo word isDeclare) := by
  have : Forward (namespaceDecl go lo word isDeclare) := by
    refine Forward.andThen fun t => Forward.andThen fun _ => ?_
    split
    · infer_instance
    · refine Forward.andThen fun t => ?_
      split <;> infer_instance
  refine .of_gives (.after fun t => .after fun _ => ?_)
  split
  · exact .after fun body => mk_type_gives rfl
  · refine .after fun t => ?_
    split
    · refine .after fun name => .after fun _ => .ite (.after fun body => mk_type_gives rfl) ?_
      exact .after fun _ => .after fun body => mk_type_gives rfl
    · exact .after fun name => .after fun s => .after fun body => mk_type_gives rfl

theorem typedDeclaration?_reads (isDeclare : Bool) :
    Reads (fun o => o.elim [] marks) (typedDeclaration? go lo isDeclare) := by
  intro l
  refine .skip fun t => .skip fun after => ?_
  dsimp only
  split
  case h_1 => exact .ite ((interfaceDecl_reads isDeclare).some l) (none_reads l)
  case h_2 => exact .ite ((typeAlias_reads isDeclare).some l) (none_reads l)
  case h_3 => exact (enumDecl_reads isDeclare false).some l
  case h_4 => exact .ite (.skip fun _ => (enumDecl_reads isDeclare true).some l) (none_reads l)
  case h_5 => exact .ite (.skip fun _ => (classDecl_reads true isDeclare).some l) (none_reads l)
  case h_7 => split <;> exact .ite ((namespaceDecl_reads _ isDeclare).some l) (none_reads l)
  case h_9 => exact none_reads l
  all_goals exact .ite ((namespaceDecl_reads _ isDeclare).some l) (none_reads l)

theorem declared_reads : Reads marks (declared go lo) := by
  intro l
  refine .bind_option (typedDeclaration?_reads true) (fun d => done_brings rfl) ?_
  refine .skip fun t => ?_
  split
  · exact functionDecl_reads true l
  · exact functionDecl_reads true l
  · exact classDecl_reads false true l
  · split
    · exact varStatement_reads _ true l
    · exact unexpected_brings

instance : Looks opensDeclared := by
  refine Looks.andThen fun _ => Looks.andThen fun _ => ?_
  split
  · refine Looks.andThen fun after => ?_
    split
    · infer_instance
    · split <;> infer_instance
  · infer_instance

/-! ### The statement -/

theorem expressionStatement_reads : Reads marks (expressionStatement go) := by
  intro l
  refine .skip fun t => .skip fun _ => .ite ?_ ?_
  · refine (bindingName_reads l).bind fun label => .skip fun _ => ?_
    exact (hgo.reads .statement _).bind fun body => mk_brings rfl (by simp)
  · exact (hgo.reads .expr l).bind fun e => .skip fun _ => mk_brings rfl (by simp)

instance : Looks opensLet := by
  refine Looks.andThen fun after => ?_
  split <;> infer_instance

theorem untypedStatement_reads (t : Token) : Reads marks (untypedStatement go t) := by
  intro l
  unfold untypedStatement
  dsimp only
  split
  case h_1 => exact hgo.reads .block l
  case h_2 => exact .skip fun _ => mk_brings rfl (by simp)
  case h_3 =>
    refine .skip fun s => .ite ?_ unexpected_bind_brings
    exact (decorators_reads l).bind fun decs => .skip fun _ => classDecl_brings _ false
  case h_4 | h_5 => exact jump_reads rfl l
  case h_6 => exact .skip fun _ => .skip fun _ => mk_brings rfl (by simp)
  case h_7 =>
    refine .skip fun _ => (hgo.reads .statement l).bind fun body => (head_reads _ _).bind fun test => ?_
    refine .skip fun _ => mk_brings_of fun _ => ?_
    change (l ++ (marks body ++ marks test)).Sublist _
    rw [List.append_assoc]
  case h_8 => exact forStatement_reads l
  case h_9 => exact functionDecl_reads false l
  case h_10 => exact classDecl_reads false false l
  case h_11 =>
    refine (head_reads _ l).bind fun test => (hgo.reads .statement _).bind fun yes => ?_
    refine .skip fun _ => .ite_bind (hgo.reads .statement _) (bare_brings rfl) fun no => ?_
    exact mk_brings rfl (by simp)
  case h_12 =>
    refine .skip fun _ => .skip fun _ => ?_
    refine .ite_bind (bare_brings rfl) (hgo.reads .expr l) fun v => ?_
    exact .skip fun _ => mk_brings rfl (by simp)
  case h_13 => exact switchStatement_reads l
  case h_14 =>
    refine .skip fun _ => .skip fun _ => .ite unexpected_bind_brings ?_
    exact (hgo.reads .expr l).bind fun v => .skip fun _ => mk_brings rfl (by simp)
  case h_15 => exact tryStatement_reads l
  case h_16 | h_17 =>
    refine (head_reads _ l).bind fun e => (hgo.reads .statement _).bind fun body => ?_
    exact mk_brings rfl (by simp)
  case h_18 => exact varStatement_reads .var false l
  case h_19 => exact varStatement_reads .const false l
  case h_20 =>
    exact .skip fun _ => .ite (varStatement_reads .let false l) (expressionStatement_reads l)
  case h_21 => exact .skip fun _ => .ite (functionDecl_reads false l) (expressionStatement_reads l)
  case h_22 => exact expressionStatement_reads l

theorem statementRule_reads : Reads marks (statementRule go) := by
  intro l
  refine .skip fun t => .skip fun words => .ite (usingStatement_reads words l) (.skip fun _ => ?_)
  refine .ite (.skip fun _ => .ite (.skip fun _ => declared_reads l) ?_) (untypedStatement_reads t l)
  refine .bind_option (typedDeclaration?_reads false) (fun d => done_brings rfl) ?_
  exact untypedStatement_reads t l

end

end Worklet.Syntax
