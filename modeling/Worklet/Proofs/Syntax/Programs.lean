import Worklet.Proofs.Syntax.Statements

/-!
# Programs are read in order

The rules of modules are orderly, and so are the rules tied together: of every file that can be
read, the words of its tree stand one after the other.

Principal results: `parse_orderly` — the rules are orderly at every depth; `marks_module_ordered` —
the words of a program, from first to last.
-/

set_option autoImplicit false
set_option synthInstance.maxSize 10000000

namespace Worklet.Syntax

section

variable {go : Rules} {lo : Nat}

instance : Looks marksType := by
  simp only [marksType]
  infer_instance

instance : Looks importIsType := by
  simp only [importIsType]
  infer_instance

instance : Forward importSpecifier := by simp only [importSpecifier]; infer_instance

instance : Forward importAll := by unfold importAll; infer_instance

instance : Forward importSpecifiers := by unfold importSpecifiers; infer_instance

instance : Forward importClause := by simp only [importClause]; infer_instance

theorem entityName_reads : Reads marks entityName := by
  intro l
  refine .skip fun lo => (anyIdent_reads l).bind fun first => ?_
  refine iterate_brings (m := fun t => l ++ marks t) (fun left => ?_) first
  refine .skip fun _ => .ite ((anyWord_reads _).bind fun right => ?_) (done_brings rfl)
  exact .some (mk_brings rfl (by simp))

theorem namedEntity_reads : Reads marks namedEntity := by
  intro l
  refine .skip fun lo => .skip fun after => .skip fun _ => .ite ?_ (entityName_reads l)
  refine .skip fun _ => .skip fun _ => (stringLit_reads l).bind fun s => .skip fun _ => ?_
  exact mk_brings rfl (by simp)

theorem importEquals_reads (isExport isType : Bool) :
    Reads marks (importEquals lo isExport isType) := by
  intro l
  refine (bindingName_reads l).bind fun name => .skip fun _ => ?_
  exact (namedEntity_reads _).bind fun ref => .skip fun _ => mk_brings rfl (by simp)

theorem exportSpecifier_reads : Reads marks exportSpecifier := by
  intro l
  have hrest : ∀ (lo : Nat) (isType : Bool), Brings l (do
      let name ← exportedName
      if ← eatWord "as" then
        let exported ← exportedName
        mk lo (.exportSpecifier isType) [name, exported]
      else mk lo (.exportSpecifier isType) [name, .absent]) fun t => l ++ marks t := by
    intro lo isType
    refine (exportedName_reads l).bind fun name => .skip fun _ => .ite ?_ (mk_brings rfl (by simp))
    exact (exportedName_reads _).bind fun exported => mk_brings rfl (by simp)
  exact .skip fun lo => .skip fun isType => .ite (.skip fun _ => hrest lo isType) (hrest lo isType)

variable [hgo : Orderly go]

theorem importAttributes_reads : Reads marks (importAttributes go) := by
  intro l
  refine .skip fun _ => .skip fun _ => .skip fun _ => .ite ?_ (bare_brings rfl)
  exact .skip fun _ => objectLit_reads l

theorem moduleSource_reads : Reads (fun source => marks source.1 ++ marks source.2) (moduleSource go) := by
  intro l
  refine (stringLit_reads l).bind fun source => (importAttributes_reads _).bind fun attrs => ?_
  exact .skip fun _ => pure_brings (by simp)

instance : Forward (moduleSource go) := moduleSource_reads.forward

theorem importRest_reads (isType : Bool) : Reads marks (importRest go lo isType) := by
  intro l
  refine .skip fun _ => .skip fun _ => .skip fun _ => .ite (importEquals_reads false isType l) ?_
  refine .skip fun specs => .skip fun _ => .skip fun source => mk_brings_of fun _ => ?_
  change (l ++ []).Sublist l
  rw [List.append_nil]

theorem importDecl_reads : Reads marks (importDecl go) := by
  intro l
  refine .skip fun lo => .skip fun _ => .skip fun t => ?_
  split
  · refine .skip fun source => mk_brings_of fun _ => ?_
    change (l ++ []).Sublist l
    rw [List.append_nil]
  · refine .skip fun isType => .ite (.skip fun _ => ?_) ?_
    all_goals exact importRest_reads isType l

theorem exportNames_reads (isType : Bool) : Reads marks (exportNames go lo isType) := by
  intro l
  refine .skip fun _ => (many_reads (m := fun spec => marks spec.1) ?_ l).bind fun specs => ?_
  · intro l
    refine .skip fun _ => .ite (none_reads l) ?_
    refine (exportSpecifier_reads l).bind fun spec => .skip fun _ => .ite (done_brings rfl) ?_
    refine .skip fun s => .skip fun _ => .skip fun _ => .skip fun s' => ?_
    exact done_brings rfl
  have hnames : marksAll (specs.map (·.1)) = specs.flatMap fun spec => marks spec.1 := by
    rw [marksAll_eq_flatMap, List.flatMap_map]
  refine .skip fun _ => .skip fun _ => .ite ?_ ?_
  · refine (moduleSource_reads _).bind fun source => mk_brings rfl ?_
    simp [hnames]
  · refine .skip fun _ => .skip fun _ => mk_brings rfl ?_
    simp [hnames]

theorem exportStar_reads (isType : Bool) : Reads marks (exportStar go lo isType) := by
  intro l
  refine .skip fun slo => .skip fun _ => .skip fun _ => .ite ?_ (.skip fun _ => ?_)
  · refine (exportedName_reads l).bind fun name => ?_
    refine Brings.bind (m := fun t => l ++ marks t) (mk_brings rfl (by simp)) fun spec => ?_
    refine .skip fun _ => (moduleSource_reads _).bind fun source => mk_brings rfl (by simp)
  · exact (moduleSource_reads l).bind fun source => mk_brings rfl (by simp)

theorem exportDefault_reads : Reads marks (exportDefault go lo) := by
  intro l
  have hdecl : ∀ {pre : List Nat} {p : Parser Ast}, (Brings pre p fun t => l ++ marks t) →
      Brings pre (do let d ← p; mk lo .exportDefaultDecl [d]) fun t => l ++ marks t :=
    fun h => h.bind fun d => mk_brings rfl (by simp)
  have hexpr : Brings l (do
      let e ← go .assign
      semicolon
      mk lo .exportDefaultExpr [e]) fun t => l ++ marks t :=
    (hgo.reads .assign l).bind fun e => .skip fun _ => mk_brings rfl (by simp)
  refine .skip fun _ => .skip fun t => .skip fun after => .ite (hdecl (functionExpr_reads l)) ?_
  refine .skip fun _ => .ite ?_ (.skip fun _ => .ite (.ite ?_ (.ite ?_ hexpr)) hexpr)
  · exact (decorators_reads l).bind fun decs => hdecl classExpr_brings
  · have hclass : Brings (l ++ marksAll []) (classRest go t.span.lo [] true)
        fun c => l ++ marks c.2 := classRest_brings true
    rw [marksAll_nil, List.append_nil] at hclass
    refine .skip fun _ => hclass.bind fun c => hdecl (mk_brings_of fun _ => .refl _)
  · exact hdecl (interfaceDecl_reads false l)

theorem untypedDeclaration_reads (t : Token) : Reads marks (untypedDeclaration go t) := by
  intro l
  unfold untypedDeclaration
  dsimp only
  split
  · exact functionDecl_reads false l
  · exact functionDecl_reads false l
  · exact classDecl_reads false false l
  · refine .skip fun s => .ite ?_ unexpected_bind_brings
    exact (decorators_reads l).bind fun decs => .skip fun _ => classDecl_brings _ false
  · split
    · exact varStatement_reads _ false l
    · exact unexpected_brings

theorem declaration_reads : Reads marks (declaration go) := by
  intro l
  refine .skip fun t => .skip fun _ => .ite ?_ (untypedDeclaration_reads t l)
  refine .skip fun _ => .ite (.skip fun _ => declared_reads l) ?_
  refine .bind_option (typedDeclaration?_reads false) (fun d => done_brings rfl) ?_
  exact untypedDeclaration_reads t l

theorem exportedDecl_reads : Reads marks (exportedDecl go lo) :=
  fun l => (declaration_reads l).bind fun d => mk_brings rfl (by simp)

theorem exportDecl_reads : Reads marks (exportDecl go) := by
  intro l
  refine .skip fun lo => .skip fun _ => .skip fun _ => .ite (exportStar_reads false l) ?_
  refine .skip fun _ => .ite (exportNames_reads false l) ?_
  refine .skip fun _ => .ite (exportDefault_reads l) (.skip fun _ => .ite ?_ (exportedDecl_reads l))
  refine .skip fun after => .skip fun _ => .ite ?_ (.skip fun _ => .ite ?_ ?_)
  · exact (hgo.reads .expr l).bind fun e => .skip fun _ => mk_brings rfl (by simp)
  · refine .skip fun _ => .skip fun _ => (anyIdent_reads l).bind fun name => .skip fun _ => ?_
    exact mk_brings rfl (by simp)
  refine .skip fun _ => .ite (.skip fun _ => .skip fun isType => .ite (.skip fun _ => ?_) ?_) ?_
  · exact importEquals_reads true isType l
  · exact importEquals_reads true isType l
  refine .skip fun _ => .ite (.skip fun _ => exportNames_reads true l) ?_
  exact .skip fun _ => .ite (.skip fun _ => exportStar_reads true l) (exportedDecl_reads l)

theorem itemRule_reads : Reads marks (itemRule go) := by
  intro l
  refine .skip fun t => .ite (.skip fun after => ?_) (.ite (exportDecl_reads l) ?_)
  · exact .ite (hgo.reads .statement l) (importDecl_reads l)
  · exact hgo.reads .statement l

theorem readItems_reads : Reads marksAll (readItems go) := by
  refine (many_reads fun l => .skip fun t => .ite (none_reads l) ?_).marksAll
  exact (hgo.reads .item).some l

end

/-! ### The rules tied together -/

theorem rule_orderly (go : Rules) [Orderly go] : Orderly (rule go) where
  reads goal := by
    cases goal with
    | expr => exact exprRule_reads
    | assign => exact assignRule_reads
    | binary least => exact binaryRule_reads least
    | unary => exact unaryRule_reads
    | operand => exact operandRule_reads
    | newOperand => exact newOperandRule_reads
    | target => exact bindingTarget_reads
    | element => exact bindingElement_reads
    | type => exact typeRule_reads
    | typeOperator => exact typeOperatorRule_reads
    | block => exact blockRule_reads
    | statement => exact statementRule_reads
    | item => exact itemRule_reads
    | markup => exact markupRule_reads
  type_gives := typeRule_gives
  typeOperator_gives := typeOperatorRule_gives

/-- Whatever the bound on nesting, the words of what is read follow each other. -/
theorem parse_orderly (depth : Nat) : Orderly (parse depth) := by
  induction depth with
  | zero => exact ⟨fun _ _ => fail_brings _, fail_gives _, fail_gives _⟩
  | succ depth ih => exact rule_orderly (parse depth)

theorem start_behind (dialect : Dialect) (text : List Char) (pos : Nat) :
    Behind [] (State.start dialect text pos) := by
  refine ⟨?_, .nil, nofun⟩
  obtain ⟨h₁, h₂, h₃⟩ := State.scan_sound
    { dialect, limit := text.length + 1, token := default, rest := [], lastEnd := pos,
      comments := .empty, context := {}, started := false } text pos ⟨false, false⟩
  exact ⟨h₁, h₂, h₃⟩

/-- The words of a program stand one after the other. -/
theorem marks_module_ordered {filename source : String} {p : Program}
    (h : Program.parse filename source = .ok p) : (marks p.module).Pairwise (· < ·) := by
  unfold Program.parse at h
  dsimp only at h
  split at h
  · rename_i module s hread
    cases h
    unfold readModule at hread
    dsimp only at hread
    split at hread
    · rename_i items s₁ hitems
      cases hread
      have := parse_orderly (40 * ((dropMark source.toList).length + 10))
      have hbehind := readItems_reads [] (start_behind _ _ _) hitems
      rw [marks_node (k := .module _) rfl]
      exact hbehind.ordered
    · cases hread
  · cases h

end Worklet.Syntax
