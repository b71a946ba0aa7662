import Worklet.Proofs.Syntax.Functions

/-!
# Expressions are read in order

What stands to the left of an operator, a dot or an argument list was read before it, and is handed
to the rule that reads on: its words are behind.

Principal results: `exprRule_reads`, `assignRule_reads`, `binaryRule_reads`, `unaryRule_reads`,
`operandRule_reads`, `newOperandRule_reads` — the levels of the grammar of expressions are orderly.
-/

set_option autoImplicit false

namespace Worklet.Syntax

section

variable {l : List Nat} {go : Rules} {lo : Nat} {isAsync isGenerator : Bool}

theorem regexLit_reads : Reads marks regexLit := by
  intro l
  refine .get fun s => ?_
  dsimp only
  split
  · exact (failAt_brings _ _).at
  · refine (set_scan_brings (by omega)).bind fun _ => pure_brings ?_
    rw [marks_node (k := .regexLit _ _) rfl, marksAll_nil, List.append_nil]

variable [hgo : Orderly go]

theorem templateLit_reads : Reads marks (templateLit go) := by
  intro l
  refine .skip fun lo =>
    (templateParts_reads (hgo.reads .expr) l).bind_gives templateParts_gives fun parts h => ?_
  exact .skip fun _ => mk_brings rfl (by simp [h])

theorem spreadable_reads : Reads marks (spreadable go) := by
  intro l
  refine .skip fun lo => .skip fun _ => .ite ?_ (hgo.reads .assign l)
  exact (hgo.reads .assign l).bind fun e => mk_brings rfl (by simp)

theorem arrayLit_reads : Reads marks (arrayLit go) := by
  intro l
  refine .skip fun lo => .skip fun _ => Brings.bind ((many_reads ?_).marksAll.withContext l) fun es => ?_
  · intro l
    refine .skip fun _ => .ite (bare_brings rfl) ?_
    refine .skip fun _ => .ite (bare_brings rfl) ?_
    refine (spreadable_reads l).bind fun e => .skip fun _ => .ite (done_brings rfl) ?_
    exact .skip fun _ => done_brings rfl
  · exact .skip fun _ => mk_brings rfl (by simp)

theorem methodFrom_reads : Reads marks (methodFrom go lo isAsync isGenerator) := by
  intro l
  refine (propertyKey_reads l).bind fun key => (functionRest_reads _).bind fun f => ?_
  exact mk_brings rfl (by simp)

theorem getterFrom_reads : Reads marks (getterFrom go lo) := by
  intro l
  refine (propertyKey_reads l).bind fun key => .skip fun _ => .skip fun _ => ?_
  refine .skip_gives returnType?_gives fun ann hann => (functionBody_reads _).bind fun body => ?_
  exact mk_brings rfl (by simp [hann])

theorem setterFrom_reads : Reads marks (setterFrom go lo) := by
  intro l
  refine (propertyKey_reads l).bind fun key => (arrowParams_reads _).bind fun ps => ?_
  refine .skip fun _ => (functionBody_reads _).bind fun body => ?_
  split
  · exact mk_brings rfl (by simp)
  · exact mk_brings rfl (by simp)
  · exact failAt_brings _ _

theorem keyedProperty_reads (t : Token) : Reads marks (keyedProperty go t) := by
  intro l
  refine (propertyKey_reads l).bind fun key => .skip fun _ => .skip fun _ => .ite ?_ ?_
  · exact (functionRest_reads _).bind fun f => mk_brings rfl (by simp)
  refine .skip fun _ => .ite ?_ ?_
  · exact (hgo.reads .assign _).bind fun v => mk_brings rfl (by simp)
  split
  · refine .ite (.skip fun _ => .ite ?_ (pure_brings (by simp))) unexpected_brings
    exact (hgo.reads .assign _).bind fun v => mk_brings rfl (by simp)
  · exact unexpected_brings

theorem property_reads : Reads marks (property go) := by
  intro l
  refine .skip fun t => .skip fun after => .ite (spreadable_reads l) ?_
  refine .skip fun _ => .ite (methodFrom_reads l) (.ite (keyedProperty_reads t l) ?_)
  split
  · exact .skip fun _ => getterFrom_reads l
  · exact .skip fun _ => setterFrom_reads l
  · exact .ite (keyedProperty_reads t l) (.skip fun _ => .skip fun _ => methodFrom_reads l)
  · exact keyedProperty_reads t l

theorem objectLit_reads : Reads marks (objectLit go) := by
  intro l
  refine .skip fun lo => .skip fun _ => ?_
  refine ((sepUntil_reads _ _ property_reads).marksAll.withContext l).bind fun ps => ?_
  exact mk_brings rfl (by simp)

/-! ### Primary expressions -/

theorem parenthesized_reads : Reads marks (parenthesized go) := by
  intro l
  refine .skip fun lo => .skip fun _ => ((hgo.reads .expr).withContext l).bind fun e => ?_
  exact .skip fun _ => mk_brings rfl (by simp)

omit hgo in
theorem importExpr_reads : Reads marks importExpr := by
  intro l
  refine .skip fun t => .skip fun _ => .skip fun _ => .ite ?_ (.skip fun _ => .ite ?_ ?_)
  · exact .skip fun _ => mk_brings rfl (by simp)
  · exact pure_brings (by rw [marks_node rfl]; simp)
  · exact unexpected_brings

theorem primary_reads : Reads marks (primary go) := by
  intro l
  refine .current fun s => ?_
  dsimp only
  split
  case h_4 => exact Brings.at (.skip fun _ => .ite (advance_leaf rfl) unexpected_brings)
  case h_5 => exact (parenthesized_reads l).at
  case h_6 => exact (arrayLit_reads l).at
  case h_7 => exact (objectLit_reads l).at
  case h_8 => exact (templateLit_reads l).at
  case h_9 | h_10 => exact (regexLit_reads l).at
  case h_11 =>
    refine Brings.at (.skip fun _ => .ite ?_ (fail_brings _))
    exact (hgo.reads .markup l).bind fun e => .skip fun _ => done_brings rfl
  case h_12 =>
    refine Brings.at (.skip fun _ => .ite ?_ (fail_brings _))
    exact (decorators_reads l).bind fun decs => classExpr_brings
  case h_18 => exact (importExpr_reads l).at
  case h_19 => exact (functionExpr_reads l).at
  case h_20 => exact (classExpr_reads l).at
  case h_21 hk => exact .look fun after => .ite (functionExpr_reads l).at (advance_word hk rfl)
  case h_22 hk => exact .ite (advance_word hk rfl) (fail_brings _).at
  case h_23 => exact (fail_brings _).at
  all_goals exact (advance_leaf rfl).at

/-! ### Members and calls -/

theorem callArgs_reads : Reads marksAll (callArgs go) :=
  fun l => .skip fun _ => (sepUntil_reads _ _ spreadable_reads).marksAll.withContext l

omit hgo in
theorem memberName_reads : Reads marks memberName := by
  intro l
  refine .skip fun t => ?_
  split
  · exact advance_leaf rfl
  · exact anyWord_reads l

theorem computedMember_reads : Reads marks (computedMember go) := by
  intro l
  refine .skip fun lo => .skip fun _ => ((hgo.reads .expr).withContext l).bind fun e => ?_
  exact .skip fun _ => mk_brings rfl (by simp)

omit hgo in
theorem memberOf_brings (obj prop : Ast) :
    Brings (l ++ marks obj ++ marks prop) (memberOf obj prop) fun t => l ++ marks t := by
  unfold memberOf
  dsimp only
  split
  · exact mk_brings rfl (by simp)
  · exact .ite (mk_brings rfl (by simp)) (mk_brings rfl (by simp))

omit hgo in
theorem callOf_brings (callee : Ast) (args : List Ast) {typeArgs : Ast} (h : marks typeArgs = []) :
    Brings (l ++ marks callee ++ marksAll args) (callOf callee args typeArgs)
      fun t => l ++ marks t :=
  .ite (mk_brings rfl (by simp [h])) (mk_brings rfl (by simp [h]))

omit hgo in
instance : Looks endsInstantiation := by
  refine Looks.andThen fun t => ?_
  split
  · infer_instance
  · split <;> infer_instance

theorem typeArgsAfter_brings (noCall : Bool) (e : Ast) :
    Brings (l ++ marks e) (typeArgsAfter go noCall e) fun t => l ++ marks t := by
  refine .skip_gives typeArgs_gives fun args hargs => .skip fun _ => .ite ?_ ?_
  · exact (callArgs_reads _).bind fun as => callOf_brings e as hargs
  refine .skip fun _ => .ite ?_ ?_
  · exact (templateLit_reads _).bind fun t => mk_brings rfl (by simp [hargs])
  refine .skip fun _ => .skip fun _ => .ite ?_ unexpected_brings
  exact mk_brings rfl (by simp [hargs])

theorem subscript_brings (noCall : Bool) (e : Ast) :
    Brings (l ++ marks e) (subscript go noCall e) fun o => l ++ marks (o.getD e) := by
  refine .skip fun t => ?_
  split
  · refine .ite (done_brings rfl) (.skip fun _ => .skip fun _ => .ite ?_ (.skip fun _ => .ite ?_ ?_))
    · exact (callArgs_reads _).bind fun args => .some (mk_brings rfl (by simp))
    · exact (computedMember_reads _).bind fun p => .some (mk_brings rfl (by simp))
    · refine .skip fun _ => .skip fun _ => .ite ?_ ?_
      · refine .skip_gives typeArgs_gives fun targs h => (callArgs_reads _).bind fun args => ?_
        exact .some (mk_brings rfl (by simp [h]))
      · exact (memberName_reads _).bind fun p => .some (mk_brings rfl (by simp))
  · exact .skip fun _ => (memberName_reads _).bind fun p => .some (memberOf_brings e p)
  · exact (computedMember_reads _).bind fun p => .some (memberOf_brings e p)
  · refine .ite (done_brings rfl) ?_
    exact (callArgs_reads _).bind fun args => .some (callOf_brings e args rfl)
  · exact (templateLit_reads _).bind fun q => .some (mk_brings rfl (by simp))
  · exact .skip fun _ => .ite (.skip fun _ => .some (mk_brings rfl (by simp))) (done_brings rfl)
  · refine .skip fun _ => .ite ?_ (done_brings rfl)
    refine (attempt_brings (typeArgsAfter_brings noCall e)).weaken fun o => ?_
    cases o <;> exact .refl _
  · exact done_brings rfl

theorem newExpr_reads : Reads marks (newExpr go) := by
  intro l
  refine .skip fun lo => .skip fun _ => .skip fun _ => .ite ?_ ?_
  · exact .skip fun _ => mk_brings rfl (by simp)
  refine (hgo.reads .newOperand l).bind fun t => ?_
  have hcallee := marks_splitTypeArgs t
  have hargs := marks_splitTypeArgs_args t
  generalize splitTypeArgs t = parts at hcallee hargs ⊢
  refine .skip fun _ => .ite ?_ ?_
  · exact (callArgs_reads _).bind fun args => mk_brings rfl (by simp [hcallee, hargs])
  · exact mk_brings rfl (by simp [hcallee, hargs])

theorem newOperandRule_reads : Reads marks (newOperandRule go) := by
  intro l
  refine .skip fun _ => .ite_bind (newExpr_reads l) (primary_reads l) fun base => ?_
  exact iterate_brings (m := fun t => l ++ marks t) (subscript_brings true) base

theorem operandRule_reads : Reads marks (operandRule go) := by
  intro l
  refine .skip fun _ => .ite_bind (newExpr_reads l) (primary_reads l) fun base => ?_
  exact iterate_brings (m := fun t => l ++ marks t) (subscript_brings false) base

/-! ### Operators -/

omit hgo in
theorem target_brings (e : Ast) : Brings (l ++ marks e) (target e) fun t => l ++ marks t := by
  unfold target
  split
  · rename_i p hp
    exact pure_brings (by rw [marks_toTarget? hp])
  · exact failAt_brings _ _

theorem unaryRule_reads : Reads marks (unaryRule go) := by
  intro l
  have hunary : ∀ {lo : Nat} {k : Kind}, keepsOrder k = true → Brings l (do
      let e ← go .unary
      mk lo k [e]) fun t => l ++ marks t :=
    fun hk => (hgo.reads .unary l).bind fun e => mk_brings hk (by simp)
  refine .skip fun t => ?_
  dsimp only
  split
  · exact .skip fun _ => hunary rfl
  split
  · exact .skip fun _ => hunary rfl
  refine .ite (.skip fun _ => hunary rfl) (.skip fun _ => .skip fun _ => .ite ?_ ?_)
  · refine .skip fun _ => .skip fun _ => .skip fun _ => .ite ?_ ?_
    · exact .skip fun _ => .skip fun _ => hunary rfl
    · refine .skip_gives hgo.type_gives fun ty hty => .skip fun _ => ?_
      exact (hgo.reads .unary l).bind fun e => mk_brings rfl (by simp [hty])
  · refine (hgo.reads .operand l).bind fun e => .skip fun t => ?_
    split
    · refine .skip fun _ => .ite (done_brings rfl) (.skip fun _ => ?_)
      exact mk_brings rfl (by simp)
    · exact done_brings rfl

omit hgo in
instance : Looks operatorText := by
  refine Looks.andThen fun s => ?_
  split
  · dsimp only
    split <;> infer_instance
  all_goals infer_instance

omit hgo in
instance {extra : Nat} : Forward (advanceOperator extra) :=
  ⟨fun _ _ => modify_scan_brings (by omega)⟩

theorem operatorStep_brings (least : Nat) (left : Ast) :
    Brings (l ++ marks left) (operatorStep go least left) fun o => l ++ marks (o.getD left) := by
  refine .skip fun op => ?_
  dsimp only
  split
  · exact done_brings rfl
  · refine .skip fun s => .ite (done_brings rfl) (.ite (done_brings rfl) ?_)
    refine .skip fun _ => (hgo.reads _ _).bind fun right => ?_
    exact .some (mk_brings rfl (by simp))

theorem binaryStep_brings (least : Nat) (left : Ast) :
    Brings (l ++ marks left) (binaryStep go least left) fun o => l ++ marks (o.getD left) := by
  have hrest : Brings (l ++ marks left) (operatorStep go least left)
      fun o => l ++ marks (o.getD left) := operatorStep_brings least left
  refine .skip fun t => .skip fun _ => .ite (.ite (.skip fun _ => ?_) (.ite ?_ hrest)) hrest
  · refine .skip fun _ => .ite ?_ ?_
    · exact .some (mk_brings rfl (by simp))
    · refine (hgo.reads .type _).bind fun ty => ?_
      exact .some (mk_brings rfl (by simp))
  · refine .skip fun _ => (hgo.reads .type _).bind fun ty => ?_
    exact .some (mk_brings rfl (by simp))

theorem binaryRule_reads (least : Nat) : Reads marks (binaryRule go least) := by
  intro l
  refine (hgo.reads .unary l).bind fun left => ?_
  exact iterate_brings (m := fun t => l ++ marks t) (binaryStep_brings least) left

theorem conditional_reads : Reads marks (conditional go) := by
  intro l
  refine (hgo.reads _ l).bind fun test => .skip fun _ => .ite ?_ (done_brings rfl)
  refine .skip fun _ => ((hgo.reads .assign).withContext _).bind fun yes => .skip fun _ => ?_
  refine ((hgo.reads .assign).withContext _).bind fun no => mk_brings rfl (by simp)

/-! ### Arrow functions and assignment -/

theorem arrowHead_reads : Reads (fun head => marks head.1) (arrowHead go) := by
  intro l
  refine .skip fun tps => (arrowParams_reads l).bind fun ps => .skip fun s => ?_
  refine .ite_skip fun ret => .skip fun _ => .ite unexpected_bind_brings ?_
  exact .skip fun _ => done_brings rfl

omit hgo in
theorem arrowHead_gives :
    Gives (fun head => marks head.2.1 = [] ∧ marks head.2.2 = []) (arrowHead go) := by
  refine typeParams?_gives.bind fun tps htps => .after fun ps => .after fun s => ?_
  refine Gives.ite_bind (P := (marks · = [])) (pure_gives rfl) returnType?_gives ?_
  refine fun ret hret => .after fun _ => ?_
  refine .ite (.after fun _ => ?_) ?_
  all_goals exact .after fun _ => pure_gives ⟨htps, hret⟩

theorem arrowBody_reads : Reads marks (arrowBody go) := by
  intro l
  exact .skip fun _ => .ite (functionBody_reads l) ((hgo.reads .assign).withContext l)

theorem arrowFrom_brings (ps : Ast) {tps ret : Ast} (htps : marks tps = []) (hret : marks ret = []) :
    Brings (l ++ marks ps) (arrowFrom go lo isAsync (ps, tps, ret)) fun t => l ++ marks t :=
  (arrowBody_reads _).bind fun body => mk_brings rfl (by simp [htps, hret])

theorem plainArrow_reads : Reads marks (plainArrow go lo isAsync) := by
  intro l
  refine (bindingName_reads l).bind fun name => .skip fun _ => ?_
  refine (arrowBody_reads _).bind fun body => mk_brings rfl (by simp)

omit hgo in
instance : Looks opensTypeParams := by simp only [opensTypeParams]; infer_instance

theorem arrowAfter?_reads {head : Parser (Ast × Ast × Ast)}
    (hr : Reads (fun head => marks head.1) head)
    (hg : Gives (fun head => marks head.2.1 = [] ∧ marks head.2.2 = []) head) :
    Reads (fun o => o.elim [] marks) (arrowAfter? go lo isAsync head) := by
  intro l
  refine (attempt_brings (hr l)).bind_gives (attempt_gives hg) fun o ho => ?_
  cases o with
  | none => exact bare_brings rfl
  | some head =>
    obtain ⟨ps, tps, ret⟩ := head
    obtain ⟨htps, hret⟩ := ho _ rfl
    exact (arrowFrom_brings ps htps hret).bind fun t => done_brings rfl

theorem listedArrow?_reads (t : Token) : Reads (fun o => o.elim [] marks) (listedArrow? go t) := by
  intro l
  refine .skip fun _ => .ite ?_ (bare_brings rfl)
  exact arrowAfter?_reads arrowHead_reads arrowHead_gives l

theorem arrow?_reads : Reads (fun o => o.elim [] marks) (arrow? go) := by
  intro l
  have hplain : ∀ (lo : Nat) (isAsync : Bool), Brings l (do
      return some (← plainArrow go lo isAsync)) fun o => l ++ o.elim [] marks :=
    fun _ _ => plainArrow_reads.some l
  refine .skip fun t => .skip fun after => .ite (hplain _ _) (.ite ?_ (listedArrow?_reads t l))
  have hasync : Brings l (do
      if after.kind.isPunct "(" || (after.kind.isPunct "<" && (← isTyped)) then
        return ← arrowAfter? go t.span.lo true (do advance; arrowHead go)
      listedArrow? go t) fun o => l ++ o.elim [] marks := by
    refine .skip fun _ => .ite ?_ (listedArrow?_reads t l)
    exact arrowAfter?_reads (fun l => .skip fun _ => arrowHead_reads l)
      (.after fun _ => arrowHead_gives) l
  exact .ite (.skip fun _ => .ite (.skip fun _ => hplain _ _) hasync) hasync

theorem yieldExpr_reads : Reads marks (yieldExpr go) := by
  intro l
  refine .skip fun lo => .skip fun _ => .skip fun t => .ite (mk_brings rfl (by simp)) ?_
  exact .skip fun _ => (hgo.reads .assign l).bind fun e => mk_brings rfl (by simp)

theorem assignRule_reads : Reads marks (assignRule go) := by
  intro l
  refine .skip fun s => .skip fun _ => .ite (yieldExpr_reads l) ?_
  refine .bind_option arrow?_reads (fun a => done_brings rfl) ?_
  refine (conditional_reads l).bind fun left => .skip fun op => ?_
  dsimp only
  split
  · exact done_brings rfl
  · refine (target_brings left).bind fun p => .skip fun _ => ?_
    exact (hgo.reads .assign _).bind fun right => mk_brings rfl (by simp)

theorem exprRule_reads : Reads marks (exprRule go) := by
  intro l
  refine (hgo.reads .assign l).bind fun first => .skip fun _ => .ite ?_ (done_brings rfl)
  refine ((many_reads ?_).marksAll _).bind fun others => mk_brings rfl (by simp)
  intro l
  exact .skip fun _ => .ite ((hgo.reads .assign).some l) (none_reads l)

end

end Worklet.Syntax
