import Worklet.Proofs.Syntax.Marks

/-!
# Types are read past

A type has no words that count, so a rule for a type goes forward and gives a tree without places.

Principal results: `typeRule_reads`, `typeOperatorRule_reads` — the rules of types are orderly;
`templateParts_reads` — so is a template, whose text is no sequence of tokens.
-/

set_option autoImplicit false
set_option synthInstance.maxSize 10000000

namespace Worklet.Syntax

section Types

variable {go : Rules} {lo : Nat} {k : Kind}

theorem typeParams?_gives : Gives (marks · = []) (typeParams? go) := by
  refine .after fun _ => .after fun _ => .ite ?_ (pure_gives rfl)
  exact .after fun _ => .after fun _ => .after fun _ => mk_gives fun _ => rfl

theorem typeArgs_gives : Gives (marks · = []) (typeArgs go) := by
  refine .after fun lo => .after fun _ => .after fun ts => .ite ?_ ?_
  · exact .after fun _ => mk_gives fun _ => rfl
  · exact mk_gives fun _ => rfl

theorem typeArgs?_gives : Gives (marks · = []) (typeArgs? go) :=
  .after fun _ => .after fun _ => .ite typeArgs_gives (pure_gives rfl)

theorem returnType?_gives : Gives (marks · = []) (returnType? go) := by
  refine .after fun lo => .after fun _ => .after fun _ => .ite ?_ (pure_gives rfl)
  exact .after fun _ => .after fun _ => mk_gives fun _ => rfl

variable [hgo : Orderly go]

instance : Forward (typeParam go) := by simp only [typeParam]; infer_instance

instance : Forward (typeParams go) := by simp only [typeParams]; infer_instance

instance : Forward (typeParams? go) := by simp only [typeParams?]; infer_instance

instance : Forward (typeArgs go) := by simp only [typeArgs]; infer_instance

instance : Forward (typeArgs? go) := by simp only [typeArgs?]; infer_instance

instance : Forward entityName := by simp only [entityName]; infer_instance

instance : Forward (typeOrPredicate go) := by simp only [typeOrPredicate]; infer_instance

instance : Forward (returnType? go) := by simp only [returnType?]; infer_instance

instance : Looks (opensFunctionType go) := by simp only [opensFunctionType]; infer_instance

instance : Forward (functionType go lo k) := by simp only [functionType]; infer_instance

instance : Looks opensIndexSignature := by simp only [opensIndexSignature]; infer_instance

theorem indexSignature_reads (isReadonly isStatic : Bool) :
    Reads marks (indexSignature go lo isReadonly isStatic) := by
  intro l
  refine .skip fun _ => ((sepUntil_reads _ _ paramPattern_reads).marksAll l).bind fun ps => ?_
  exact (typeAnnotation?_reads _).bind fun ann => mk_brings rfl (by simp)

instance {isReadonly isStatic : Bool} : Forward (indexSignature go lo isReadonly isStatic) :=
  (indexSignature_reads isReadonly isStatic).forward

instance : Forward (memberKey go) := by
  refine Forward.andThen fun t => ?_
  split <;> infer_instance

instance : Forward (signatureParams go) := by simp only [signatureParams]; infer_instance

instance : Forward memberEnd := by simp only [memberEnd]; infer_instance

instance : Looks opensKey := by
  refine Looks.andThen fun t => ?_
  split <;> infer_instance

instance : Forward (typeMember go) := by simp only [typeMember]; infer_instance

instance : Forward (typeMembers go) := by simp only [typeMembers]; infer_instance

instance {p : Parser Bool} [Forward p] : Forward (mappedMark p) := by
  simp only [mappedMark]
  infer_instance

instance : Looks opensMappedType := by simp only [opensMappedType]; infer_instance

instance : Forward (tupleElement go) := by simp only [tupleElement]; infer_instance

omit hgo in
theorem joinedTypes_gives {sign : String} {p : Parser Ast} (hk : isTypeKind k = true)
    (hp : Gives (marks · = []) p) : Gives (marks · = []) (joinedTypes sign k p) := by
  refine .after fun lo => .after fun leads => (sepBy1_gives sign hp).bind fun ts hts => ?_
  split
  · exact pure_gives (hts _ (by simp))
  · exact mk_type_gives hk

instance {sign : String} {p : Parser Ast} [Forward p] : Forward (joinedTypes sign k p) := by
  refine Forward.andThen fun lo => Forward.andThen fun leads => Forward.andThen fun ts => ?_
  split <;> infer_instance

instance : Forward (unionRule go) := by unfold unionRule; infer_instance

omit hgo in
theorem functionType_gives (hk : isTypeKind k = true) :
    Gives (marks · = []) (functionType go lo k) := by
  refine .after fun tps => .after fun ps => .after fun rlo => .after fun _ => .after fun t => ?_
  exact .after fun ann => mk_type_gives hk

theorem typeRule_gives : Gives (marks · = []) (typeRule go) := by
  refine .after fun lo => .after fun _ => .ite (functionType_gives rfl) ?_
  refine .after fun _ => .after fun _ => .ite (.after fun _ => functionType_gives rfl) ?_
  refine .after fun _ => .after fun _ => .ite
    (.after fun _ => .after fun _ => functionType_gives rfl) ?_
  refine (joinedTypes_gives rfl (joinedTypes_gives rfl hgo.typeOperator_gives)).bind fun t ht => ?_
  refine .after fun s => .after fun _ => .after fun _ => .ite ?_ (pure_gives ht)
  refine .after fun _ => .after fun bound => .after fun _ => .after fun yes => .after fun _ => ?_
  exact .after fun no => mk_type_gives rfl

theorem typeRule_reads : Reads marks (typeRule go) :=
  have : Forward (typeRule go) := by simp only [typeRule]; infer_instance
  .of_gives typeRule_gives

/-! ### Templates -/

theorem marksAll_filter_isPresent (ts : List Ast) :
    marksAll (ts.filter Ast.isPresent) = marksAll ts := by
  induction ts with
  | nil => rfl
  | cons t ts ih => cases t <;> simp [Ast.isPresent, Ast.isAbsent, ih]

omit hgo in
theorem templateParts_reads {substitution : Parser Ast} (hp : Reads marks substitution) :
    Reads (fun parts => marksAll parts.1) (templateParts substitution) := by
  intro l
  refine .skip fun start => (many_reads (m := fun part => marks part.2) ?_ l).bind fun parts => ?_
  · intro l
    refine .get fun s => .ite (Brings.at (bare_brings rfl)) (.ite ?_ unexpected_bind_brings.at)
    dsimp only
    split
    · exact (failAt_brings _ _).at
    · rename_i text more rest _
      refine .ite ?_ ?_
      · refine (modify_scan_brings (by omega)).bind fun _ => ?_
        exact (hp.withContext l).bind fun e => done_brings rfl
      · refine BringsAt.bind (m := fun _ => l) ?_ fun _ => bare_brings rfl
        intro hs a s' h
        cases h
        refine ⟨⟨Nat.le_refl _, Nat.le_succ _, nofun⟩, hs.ordered, fun x hx => ?_⟩
        have := hs.lt_lastEnd x hx
        have := hs.lastEnd_le_hi
        simp only
        omega
  · refine pure_brings ?_
    simp only [marksAll_filter_isPresent, marksAll_eq_flatMap (parts.map _), List.flatMap_map]
    exact .refl _

instance : Forward (templateParts (go .type)) := (templateParts_reads (hgo.reads .type)).forward

omit hgo in
/-- The texts between the substitutions have no words. -/
theorem templateParts_gives {substitution : Parser Ast} :
    Gives (fun parts => marksAll parts.2 = []) (templateParts substitution) := by
  refine .after fun start => Gives.bind (P := fun parts => ∀ part ∈ parts, marks part.1 = []) ?_ ?_
  · refine .after fun s => manyUpTo_gives (.after fun s => ?_) s.limit
    refine .ite (pure_gives (by simp)) (.ite ?_ ?_)
    case refine_2 => exact Gives.bind (P := fun _ => False) unexpected_gives fun _ h => h.elim
    dsimp only
    split
    · exact fun _ _ _ h => nomatch h
    · refine .ite (.after fun _ => .after fun e => pure_gives ?_) (.after fun _ => pure_gives ?_)
      all_goals
        rintro _ ⟨⟩
        rfl
  · intro parts h
    refine pure_gives (marksAll_eq_nil fun t ht => ?_)
    obtain ⟨part, hpart, rfl⟩ := List.mem_map.1 ht
    exact h part hpart

omit hgo in
instance : Forward templateEnd :=
  ⟨fun _ _ => modify_scan_brings id⟩

/-! ### Primary types -/

instance : Forward (mappedType go) := by simp only [mappedType]; infer_instance

omit hgo in
theorem mappedType_gives : Gives (marks · = []) (mappedType go) := by
  refine .after fun lo => withContext_gives _ ?_
  refine .after fun _ => .after fun ro => .after fun _ => .after fun plo => .after fun name => ?_
  refine .after fun _ => .after fun bound => .after fun param => .after fun _ => ?_
  refine .ite_after fun nameType => .after fun _ => .after fun opt => .after fun _ => ?_
  refine .ite_after fun t => .after fun _ => .ite ?_ (.after fun _ => ?_)
  all_goals exact .after fun _ => mk_type_gives rfl

instance : Forward (importType go) := by simp only [importType]; infer_instance

omit hgo in
theorem importType_gives : Gives (marks · = []) (importType go) := by
  refine .after fun lo => .after fun _ => .after fun _ => .after fun arg => .after fun _ => ?_
  exact .after fun _ => .ite_after fun q => .after fun args => mk_type_gives rfl

instance {entity : Ast} : Forward (referenceType go lo k entity) := by
  unfold referenceType
  infer_instance

omit hgo in
theorem referenceType_gives (entity : Ast) (hk : isTypeKind k = true) :
    Gives (marks · = []) (referenceType go lo k entity) :=
  .after fun _ => mk_type_gives hk

instance : Forward (primaryType go) := by
  refine Forward.andThen fun t => ?_
  dsimp only
  split
  case h_5 =>
    refine Forward.andThen fun _ => Forward.andThen fun n => ?_
    split <;> infer_instance
  all_goals infer_instance

omit hgo in
theorem primaryType_gives : Gives (marks · = []) (primaryType go) := by
  refine .after fun t => ?_
  dsimp only
  split
  case h_1 => exact .after fun _ => .after fun _ => .after fun _ => mk_type_gives rfl
  case h_2 => exact .after fun _ => .after fun _ => mk_type_gives rfl
  case h_3 => exact .after fun _ => .ite mappedType_gives (.after fun _ => mk_type_gives rfl)
  case h_4 => exact .after fun _ => .after fun _ => .after fun lit => pure_gives rfl
  case h_5 =>
    refine .after fun _ => .after fun n => ?_
    split
    · exact .after fun _ => .after fun _ => mk_type_gives rfl
    · exact unexpected_gives
  case h_12 => exact importType_gives
  case h_13 =>
    exact .after fun _ => .after fun _ => .ite_after fun entity => referenceType_gives entity rfl
  case h_14 =>
    refine .after fun after => .ite (.after fun _ => mk_type_gives rfl) (.ite ?_ unexpected_gives)
    exact .after fun entity => referenceType_gives entity rfl
  case h_15 => exact unexpected_gives
  all_goals exact .after fun _ => mk_type_gives rfl

instance : Forward (arrayType go) := by simp only [arrayType]; infer_instance

omit hgo in
theorem arrayType_gives : Gives (marks · = []) (arrayType go) := by
  refine .after fun lo => primaryType_gives.bind fun first hfirst => ?_
  refine iterate_gives (fun t ht => ?_) hfirst
  refine .after fun _ => .after fun _ => .ite (.after fun _ => .after fun _ => .ite ?_ ?_) ?_
  · exact Gives.bind (mk_type_gives rfl) fun t ht => pure_gives ht
  · refine .after fun index => .after fun _ => ?_
    exact Gives.bind (mk_type_gives rfl) fun t ht => pure_gives ht
  · exact pure_gives ht

omit hgo in
theorem typeOperatorRule_gives : Gives (marks · = []) (typeOperatorRule go) := by
  refine .after fun lo => .after fun after => .after fun t => ?_
  split
  · refine .ite ?_ arrayType_gives
    refine .after fun _ => .after fun plo => .after fun name => .after fun bound? => ?_
    exact .after fun param => mk_type_gives rfl
  · exact .ite (.after fun _ => .after fun t => mk_type_gives rfl) arrayType_gives
  · exact arrayType_gives

theorem typeOperatorRule_reads : Reads marks (typeOperatorRule go) := by
  have : Forward (typeOperatorRule go) := by
    refine Forward.andThen fun lo => Forward.andThen fun after => Forward.andThen fun t => ?_
    split <;> infer_instance
  exact .of_gives typeOperatorRule_gives

end Types

end Worklet.Syntax
