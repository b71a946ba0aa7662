import Worklet.Proofs.Scope.Agreement

/-!
# Closures under the scoping of the language

The scope table reads a module by rules that are coarser than those of the language. Names on which
the two differ are the strays; on all others they agree.

Principal results: `conforms_of_clear` — every tree conforms, apart from its strays;
`mem_capture_language_iff` — the closure of a function is what the language says, apart from
strays.
-/

set_option autoImplicit false

namespace Worklet

open Syntax Outline Scoping Item Rule

/-- The strays of a tree are among these names. -/
def Clear (stray : List String) (t : Ast) : Prop :=
  ∀ n ∈ strays t, n ∈ stray

/-- The outline of a tree agrees with the one of the language. -/
def Conforms (stray : List String) (t : Ast) : Prop :=
  ∀ naming : Naming, Agrees stray (outlineAs naming t) (language.facts naming.role t)

variable {ts rest : List Ast} {m : Role} {r : Rule}

section Clear

variable {stray : List String} {k : Kind} {s : Span} {cs : List Ast} {t u : Ast}

theorem Clear.item (h : Clear stray (.list ts)) (hu : u ∈ ts) : Clear stray u :=
  fun n hn => h n (by rw [strays, mem_straysAll]; exact ⟨u, hu, hn⟩)

theorem Clear.own (h : Clear stray (.node k s cs)) : ∀ n ∈ ownStrays (.node k s cs), n ∈ stray :=
  fun n hn => h n (by rw [strays]; exact List.mem_append_left _ (List.mem_append_left _ hn))

theorem Clear.child (h : Clear stray (.node k s cs)) (hk : (isTypeKind k && !isNamespace k) = false)
    (hu : u ∈ cs) : Clear stray u := fun n hn => h n (by
  rw [strays, hk]
  exact List.mem_append_right _ (mem_straysAll.2 ⟨u, hu, hn⟩))

theorem part_of_declarator {kind : BindingKind} (h : .part m u ∈ ofDeclarator kind t) :
    m ≠ .body ∧ ∀ n ∈ strays u, n ∈ strays t := by
  unfold ofDeclarator at h
  split at h
  · simp only [List.mem_append, part_mem_bound, List.mem_singleton, Item.part.injEq] at h
    simp only [strays, straysAll, isTypeKind, List.append_nil, List.mem_append, if_false,
      Bool.false_and, Bool.false_eq_true]
    rcases h with ⟨rfl, rfl⟩ | ⟨rfl, rfl⟩
    · exact ⟨by simp, fun n hn => .inr (.inl hn)⟩
    · exact ⟨by simp, fun n hn => .inr (.inr hn)⟩
  · simp at h

theorem part_of_children (hr : r = flat (if isTypeKind k then [] else parts .refers cs))
    (h : .part m u ∈ r.here ++ r.inside) :
    m ≠ .body ∧ ∀ n ∈ strays u, n ∈ strays (.node k s cs) := by
  subst hr
  cases hk : isTypeKind k with
  | true => simp [hk, flat, Rule.inside] at h
  | false =>
    obtain ⟨rfl, hu⟩ : m = .refers ∧ u ∈ cs := by simpa [hk, flat, Rule.inside] using h
    refine ⟨by simp, fun n hn => ?_⟩
    rw [strays, hk]
    exact List.mem_append_right _ (mem_straysAll.2 ⟨u, hu, hn⟩)

theorem role_ne_body (naming : Naming) : naming.role ≠ .body := by
  cases naming <;> simp [Naming.role]

end Clear

/-- All smaller trees conform. -/
def Below (stray : List String) (size : Nat) : Prop :=
  ∀ u, sizeOf u < size → Clear stray u → Conforms stray u

/-- The tree conforms if it is clear and all smaller trees conform. -/
def ConformsStep (stray : List String) (t : Ast) : Prop :=
  Below stray (sizeOf t) → Clear stray t → Conforms stray t

variable {a isDeclare : Bool} {decorators key : Ast} {n : String} {names : List String}

section Rules

variable {stray : List String} {t u : Ast}

theorem Conforms.refers (h : Conforms stray t) :
    Agrees stray (outlineAs .refers t) (language.facts .refers t) :=
  h .refers

theorem Conforms.part (h : Conforms stray t) (hm : m ≠ .body) :
    Agrees stray (outlineOf (.part m t)) (language.factsBy (.part m t)) := by
  cases m with
  | refers => exact h .refers
  | binds => exact h .binds
  | body => exact absurd rfl hm

theorem agrees_items {items : List Item}
    (h : ∀ m u, .part m u ∈ items → m ≠ .body ∧ Conforms stray u) :
    Agrees stray (items.flatMap outlineOf) (items.flatMap language.factsBy) := by
  induction items with
  | nil => exact .nil
  | cons i is ih =>
    rw [List.flatMap_cons, List.flatMap_cons]
    have his := ih fun m u hu => h m u (List.mem_cons_of_mem _ hu)
    refine Agrees.append ?_ his
    rcases i with n | ⟨n, b⟩ | ⟨m, u⟩
    · exact .reference n
    · exact .declare n b
    · obtain ⟨hm, hu⟩ := h m u (by simp)
      exact hu.part hm

theorem agrees_rule (h : ∀ m u, .part m u ∈ r.here ++ r.inside → m ≠ .body ∧ Conforms stray u) :
    Agrees stray (outlineBy r) (r.here.flatMap language.factsBy ++
      (r.inner.map fun o =>
        Outline.scope o.kind o.function (o.items.flatMap language.factsBy)).toList) := by
  have hhere := agrees_items fun m u hu => h m u (List.mem_append_left _ hu)
  unfold Rule.inside at h
  refine hhere.append ?_
  cases hr : r.inner with
  | none => exact .nil
  | some o =>
    simp only [hr, Option.map_some, Option.getD_some] at h
    exact (agrees_items fun m u hu => h m u (List.mem_append_right _ hu)).scope o.kind o.function

theorem language_facts (naming : Naming) (t : Ast) :
    language.facts naming.role t = (languageRule naming t).here.flatMap language.factsBy ++
      ((languageRule naming t).inner.map fun o =>
        Outline.scope o.kind o.function (o.items.flatMap language.factsBy)).toList := by
  rw [facts_rule]
  cases naming <;> rfl

/-- The parts of a node without a rule of its own. -/
theorem part_of_unrefined {naming : Naming} (h : refined? t = none)
    (hu : .part m u ∈ (plainRule naming t).here ++ (plainRule naming t).inside) :
    m ≠ .body ∧ ∀ n ∈ strays u, n ∈ strays t := by
  revert h hu
  fun_cases plainRule naming t
  case case38 =>
    rintro - hu
    exact part_of_children rfl hu
  all_goals simp [refined?, flat, block, function, Rule.inside, strays, straysAll, isTypeKind]
  all_goals grind [mem_straysAll, → part_of_declarator, role_ne_body]

theorem conforms_of_unrefined (h : refined? t = none) : ConformsStep stray t := by
  intro hb hc naming
  rw [language_facts, ← outlineBy_plainRule, languageRule, h]
  refine agrees_rule fun m u hu => ?_
  obtain ⟨hm, hs⟩ := part_of_unrefined h hu
  exact ⟨hm, hb u (sizeOf_lt_of_mem_plainRule naming t m u hu) fun n hn => hc n (hs n hn)⟩

end Rules

/-! ### Functions -/

section Functions

variable {stray : List String} {s : Span} {cs : List Ast} {t u params body : Ast}
  {O P P' : List Outline}

theorem Below.mono {size size' : Nat} (h : Below stray size) (hle : size' ≤ size) :
    Below stray size' :=
  fun u hu hc => h u (Nat.lt_of_lt_of_le hu hle) hc

theorem agrees_parts (h : ∀ u ∈ ts, Conforms stray u) :
    Agrees stray (outlineAll .refers ts) ((parts .refers ts).flatMap language.factsBy) := by
  rw [← outlineOf_parts_refers]
  refine agrees_items fun m u hu => ?_
  obtain ⟨rfl, hts⟩ := part_mem_parts.1 hu
  exact ⟨by simp, h u hts⟩

/-- Children of a clear node agree if all smaller trees conform. -/
theorem Below.children {k : Kind} (hb : Below stray (sizeOf (Ast.node k s cs)))
    (hc : Clear stray (.node k s cs)) (hk : (isTypeKind k && !isNamespace k) = false) (hts : ts ⊆ cs) :
    Agrees stray (outlineAll .refers ts) ((parts .refers ts).flatMap language.factsBy) :=
  agrees_parts fun _ hu => hb _ (sizeOf_lt_of_mem_node (hts hu)) (hc.child hk (hts hu))

theorem agrees_declareIdent (kind : BindingKind) (name : Ast) :
    Agrees stray (declareName kind name) ((declareIdent kind name).flatMap language.factsBy) := by
  rw [← outlineOf_declareIdent]
  exact agrees_items fun m u hu => absurd hu part_notMem_declareIdent

theorem agrees_bound (kind : BindingKind) (h : Conforms stray t) :
    Agrees stray (declareAll kind (boundNames t) ++ outlineAs .binds t)
      ((bound kind t).flatMap language.factsBy) := by
  rw [← outlineOf_bound]
  refine agrees_items fun m u hu => ?_
  obtain ⟨rfl, rfl⟩ := part_mem_bound.1 hu
  exact ⟨by simp, h⟩

theorem language_facts_body (s : Span) (ss : List Ast) :
    language.facts .body (.node .block s ss) =
      [.scope .function none ((parts .refers ss).flatMap language.factsBy)] := by
  rw [facts_rule]
  rfl

/-- A function agrees if its parameters do, its body conforms and the parameters take nothing from
the body. -/
theorem beside_function (hb : Below stray (sizeOf body + 1)) (hc : Clear stray body)
    (hP : Beside stray O P P') (ht : ∀ n ∈ taken P (outlineIn .body body), n ∈ stray)
    (f : Option Span) :
    Beside stray O [.scope .function f (P ++ outlineIn .body body)]
      [.scope .function f (P' ++ language.factsBy (ofBody body))] := by
  fun_cases ofBody body with
  | case1 bs ss =>
    have hbody : outlineIn .body (.node .block bs ss) = outlineAll .refers ss := by
      simp [outlineIn, bodyFacts, outlineAs]
    rw [hbody] at ht ⊢
    rw [factsBy, language_facts_body]
    exact hP.function ((hb.mono (Nat.le_succ _)).children hc rfl (List.Subset.refl _)) ht f
  | case2 body hne =>
    have hbody : outlineIn .body body = outlineAs .refers body := bodyFacts_eq (fun s ss => hne s ss) _
    rw [hbody]
    have happ := hP.append (hb body (by omega) hc).refers
    rw [List.append_nil] at happ
    exact happ.scope .function f

theorem mem_factNames_of_agrees {os os' : List Outline} (h : Agrees stray os os')
    (hn : ∀ n ∈ factNames os, n ∈ stray) : ∀ n ∈ factNames os', n ∈ stray :=
  (h.moved hn).outside

/-- A parameter agrees, with its decorators put outside. -/
theorem beside_param (hb : Below stray (sizeOf t + 1)) (hc : Clear stray t) :
    Beside stray ((ofParamDecorators t).flatMap language.factsBy) (outlineAs .refers t)
      ((ofParam t).flatMap language.factsBy) := by
  fun_cases ofParamDecorators t with
  | case1 s decorators p =>
    have hd := hb decorators (by simp; omega) (hc.child rfl (by simp))
    have hp := hb p (by simp; omega) (hc.child rfl (by simp))
    have h := (hd.refers.moved hc.own).append (agrees_bound .param hp)
    simpa [outlineAs, ofParam, factsBy] using h
  | case2 a s decorators p =>
    have hd := hb decorators (by simp; omega) (hc.child rfl (by simp))
    have h := (hb _ (by omega) hc).refers.weaken
      (mem_factNames_of_agrees hd.refers fun n hn => hc.own n (List.mem_append_left _ hn))
    simpa [ofParam, factsBy] using h
  | case3 t h₁ h₂ =>
    have hp : ofParam t = [.part .refers t] := by
      unfold ofParam
      split
      · exact absurd rfl (h₁ _ _ _)
      · rfl
    simpa [hp, factsBy] using (hb t (by omega) hc).refers

theorem beside_params (hb : Below stray (sizeOf params + 1)) (hc : Clear stray params) :
    Beside stray ((params.items.flatMap ofParamDecorators).flatMap language.factsBy)
      (outlineAs .refers params) ((ofParams params).flatMap language.factsBy) := by
  fun_cases ofParams params with
  | case1 ts =>
    have hts : ∀ t ∈ ts, Below stray (sizeOf t + 1) ∧ Clear stray t := fun t ht =>
      ⟨hb.mono (by have := sizeOf_lt_of_mem ht; simp; omega), hc.item ht⟩
    clear hb hc
    simp only [Ast.items, outlineAs]
    induction ts with
    | nil => exact .nil
    | cons t ts ih =>
      obtain ⟨hb, hc⟩ := hts t (by simp)
      have h := (beside_param hb hc).append (ih fun t ht => hts t (List.mem_cons_of_mem _ ht))
      simpa [outlineAll] using h
  | case2 _ hne =>
    have hi : params.items = [] := by
      unfold Ast.items
      split
      · exact absurd rfl (hne _)
      · rfl
    simpa [hi, factsBy] using (hb params (by omega) hc).refers

/-- What a node outside and the scope of a function inside bring. -/
theorem conforms_of_function {outside : List Item} {D D' : List Outline} (P : List Outline)
    (items : List Item)
    (hr : refined? t = some (function outside s (items ++ [ofBody body])))
    (hl : ∀ naming, outlineAs naming t = D ++ [.scope .function (some s) (P ++ outlineIn .body body)])
    (hd : Agrees stray D D') (hout : outside.flatMap language.factsBy = D' ++ O)
    (hb : Below stray (sizeOf body + 1)) (hc : Clear stray body)
    (hP : Beside stray O P (items.flatMap language.factsBy))
    (ht : ∀ n ∈ taken P (outlineIn .body body), n ∈ stray) : Conforms stray t := by
  intro naming
  rw [language_facts, languageRule, hr, hl]
  have h := hd.append (beside_function hb hc hP ht (some s)).place
  simpa [function, hout] using h

theorem conforms_function {g : Bool} :
    ConformsStep stray (.node (.function a g) s (params :: decorators :: body :: rest)) := by
  intro hb hc
  simp only [Ast.node.sizeOf_spec, List.cons.sizeOf_spec] at hb
  have hd := hb decorators (by omega) (hc.child rfl (by simp))
  have hp := beside_params (hb.mono (by omega)) (hc.child rfl (by simp : params ∈ _))
  exact conforms_of_function _ _ rfl (fun _ => by rw [outlineAs]; rfl) hd.refers (by simp [factsBy])
    (hb.mono (by omega)) (hc.child rfl (by simp)) hp hc.own

theorem conforms_funcExpr {fs : Span} {g : Bool} {name : Ast} :
    ConformsStep stray
      (.node .funcExpr fs [name, .node (.function a g) s (params :: decorators :: body :: rest)]) := by
  intro hb hc
  simp only [Ast.node.sizeOf_spec, List.cons.sizeOf_spec] at hb
  have hc : Clear stray (.node (.function a g) s (params :: decorators :: body :: rest)) :=
    hc.child rfl (by simp)
  have hd := hb decorators (by omega) (hc.child rfl (by simp))
  have hp := Beside.append (agrees_declareIdent .function name)
    (beside_params (hb.mono (by omega)) (hc.child rfl (by simp : params ∈ _)))
  rw [List.nil_append, ← List.flatMap_append] at hp
  -- The name of the function is declared beside the parameters, and takes nothing from the body.
  have ht : ∀ n ∈ taken (declareName .function name ++ outlineAs .refers params)
      (outlineIn .body body), n ∈ stray := fun n hn => hc.own n (by
    simp only [mem_taken, mem_declared_append, freeAll_append, List.mem_append, declareName,
      freeAll_declareAll, List.not_mem_nil, false_or, not_or] at hn
    exact mem_taken.2 ⟨hn.1, hn.2.1, hn.2.2.2⟩)
  exact conforms_of_function _ _ rfl (fun _ => by rw [outlineAs]; rfl) hd.refers (by simp [factsBy])
    (hb.mono (by omega)) (hc.child rfl (by simp)) hp ht

theorem part_of_ctorParam (h : .part m u ∈ ofCtorParam t) :
    m ≠ .body ∧ ∀ n ∈ strays u, n ∈ strays t := by
  unfold ofCtorParam at h
  split at h
  · obtain ⟨rfl, rfl⟩ := part_mem_bound.1 h
    exact ⟨by simp, fun n hn => by simp [strays, straysAll, isTypeKind, hn]⟩
  · simp only [List.mem_append, part_notMem_declareEach, List.mem_singleton, false_or,
      Item.part.injEq] at h
    obtain ⟨rfl, rfl⟩ := h
    exact ⟨by simp, fun n hn => by simp [strays, straysAll, isTypeKind, hn]⟩
  · simp at h
  · simp at h

theorem part_of_propertyPattern (h : .part m u ∈ ofPropertyPattern t) :
    m ≠ .body ∧ ∀ n ∈ strays u, n ∈ strays t := by
  unfold ofPropertyPattern at h
  split at h
  · obtain ⟨rfl, rfl⟩ := Item.part.inj (List.mem_singleton.1 h)
    exact ⟨by simp, fun n hn => by simp [strays, straysAll, isTypeKind, hn]⟩
  · obtain ⟨rfl, rfl⟩ := Item.part.inj (List.mem_singleton.1 h)
    exact ⟨by simp, fun n hn => by simp [strays, straysAll, isTypeKind, hn]⟩
  · simp at h

/-- The decorators of a constructor's parameter count for nothing. -/
theorem decorators_of_ctorParam (hb : Below stray (sizeOf t)) (hc : Clear stray t) :
    ∀ n ∈ factNames ((ofParamDecorators t).flatMap language.factsBy), n ∈ stray := by
  fun_cases ofParamDecorators t with
  | case1 s decorators p =>
    have hd := hb decorators (by simp; omega) (hc.child rfl (by simp))
    simpa [factsBy] using mem_factNames_of_agrees hd.refers hc.own
  | case2 a s decorators p =>
    have hd := hb decorators (by simp; omega) (hc.child rfl (by simp))
    simpa [factsBy] using mem_factNames_of_agrees hd.refers fun n hn =>
      hc.own n (List.mem_append_left _ hn)
  | case3 => simp [factNames, freeAll, hoistedAll]

/-- Nor does the pattern of one that declares a property. -/
theorem pattern_of_ctorParam (hb : Below stray (sizeOf t)) (hc : Clear stray t) :
    ∀ n ∈ factNames ((ofPropertyPattern t).flatMap language.factsBy), n ∈ stray := by
  have hparts : Agrees stray ((ofPropertyPattern t).flatMap outlineOf)
      ((ofPropertyPattern t).flatMap language.factsBy) := by
    refine agrees_items fun m u hu => ?_
    obtain ⟨hm, hs⟩ := part_of_propertyPattern hu
    exact ⟨hm, hb u (sizeOf_lt_of_mem_ofPropertyPattern hu) fun n hn => hc n (hs n hn)⟩
  refine mem_factNames_of_agrees hparts ?_
  by_cases hprop : ∃ a s decorators p, t = .node (.paramProp a) s [decorators, p]
  · obtain ⟨a, s, decorators, p, rfl⟩ := hprop
    exact fun n hn => hc.own n (List.mem_append_right _ hn)
  · have hnone : ofPropertyPattern t = [] := by
      unfold ofPropertyPattern
      split <;> grind
    simp [hnone, factNames, freeAll, hoistedAll]

theorem names_of_ctorParams {g : Ast → List Item}
    (h : ∀ t ∈ ts, ∀ n ∈ factNames ((g t).flatMap language.factsBy), n ∈ stray) :
    ∀ n ∈ factNames ((ts.flatMap g).flatMap language.factsBy), n ∈ stray := by
  induction ts with
  | nil => simp [factNames, freeAll, hoistedAll]
  | cons t ts ih =>
    have ih := ih fun u hu => h u (List.mem_cons_of_mem _ hu)
    intro n hn
    by_contra hs
    have := Beside.notMem_facts (h t (by simp)) hs
    have := Beside.notMem_facts ih hs
    simp_all [factNames]

theorem conforms_constructor {access : Option Access} {opt : Bool} :
    ConformsStep stray (.node (.constructor access opt) s [key, .list ts, body]) := by
  intro hb hc
  simp only [Ast.node.sizeOf_spec, List.cons.sizeOf_spec, Ast.list.sizeOf_spec] at hb
  have hlist : Clear stray (.list ts) := hc.child rfl (by simp)
  have hts : ∀ u ∈ ts, Below stray (sizeOf u) ∧ Clear stray u := fun u hu =>
    ⟨hb.mono (by have := sizeOf_lt_of_mem hu; omega), hlist.item hu⟩
  have hp : Agrees stray (outlineCtorParams ts)
      ((ts.flatMap ofCtorParam).flatMap language.factsBy) := by
    rw [← outlineOf_ctorParams]
    refine agrees_items fun m v hv => ?_
    obtain ⟨u, hu, hv⟩ := List.mem_flatMap.1 hv
    obtain ⟨hm, hs⟩ := part_of_ctorParam hv
    obtain ⟨hb, hc⟩ := hts u hu
    exact ⟨hm, hb v (sizeOf_lt_of_mem_ofCtorParam hv) fun n hn => hc n (hs n hn)⟩
  have hk := hb key (by omega) (hc.child rfl (by simp))
  have hpatterns := (hp.weaken (names_of_ctorParams fun t ht =>
    pattern_of_ctorParam (hts t ht).1 (hts t ht).2)).place
  rw [← List.flatMap_append] at hpatterns
  exact conforms_of_function _ _ rfl (fun _ => by rw [outlineAs]; rfl) hk.refers (by simp [factsBy])
    (hb.mono (by omega)) (hc.child rfl (by simp)) (hpatterns.weaken (names_of_ctorParams fun t ht =>
      decorators_of_ctorParam (hts t ht).1 (hts t ht).2)) hc.own

theorem conforms_arrow : ConformsStep stray (.node (.arrow a) s (.list ts :: body :: rest)) := by
  intro hb hc
  simp only [Ast.node.sizeOf_spec, List.cons.sizeOf_spec, Ast.list.sizeOf_spec] at hb
  have hts : Clear stray (.list ts) := hc.child rfl (by simp)
  have hp : Agrees stray (outlinePatterns ts)
      ((ts.flatMap (bound .param)).flatMap language.factsBy) := by
    rw [← outlineOf_patterns]
    refine agrees_items fun m v hv => ?_
    obtain ⟨u, hu, hv⟩ := List.mem_flatMap.1 hv
    obtain ⟨rfl, rfl⟩ := part_mem_bound.1 hv
    exact ⟨by simp, hb v (by have := sizeOf_lt_of_mem hu; omega) (hts.item hu)⟩
  exact conforms_of_function _ _ rfl (fun _ => by rw [outlineAs]; rfl) .nil rfl (hb.mono (by omega))
    (hc.child rfl (by simp)) hp hc.own

theorem conforms_getter {type : Ast} : ConformsStep stray (.node .getter s [key, type, body]) := by
  intro hb hc
  simp only [Ast.node.sizeOf_spec, List.cons.sizeOf_spec] at hb
  have hk := hb key (by omega) (hc.child rfl (by simp))
  exact conforms_of_function [] [] rfl (fun _ => by rw [outlineAs]; rfl) hk.refers (by simp [factsBy])
    (hb.mono (by omega)) (hc.child rfl (by simp)) .nil (by simp [taken, freeAll])

theorem conforms_setter {receiver param : Ast} :
    ConformsStep stray (.node .setter s [key, receiver, param, body]) := by
  intro hb hc
  simp only [Ast.node.sizeOf_spec, List.cons.sizeOf_spec] at hb
  have hk := hb key (by omega) (hc.child rfl (by simp))
  have hp := hb param (by omega) (hc.child rfl (by simp))
  have hr := hb receiver (by omega) (hc.child rfl (by simp))
  have hboth := ((agrees_bound .param hp).weaken (mem_factNames_of_agrees (agrees_bound .param hr)
    fun n hn => hc.own n (List.mem_append_left _ hn))).place
  rw [← List.flatMap_append] at hboth
  exact conforms_of_function _ _ rfl (fun _ => by rw [outlineAs]; rfl) hk.refers (by simp [factsBy])
    (hb.mono (by omega)) (hc.child rfl (by simp)) hboth fun n hn =>
      hc.own n (List.mem_append_right _ hn)

end Functions

/-! ### Other nodes -/

section Other

variable {stray : List String} {s : Span} {cs : List Ast} {t u name : Ast}

theorem conforms_of_refined (hr : refined? t = some r)
    (h : ∀ naming, Agrees stray (outlineAs naming t) (r.here.flatMap language.factsBy ++
      (r.inner.map fun o =>
        Outline.scope o.kind o.function (o.items.flatMap language.factsBy)).toList)) :
    Conforms stray t := by
  intro naming
  rw [language_facts, languageRule, hr]
  exact h naming

theorem outlineAs_typeTree (naming : Naming) (h : isTypeTree t = true) : outlineAs naming t = [] := by
  unfold isTypeTree at h
  split at h
  · rfl
  · rename_i k s cs
    cases k <;> cases h <;> rfl
  · cases h

theorem outlineAs_typedName (h : typedName? t = some n) :
    outlineAs .refers t = [.reference n] := by
  unfold typedName? at h
  split at h
  · split at h
    · rename_i hty
      cases h
      simp [outlineAs, outlineAll, outlineAs_typeTree _ hty]
    · cases h
  · cases h

theorem conforms_staticBlock : ConformsStep stray (.node .staticBlock s cs) := by
  intro hb hc
  refine conforms_of_refined rfl fun naming => ?_
  have h := (hb.children hc rfl (List.Subset.refl _)).ownScope hc.own
  simpa [outlineAs, isTypeKind] using h

theorem agrees_mention (kind : BindingKind) (hk : kind.isFunctionScoped = false) (hn : n ∈ stray) :
    Agrees stray [.reference n] [.declare n kind] :=
  .of_stray (by simp [factNames, freeAll, hoistedAll, hoisted, lexical, hn])
    (by simp [factNames, freeAll, hoistedAll, hoisted, lexical, hk, hn]) fun _ => rfl

theorem agrees_ofResource (hb : Below stray (sizeOf t + 1)) (hc : Clear stray t)
    (hn : ∀ n v, resource? t = some (n, v) → n ∈ stray) :
    Agrees stray (outlineAs .refers t) ((ofResource t).flatMap language.factsBy) := by
  unfold ofResource
  split
  · rename_i n v hv
    have hin := hn n v hv
    obtain ⟨d, s, p, rfl, hp⟩ := resource?_eq_some hv
    have hv : Conforms stray v := hb v (by simp; omega) (hc.child rfl (by simp))
    have h := (agrees_mention .const rfl hin).append hv.refers
    simpa [outlineAs, outlineAll, isTypeKind, outlineAs_typedName hp, factsBy] using h
  · simpa [factsBy] using (hb t (by omega) hc).refers

theorem conforms_usingDecl {isAwait : Bool} :
    ConformsStep stray (.node (.usingDecl isAwait) s cs) := by
  intro hb hc
  have hown : ∀ d ∈ cs, ∀ n v, resource? d = some (n, v) → n ∈ stray := fun d hd n v hv =>
    hc.own n (List.mem_flatMap.2 ⟨d, hd, by simp [hv]⟩)
  have hcs : ∀ u ∈ cs, Below stray (sizeOf u + 1) ∧ Clear stray u := fun u hu =>
    ⟨hb.mono (sizeOf_lt_of_mem_node hu), hc.child rfl hu⟩
  clear hb hc
  refine conforms_of_refined rfl fun naming => ?_
  have h : Agrees stray (outlineAll .refers cs)
      ((cs.flatMap ofResource).flatMap language.factsBy) := by
    induction cs with
    | nil => exact .nil
    | cons d ds ih =>
      obtain ⟨hb, hc⟩ := hcs d (by simp)
      have hd := agrees_ofResource hb hc (hown d (by simp))
      have h := hd.append (ih (fun d hd => hown d (List.mem_cons_of_mem _ hd))
        fun d hd => hcs d (List.mem_cons_of_mem _ hd))
      simpa [outlineAll] using h
  simpa [outlineAs, isTypeKind, flat] using h

theorem conforms_importEquals {isExport isType : Bool} {is : Span} {ics : List Ast} {entity : Ast} :
    ConformsStep stray
      (.node (.importEquals isExport isType) s [.node (.ident n) is ics, entity]) := by
  intro hb hc
  have hin : n ∈ stray := hc.own n (by simp [ownStrays])
  have he : Conforms stray entity := hb entity (by simp; omega) (hc.child rfl (by simp))
  refine conforms_of_refined rfl fun naming => ?_
  have hdecl : Agrees stray [.reference n]
      ((if isType then [] else [Item.declare n .import]).flatMap language.factsBy) := by
    cases isType with
    | false => exact agrees_mention .import rfl hin
    | true =>
      exact .of_stray (by simp [factNames, freeAll, hoistedAll, hoisted, lexical, hin])
        (by simp [factNames, freeAll, hoistedAll]) fun _ => rfl
  have h := hdecl.append he.refers
  simpa [outlineAs, outlineAll, isTypeKind, flat, factsBy] using h

theorem conforms_classExpr {cspan : Span} (hn : name.isPresent = true) :
    ConformsStep stray
      (.node .classExpr s [name, .node (.class_ a) cspan (decorators :: rest)]) := by
  intro hb hc
  have hclass : Clear stray (.node (.class_ a) cspan (decorators :: rest)) :=
    hc.child rfl (by simp)
  have hd : Conforms stray decorators :=
    hb decorators (by simp; omega) (hclass.child rfl (by simp))
  have hrest := (hb.mono (by simp; omega)).children hclass rfl (List.subset_cons_self _ rest)
  have hown := hc.own
  simp only [ownStrays, outlineAll, List.mem_append, List.mem_filter, List.contains_iff_mem] at hown
  have h := Beside.decorated (agrees_declareIdent .class name) hd.refers hrest
    (fun n hl => hown n (.inl hl)) fun n hf hdecl => hown n (.inr ⟨hf, hdecl⟩)
  refine conforms_of_refined (by simp [refined?, hn]; rfl) fun naming => ?_
  simpa [outlineAs, outlineAll, hn, isTypeKind, factsBy] using h

theorem not_isUpper_of_isLower {c : Char} (h : c.isLower = true) : c.isUpper = false := by
  delta Char.isLower at h
  delta Char.isUpper
  grind

theorem agrees_ofTagName (hn : ∀ n ∈ oddTag name, n ∈ stray) :
    Agrees stray (elementReference name) ((ofTagName name).flatMap language.factsBy) := by
  fun_cases ofTagName name with
  | case1 n s cs hlower =>
    have hupper : n.front.isUpper = false := not_isUpper_of_isLower hlower
    simp only [elementReference, hupper, Bool.false_eq_true, if_false]
    exact .nil
  | case2 n s cs hlower =>
    simp only [elementReference]
    split
    · exact .reference n
    · rename_i hupper
      have hin : n ∈ stray := hn n (by simp only [oddTag, hupper, hlower]; simp)
      exact .of_stray (by simp [factNames, freeAll, hoistedAll])
        (by simp [factNames, factsBy, freeAll, hoistedAll, hoisted, lexical, hin]) fun _ => rfl
  | case3 s obj rest =>
    rw [elementReference, ← outlineOf_ofTagObject]
    exact agrees_items fun m u hu => absurd hu part_notMem_ofTagObject
  | case4 _ h₁ h₂ =>
    have he : elementReference name = [] := by
      unfold elementReference
      split
      · exact absurd rfl (h₁ _ _ _)
      · exact absurd rfl (h₂ _ _ _)
      · rfl
    rw [he]
    exact .nil

theorem conforms_jsxOpening {closing : Bool} :
    ConformsStep stray (.node (.jsxOpening closing) s (name :: rest)) := by
  intro hb hc
  have h := (agrees_ofTagName hc.own).append (hb.children hc rfl (List.subset_cons_self _ rest))
  refine conforms_of_refined rfl fun naming => ?_
  simpa [outlineAs, flat] using h

theorem conforms_jsxClosing : ConformsStep stray (.node .jsxClosing s (name :: rest)) := by
  intro _ hc
  refine conforms_of_refined rfl fun naming => ?_
  simpa [outlineAs, flat] using agrees_ofTagName hc.own

/-- Facts take nothing that counts from around if those they agree with take nothing. -/
theorem mem_free_of_agrees {os os' : List Outline} (h : Agrees stray os os')
    (hn : ∀ n ∈ freeAll bare [.scope .function none os], n ∈ stray) :
    ∀ n ∈ freeAll bare [.scope .function none os'], n ∈ stray := by
  intro n hf
  by_contra hs
  exact hs (hn n (((h.scope .function none).free n hs).2 hf))

theorem part_of_member (h : .part m u ∈ ofMember t) :
    m ≠ .body ∧ ∀ n ∈ strays u, n ∈ strays t := by
  unfold ofMember at h
  split at h
  · simp only [List.mem_append, part_notMem_declareIdent, List.mem_singleton, false_or,
      Item.part.injEq] at h
    obtain ⟨rfl, rfl⟩ := h
    exact ⟨by simp, fun n hn => by simp [strays, straysAll, isTypeKind, hn]⟩
  · simp at h

theorem conforms_enumDecl {isConst : Bool} {members : List Ast} :
    ConformsStep stray (.node (.enumDecl isDeclare isConst) s [name, .list members]) := by
  intro hb hc
  have hlist : Clear stray (.list members) := hc.child rfl (by simp)
  have hmembers : Agrees stray ((members.flatMap ofMember).flatMap outlineOf)
      ((members.flatMap ofMember).flatMap language.factsBy) := by
    refine agrees_items fun m v hv => ?_
    obtain ⟨u, hu, hv⟩ := List.mem_flatMap.1 hv
    obtain ⟨hm, hs⟩ := part_of_member hv
    have hlt := sizeOf_lt_of_mem_ofMember hv
    have hlt' := sizeOf_lt_of_mem hu
    exact ⟨hm, hb v (by simp; omega) fun n hn => hlist.item hu n (hs n hn)⟩
  have h := (agrees_declareIdent .const name).added (mem_free_of_agrees hmembers hc.own)
  refine conforms_of_refined rfl fun naming => ?_
  simpa [outlineAs] using h

theorem conforms_namespaceDecl {word : NamespaceWord} :
    ConformsStep stray (.node (.namespaceDecl word isDeclare) s (name :: rest)) := by
  intro hb hc
  cases isDeclare with
  | true =>
    refine conforms_of_refined rfl fun naming => ?_
    simpa [outlineAs, isTypeKind, flat] using Beside.nil
  | false =>
    have hown := hc.own
    simp only [ownStrays, List.mem_append] at hown
    have hrest := hb.children hc rfl (List.subset_cons_self _ rest)
    have hname : Agrees stray [] ((declareIdent .const name).flatMap language.factsBy) := by
      refine .of_stray (by simp [factNames, freeAll, hoistedAll]) (fun n hn => hown n (.inl ?_))
        fun _ => rfl
      cases hid : name.identName? <;> simp_all [declareIdent, declareEach, factNames, factsBy, freeAll,
        hoistedAll, hoisted, lexical, BindingKind.isFunctionScoped]
    have h := hname.added (mem_free_of_agrees hrest fun n hn => hown n (.inr hn))
    refine conforms_of_refined rfl fun naming => ?_
    simpa [outlineAs, isTypeKind] using h

theorem conforms_nestedNamespace {is : Span} {ics : List Ast} :
    ConformsStep stray (.node .nestedNamespace s (.node (.ident n) is ics :: rest)) := by
  intro hb hc
  have hrest := hb.children hc rfl (List.subset_cons_self _ rest)
  have h := (agrees_mention .const rfl (hc.own n List.mem_cons_self)).append
    (hrest.ownScope fun m hm => hc.own m (List.mem_cons_of_mem _ hm))
  refine conforms_of_refined rfl fun naming => ?_
  simpa [outlineAs, outlineAll, isTypeKind, factsBy] using h

theorem outlineAll_typedNames (h : ts.mapM typedName? = some names) :
    outlineAll .refers ts = names.map .reference := by
  induction ts generalizing names with
  | nil =>
    simp only [List.mapM_nil, Option.pure_def, Option.some.injEq] at h
    simp [← h, outlineAll]
  | cons t ts ih =>
    simp only [List.mapM_cons, Option.bind_eq_bind, Option.pure_def] at h
    obtain ⟨n, hn, h⟩ := Option.bind_eq_some_iff.1 h
    obtain ⟨ns, hns, h⟩ := Option.bind_eq_some_iff.1 h
    cases h
    simp [outlineAll, outlineAs_typedName hn, ih hns]

theorem outlineAll_signature (h : signatureNames? cs = some names) :
    outlineAll .refers cs = names.map .reference := by
  unfold signatureNames? at h
  split at h
  · split at h
    · rename_i hty
      simp [outlineAll, outlineAs, outlineAs_typeTree _ hty, outlineAll_typedNames h]
    · cases h
  · cases h

theorem conforms_indexSignature {b : Bool} :
    ConformsStep stray (.node (.indexSignature a b) s cs) := by
  intro hb hc
  have h : Agrees stray (outlineAll .refers cs)
      ((if (signatureNames? cs).isSome then [] else parts .refers cs).flatMap
        language.factsBy) := by
    cases hn : signatureNames? cs with
    | some names =>
      have hown := hc.own
      simp only [ownStrays, hn, Option.getD_some] at hown
      rw [outlineAll_signature hn]
      simp only [Option.isSome_some, if_true, List.flatMap_nil]
      refine .of_stray (fun n hm => hown n ?_) (by simp [factNames, freeAll, hoistedAll])
        fun around => sitesAll_references around names
      simpa [factNames, freeAll_references, lexicalAll_references, hoistedAll_references] using hm
    | none => exact hb.children hc rfl (List.Subset.refl _)
  refine conforms_of_refined rfl fun naming => ?_
  simpa [outlineAs, isTypeKind, flat] using h

end Other

theorem conformsStep (stray : List String) (t : Ast) : ConformsStep stray t := by
  cases hr : refined? t with
  | none => exact conforms_of_unrefined hr
  | some r =>
    revert hr
    fun_cases refined? t with
    | case1 => exact fun _ => conforms_importEquals
    | case2 => exact fun _ => conforms_funcExpr
    | case3 => exact fun _ => conforms_function
    | case4 => exact fun _ => conforms_constructor
    | case5 => exact fun _ => conforms_arrow
    | case6 => exact fun _ => conforms_getter
    | case7 => exact fun _ => conforms_setter
    | case8 => exact fun _ => conforms_staticBlock
    | case9 => exact fun _ => conforms_usingDecl
    | case10 => exact fun _ => conforms_classExpr ‹_›
    | case12 => exact fun _ => conforms_jsxOpening
    | case13 => exact fun _ => conforms_jsxClosing
    | case14 => exact fun _ => conforms_enumDecl
    | case15 | case16 => exact fun _ => conforms_namespaceDecl
    | case17 => exact fun _ => conforms_nestedNamespace
    | case18 => exact fun _ => conforms_indexSignature
    | case11 | case19 => simp

/-- **Every tree conforms, apart from its strays.** -/
theorem conforms_of_clear (stray : List String) (t : Ast) (hc : Clear stray t) :
    Conforms stray t :=
  conformsStep stray t (fun u _ hu => conforms_of_clear stray u hu) hc
termination_by sizeOf t

/-! ### Closures -/

theorem moduleNames_eq (R : Scoping) (module : Ast) :
    R.moduleNames module = declared .module (R.facts .refers module) := by
  unfold moduleNames kept Outline.declared
  rw [lexicalAll_facts, hoistedAll_facts]

/-- A function of the table is one of the language, with the same names apart from strays. -/
theorem exists_place (module : Ast) {s : Site} (hs : s ∈ ScopeTable.moduleSites (outline module)) :
    ∃ s', placeOf s' ∈ language.places module ∧ SiteAgrees (strays module) s s' := by
  have hall : Agrees (strays module) (outline module) (language.facts .refers module) :=
    (conforms_of_clear (strays module) module fun n hn => hn).refers
  have hsame : Same (strays module) (outline module) [declared .module (outline module)]
      [declared .module (language.facts .refers module)] := fun n hn _ => by
    simp [Within, hall.declared .module hn]
  rcases hall.sites _ _ [] hsame s hs with ⟨s', hs', h⟩ | ⟨s', hs', _⟩
  · refine ⟨s', ?_, h⟩
    rw [← moduleNames_eq] at hs'
    exact (language.sitesIn_perm _ _ _).mem_iff.2 (List.mem_map_of_mem hs')
  · simp [sitesAll] at hs'

/-- **A closure is what the language says, apart from strays.** For a function that the table has a
scope for, and whose span no other function has, the closure has the names that are free in it and
declared around it by the rules of the language, its own name aside. -/
theorem mem_capture_language_iff (module : Ast)
    (hd : ((language.places module).map (·.span)).Nodup)
    (p : Place) (hp : p ∈ language.places module)
    (hr : ((ScopeTable.ofModule module).functionScope? p.span).isSome)
    (c : Candidate) (hc : c.span = p.span) :
    ∃ closure, capture (ScopeTable.ofModule module) c = .ok closure ∧
      ∀ n ∉ strays module, n ∈ closure.names ↔
        n ∈ p.free ∧ (∃ names ∈ p.scopes, n ∈ names) ∧ c.ownName? ≠ some n := by
  obtain ⟨own, hown⟩ := Option.isSome_iff_exists.1 hr
  rw [ScopeTable.ofModule_eq] at hown
  obtain ⟨s, hs, hspan, hcap⟩ := ScopeTable.captures_of_functionScope? (outline module) hown
  obtain ⟨s', hs', h⟩ := exists_place module hs
  obtain rfl : placeOf s' = p :=
    List.inj_on_of_nodup_map hd hs' hp (h.span.trans hspan)
  refine ⟨captureFrom (ScopeTable.ofModule module) own c.ownName?, ?_, fun n hn => ?_⟩
  · simp only [capture, hc, ScopeTable.ofModule_eq, hown]
  · rw [ScopeTable.ofModule_eq, hcap.names, mem_firstMentions, List.mem_filter]
    have haround : n ∈ s'.free → ((∃ names ∈ s.around, n ∈ names) ↔ ∃ names ∈ s'.around, n ∈ names) :=
      fun hf => h.around n hn ((h.free n hn).2 hf)
    simp only [placeOf, h.free n hn, Bool.and_eq_true, List.any_eq_true, List.contains_iff_mem,
      bne_iff_ne, ne_eq]
    exact and_congr_right fun hf => and_congr_left fun _ => haround hf

/-- `const x = 1, y = 2; function f(a = y) { var y = x; return a; }` -/
def sampleDefault : Ast :=
  made (.module none)
    [made (.varDecl .const false)
      [made (.declarator false) [madeBinding "x", madeNumber 1],
       made (.declarator false) [madeBinding "y", madeNumber 2]],
     made (.funcDecl false) [madeIdent "f",
       .node (.function false false) ⟨21, 64⟩
         [.list [made .param [.list [], made .assignPat [madeBinding "a", madeIdent "y"]]], .list [],
          made .block
            [made (.varDecl .var false)
              [made (.declarator false) [madeBinding "y", madeIdent "x"]],
             made .returnStmt [madeIdent "a"]],
          .absent, .absent]]]

theorem mem_capture_sampleDefault_iff :
    ∃ closure,
      capture (ScopeTable.ofModule sampleDefault) { sampleCandidate with span := ⟨21, 64⟩ } =
        .ok closure ∧
      ∀ n ∉ ["y"], n ∈ closure.names ↔
        n ∈ ["y", "x"] ∧ (∃ names ∈ [["x", "y", "f"]], n ∈ names) ∧ some "f" ≠ some n := by
  have hplaces : language.places sampleDefault = [⟨⟨21, 64⟩, ["y", "x"], [["x", "y", "f"]]⟩] := by
    decide +kernel
  have hstrays : strays sampleDefault = ["y"] := by decide +kernel
  have h := mem_capture_language_iff sampleDefault (by rw [hplaces]; decide)
    ⟨⟨21, 64⟩, ["y", "x"], [["x", "y", "f"]]⟩ (by rw [hplaces]; simp) (by decide +kernel)
    { sampleCandidate with span := ⟨21, 64⟩ } rfl
  rw [hstrays] at h
  exact h

end Worklet
