import Worklet.Proofs.Convert.Resited

/-!
# Trees that differ in markers

Two trees may differ in the markers at the heads of some blocks, and then the texts of the worklets
around these blocks differ, too.

Principal results: `echoes_unmark` — a tree and what `unmark` makes of it; `Echoes.outlines` — the two
trees have the same scopes and names; `Echoes.hasDirective_eq` — a body has a marker unless it lost it;
`Prepared.Echoes.wrapper` — wrappers of two such functions are two such trees; `FormOf.echoes` — two
such nodes are converted in the same way.
-/

set_option autoImplicit false

namespace Worklet

open Syntax Scoping

/-! ### Losing markers -/

/-- The block that was read at a place is one of those that lose their markers. -/
def isCleared (cleared : List Span) (s : Span) : Bool :=
  !s.isMade && cleared.contains s

/-- The node is a block that loses its markers. -/
def isClearedBlock (cleared : List Span) : Kind → Span → Bool
  | .block, s => isCleared cleared s
  | _, _ => false

mutual

/-- The tree without the markers at the heads of some blocks. -/
def unmark (marker : String) (cleared : List Span) : Ast → Ast
  | .absent => .absent
  | .list ts => .list (unmarkAll marker cleared ts)
  | .node k s cs =>
    .node k s
      (if isClearedBlock cleared k s then
        (unmarkAll marker cleared cs).dropWhile (isDirective marker)
      else unmarkAll marker cleared cs)

def unmarkAll (marker : String) (cleared : List Span) : List Ast → List Ast
  | [] => []
  | t :: ts => unmark marker cleared t :: unmarkAll marker cleared ts

end

@[simp] theorem isCleared_made (cleared : List Span) : isCleared cleared Span.made = false := rfl

@[simp] theorem isClearedBlock_made (cleared : List Span) (k : Kind) :
    isClearedBlock cleared k Span.made = false := by
  cases k <;> rfl

theorem isClearedBlock_eq_true {cleared : List Span} {k : Kind} {s : Span}
    (h : isClearedBlock cleared k s = true) : k = .block ∧ isCleared cleared s = true := by
  cases k with
  | block => exact ⟨rfl, h⟩
  | _ => cases h

/-! ### Echoes -/

/-- The properties that are told from the text of a worklet. -/
inductive Tells (config : Config) (c : Candidate) : String → Ast → Prop
  | text : Tells config c "asString" (madeString (canonicalText config.target c))
  | hash : Tells config c "__workletHash"
    (madeNumber (workletHash (canonicalText config.target c)))

mutual

/-- The second tree is the first without the markers of some blocks. The text of a worklet is that of
the function, so it may have lost some, too. -/
inductive Echoes (config : Config) (cleared : List Span) : Ast → Ast → Prop
  | absent : Echoes config cleared .absent .absent
  | list {ts ts' : List Ast} : EchoesAll config cleared ts ts' →
    Echoes config cleared (.list ts) (.list ts')
  | node {k : Kind} {s : Span} {cs cs' : List Ast} : isClearedBlock cleared k s = false →
    EchoesAll config cleared cs cs' → Echoes config cleared (.node k s cs) (.node k s cs')
  | cleared {s : Span} {ss ss' : List Ast} : isCleared cleared s = true →
    EchoesAll config cleared (ss.dropWhile (isDirective config.marker)) ss' →
    Echoes config cleared (.node .block s ss) (.node .block s ss')
  | attached (name : String) {c c' : Candidate} {prop : String} {v v' : Ast} :
    EchoesAll config cleared c.params c'.params → Echoes config cleared c.body c'.body →
    c' = { c with params := c'.params, body := c'.body } →
    Tells config c prop v → Tells config c' prop v' →
    Echoes config cleared (assignProperty name prop v) (assignProperty name prop v')

inductive EchoesAll (config : Config) (cleared : List Span) : List Ast → List Ast → Prop
  | nil : EchoesAll config cleared [] []
  | cons {t t' : Ast} {ts ts' : List Ast} : Echoes config cleared t t' →
    EchoesAll config cleared ts ts' → EchoesAll config cleared (t :: ts) (t' :: ts')

end

variable {hooks : HookRegistry} {c c' : Candidate}

section Echoes

variable {config : Config} {cleared : List Span} {t t' : Ast} {ts ts' us us' : List Ast} {k : Kind}
  {s : Span}

theorem EchoesAll.forall₂ : ∀ {ts ts' : List Ast}, EchoesAll config cleared ts ts' →
    List.Forall₂ (Echoes config cleared) ts ts'
  | _, _, .nil => .nil
  | _, _, .cons h hs => .cons h hs.forall₂

theorem EchoesAll.of_forall₂ (h : List.Forall₂ (Echoes config cleared) ts ts') :
    EchoesAll config cleared ts ts' := by
  induction h with
  | nil => exact .nil
  | cons h _ ih => exact .cons h ih

theorem EchoesAll.append (h : EchoesAll config cleared ts ts') (h' : EchoesAll config cleared us us') :
    EchoesAll config cleared (ts ++ us) (ts' ++ us') :=
  .of_forall₂ (List.rel_append h.forall₂ h'.forall₂)

theorem EchoesAll.map {f : Ast → Ast}
    (hf : ∀ t t', Echoes config cleared t t' → Echoes config cleared (f t) (f t'))
    (h : EchoesAll config cleared ts ts') : EchoesAll config cleared (ts.map f) (ts'.map f) := by
  refine .of_forall₂ (List.forall₂_map_left_iff.2 (List.forall₂_map_right_iff.2 ?_))
  exact h.forall₂.imp hf

theorem Echoes.made (h : EchoesAll config cleared ts ts') :
    Echoes config cleared (made k ts) (made k ts') :=
  .node (isClearedBlock_made cleared k) h

theorem echoes_madeIdent (n : String) : Echoes config cleared (madeIdent n) (madeIdent n) :=
  .made .nil

/-- A pair of nodes that are no statements and no blocks has such children. -/
theorem Echoes.children {cs : List Ast} (h : Echoes config cleared (.node k s cs) t')
    (hk : k ≠ .exprStmt) (hb : k ≠ .block) :
    ∃ cs', t' = .node k s cs' ∧ EchoesAll config cleared cs cs' := by
  generalize ht : Ast.node k s cs = t at h
  cases h with
  | node _ hcs =>
    cases ht
    exact ⟨_, rfl, hcs⟩
  | cleared =>
    cases ht
    exact absurd rfl hb
  | attached =>
    cases ht
    exact absurd rfl hk
  | _ => cases ht

/-- The second tree is a node of the first one's kind in its place. -/
theorem Echoes.kind {cs' : List Ast} (h : Echoes config cleared t (.node k s cs')) :
    ∃ cs, t = .node k s cs := by
  generalize ht : Ast.node k s cs' = t' at h
  cases h with
  | absent | list _ => cases ht
  | _ =>
    cases ht
    exact ⟨_, rfl⟩

/-! ### What others see -/

theorem Echoes.span (h : Echoes config cleared t t') : t'.span = t.span := by
  cases h <;> rfl

theorem isDirective_assignProperty (marker name prop : String) (value : Ast) :
    isDirective marker (assignProperty name prop value) = false :=
  rfl

theorem Echoes.isDirective_eq (h : Echoes config cleared t t') (marker : String) :
    isDirective marker t' = isDirective marker t := by
  cases h with
  | @node k s cs cs' _ hcs =>
    by_cases hk : k = .exprStmt
    · subst hk
      rcases hcs with _ | ⟨h, _ | ⟨_, _⟩⟩
      case cons.nil =>
        cases h with
        | @node k s cs cs' _ hcs =>
          cases k with
          | strLit v raw => rcases hcs with _ | ⟨_, _⟩ <;> rfl
          | _ => rfl
        | _ => rfl
      case nil => rfl
      case cons.cons => simp [isDirective]
    · have hnot (cs : List Ast) : isDirective marker (.node k s cs) = false := by
        unfold isDirective
        split
        · rename_i heq
          cases heq
          exact absurd rfl hk
        · rfl
      rw [hnot, hnot]
  | attached => rw [isDirective_assignProperty, isDirective_assignProperty]
  | _ => rfl

theorem EchoesAll.dropWhile (h : EchoesAll config cleared ts ts') (marker : String) :
    EchoesAll config cleared (ts.dropWhile (isDirective marker))
      (ts'.dropWhile (isDirective marker)) := by
  refine .of_forall₂ ?_
  replace h := h.forall₂
  induction h with
  | nil => exact .nil
  | cons h hs ih =>
    rw [List.dropWhile_cons, List.dropWhile_cons, h.isDirective_eq]
    split
    · exact ih
    · exact .cons h hs

mutual

/-- **A tree and what is left of it without some markers.** -/
theorem echoes_unmark : ∀ t, Echoes config cleared t (unmark config.marker cleared t)
  | .absent => .absent
  | .list ts => .list (echoesAll_unmark ts)
  | .node k s cs => by
    rw [unmark]
    split
    · rename_i h
      obtain ⟨rfl, hs⟩ := isClearedBlock_eq_true h
      exact .cleared hs ((echoesAll_unmark cs).dropWhile _)
    · rename_i h
      exact .node (Bool.eq_false_iff.2 h) (echoesAll_unmark cs)

theorem echoesAll_unmark : ∀ ts, EchoesAll config cleared ts (unmarkAll config.marker cleared ts)
  | [] => .nil
  | t :: ts => .cons (echoes_unmark t) (echoesAll_unmark ts)

end

mutual

theorem Echoes.resembles : ∀ {t t' : Ast}, Echoes config cleared t t' →
    Resembles hooks t t'
  | _, _, .absent => ⟨rfl, rfl, rfl, rfl, rfl, rfl, rfl, rfl, rfl, rfl, rfl, id⟩
  | _, _, .list _ => .of_bland (.of_not_isTelling rfl) (.of_not_isTelling rfl) id
  | _, _, .node _ h => .node h.resembles
  | _, _, .cleared _ _ => .of_bland (.of_not_isTelling rfl) (.of_not_isTelling rfl) id
  | _, _, .attached _ _ _ _ _ _ => .of_bland (.of_not_isTelling rfl) (.of_not_isTelling rfl) id

theorem EchoesAll.resembles : ∀ {ts ts' : List Ast},
    EchoesAll config cleared ts ts' → List.Forall₂ (Resembles hooks) ts ts'
  | _, _, .nil => .nil
  | _, _, .cons h hs => .cons h.resembles hs.resembles

end

theorem Echoes.unparen : ∀ {t t' : Ast}, Echoes config cleared t t' →
    Echoes config cleared t.unparen t'.unparen
  | _, _, .absent => .absent
  | _, _, .list h => .list h
  | .node k s cs, _, .node hk h => by
    by_cases hparen : k = .paren ∧ ∃ e, cs = [e]
    · obtain ⟨rfl, e, rfl⟩ := hparen
      cases h with
      | cons h hs =>
        cases hs
        exact h.unparen
    · rw [unparen_eq_self, unparen_eq_self]
      · exact .node hk h
      · rintro s e ⟨⟩
        cases h with
        | cons h hs =>
          cases hs
          exact hparen ⟨rfl, _, rfl⟩
      · rintro s e ⟨⟩
        exact hparen ⟨rfl, e, rfl⟩
  | _, _, .cleared hs h => .cleared hs h
  | _, _, .attached name hp hb hc hv hv' => .attached name hp hb hc hv hv'

theorem Echoes.isFunctionLiteral_eq (h : Echoes config cleared t t') :
    isFunctionLiteral t' = isFunctionLiteral t := by
  unfold isFunctionLiteral
  have h := h.unparen
  generalize t.unparen = u at h
  generalize t'.unparen = u' at h
  cases h with
  | @node k s cs cs' => cases k <;> rfl
  | _ => rfl

/-- What does not see a marker at the head does not see all of them. -/
theorem eq_dropWhile_directive {α : Type} {f : List Ast → α} {marker : String}
    (h : ∀ t ts, isDirective marker t = true → f (t :: ts) = f ts) (ss : List Ast) :
    f (ss.dropWhile (isDirective marker)) = f ss := by
  induction ss with
  | nil => rfl
  | cons t ts ih =>
    rw [List.dropWhile_cons]
    split
    · rename_i ht
      rw [ih, h t ts ht]
    · rfl

/-- A told property says nothing of names. -/
theorem Tells.bare {prop : String} {v : Ast} (h : Tells config c prop v) :
    identNames v = [] ∧ usesSuper v = false ∧ ∀ m, outlineIn m v = [] := by
  cases h <;> exact ⟨rfl, rfl, fun m => by cases m <;> rfl⟩

mutual

/-- The same names are mentioned, and `super` where it was. -/
theorem Echoes.words_eq : ∀ {t t' : Ast}, Echoes config cleared t t' →
    identNames t' = identNames t ∧ usesSuper t' = usesSuper t
  | _, _, .absent => ⟨rfl, rfl⟩
  | _, _, .list h => h.words_eq
  | .node k s cs, _, .node _ h => by
    obtain ⟨hnames, hsuper⟩ := h.words_eq
    refine ⟨by cases k <;> simp only [identNames, hnames], ?_⟩
    cases k
    case class_ =>
      rcases h with _ | ⟨_, _ | ⟨_, _ | ⟨hbase, _⟩⟩⟩
      case cons.cons.cons => simp only [usesSuper, hbase.words_eq.2]
      all_goals simp only [usesSuper, hsuper]
    all_goals simp only [usesSuper, hsuper]
  | .node .block s ss, _, .cleared _ h => by
    obtain ⟨hnames, hsuper⟩ := h.words_eq
    simp only [identNames, usesSuper, hnames, hsuper]
    constructor
    all_goals
      refine eq_dropWhile_directive (fun t ts ht => ?_) ss
      obtain ⟨s, s', v, raw, rfl, -⟩ := isDirective_eq_true ht
      simp [identNamesAll, identNames, usesSuperAny, usesSuper]
  | _, _, .attached _ _ _ _ hv hv' => by
    simp only [assignProperty, madeStatement, madeAssign, madeMember, made, identNames, identNamesAll,
      usesSuper, usesSuperAny, hv.bare, hv'.bare, and_self]

theorem EchoesAll.words_eq : ∀ {ts ts' : List Ast}, EchoesAll config cleared ts ts' →
    identNamesAll ts' = identNamesAll ts ∧ usesSuperAny ts' = usesSuperAny ts
  | _, _, .nil => ⟨rfl, rfl⟩
  | _, _, .cons h hs => by
    simp only [identNamesAll, usesSuperAny, h.words_eq, hs.words_eq, and_self]

end

/-! ### Bodies -/

theorem head_dropWhile_directive (marker : String) (ss : List Ast) :
    (ss.dropWhile (isDirective marker)).head?.any (isDirective marker) = false := by
  cases h : (ss.dropWhile (isDirective marker)).head? with
  | none => rfl
  | some t => simpa [h] using List.head?_dropWhile_not (isDirective marker) ss

theorem EchoesAll.head_isDirective (h : EchoesAll config cleared ts ts') (marker : String) :
    ts'.head?.any (isDirective marker) = ts.head?.any (isDirective marker) := by
  cases h with
  | nil => rfl
  | cons h _ => exact h.isDirective_eq marker

/-- **A body has a marker if it had one and did not lose it.** -/
theorem Echoes.hasDirective_eq (h : Echoes config cleared t t') :
    hasDirective config.marker t' = (hasDirective config.marker t && !isCleared cleared t.span) := by
  have hnot {k : Kind} (hk : k ≠ .block) (s : Span) (cs : List Ast) :
      hasDirective config.marker (.node k s cs) = false := by
    cases k with
    | block => exact absurd rfl hk
    | _ => rfl
  cases h with
  | @node k s cs cs' hclear hcs =>
    by_cases hk : k = .block
    · subst hk
      have hclear : isCleared cleared s = false := hclear
      simp only [hasDirective_block, Ast.span, hclear, hcs.head_isDirective, Bool.not_false,
        Bool.and_true]
    · rw [hnot hk, hnot hk, Bool.false_and]
  | cleared hclear hss =>
    simp only [hasDirective_block, hss.head_isDirective, head_dropWhile_directive, Ast.span, hclear,
      Bool.not_true, Bool.and_false]
  | _ => rfl

/-- A body that keeps its markers loses the same one when it is converted. -/
theorem Echoes.stripDirective (h : Echoes config cleared t t')
    (ht : isCleared cleared t.span = false) :
    Echoes config cleared (stripDirective config.marker t) (stripDirective config.marker t') := by
  have hnot {k : Kind} (hk : k ≠ .block) (s : Span) (cs : List Ast) :
      Worklet.stripDirective config.marker (.node k s cs) = .node k s cs := by
    cases k with
    | block => exact absurd rfl hk
    | _ => rfl
  cases h with
  | @node k s cs cs' hclear hcs =>
    by_cases hk : k = .block
    · subst hk
      cases hcs with
      | nil => exact .node hclear .nil
      | cons h hs =>
        simp only [Worklet.stripDirective, h.isDirective_eq]
        split
        · exact .node hclear hs
        · exact .node hclear (.cons h hs)
    · rw [hnot hk, hnot hk]
      exact .node hclear hcs
  | cleared hclear _ => exact absurd hclear (Bool.eq_false_iff.1 ht)
  | attached name hp hb hc hv hv' => exact .attached name hp hb hc hv hv'
  | absent => exact .absent
  | list h => exact .list h

theorem span_stripDirective (marker : String) (t : Ast) : (stripDirective marker t).span = t.span := by
  unfold stripDirective
  split
  · split <;> rfl
  · rfl

/-! ### Names and scopes -/

theorem likeness_echoes : Likeness id (Echoes config cleared) where
  present h := by cases h <;> rfl
  list {t t'} h := by
    cases h with
    | list h => exact .inl ⟨_, _, rfl, rfl, h.forall₂⟩
    | _ => exact .inr ⟨by simp [assignProperty, madeStatement, made],
        by simp [assignProperty, madeStatement, made]⟩
  block {t t'} h := by
    cases h <;> simp [assignProperty, madeStatement, made]
  node {t t' k} h hk := by
    have hb : k ≠ .block := by
      rintro rfl
      cases hk
    have he : k ≠ .exprStmt := by
      rintro rfl
      cases hk
    by_cases ht : ∃ s cs, t = .node k s cs
    · obtain ⟨s, cs, rfl⟩ := ht
      obtain ⟨cs', rfl, hcs⟩ := h.children he hb
      exact .inl ⟨s, s, cs, cs', rfl, rfl, fun _ => rfl, hcs.forall₂⟩
    · refine .inr ⟨fun s cs heq => ht ⟨s, cs, heq⟩, ?_⟩
      rintro s cs' rfl
      obtain ⟨cs, rfl⟩ := h.kind
      exact ht ⟨s, cs, rfl⟩

theorem defaultsAlike_echoes (h : Echoes config cleared t t') :
    DefaultsAlike (Echoes config cleared) t t' := by
  by_cases ht : ∃ s cs, t = .node .funcExpr s cs
  · obtain ⟨s, cs, rfl⟩ := ht
    obtain ⟨cs', rfl, hcs⟩ := h.children (by simp) (by simp)
    exact .inl ⟨s, s, cs, cs', rfl, rfl, hcs.forall₂⟩
  · refine .inr ⟨fun s cs heq => ht ⟨s, cs, heq⟩, ?_⟩
    rintro s cs' rfl
    obtain ⟨cs, rfl⟩ := h.kind
    exact ht ⟨s, cs, rfl⟩

theorem outlineAll_dropWhile_directive (marker : String) (ss : List Ast) :
    outlineAll .refers (ss.dropWhile (isDirective marker)) = outlineAll .refers ss := by
  refine eq_dropWhile_directive (fun t ts ht => ?_) ss
  obtain ⟨s, s', v, raw, rfl, -⟩ := isDirective_eq_true ht
  simp [outlineAll, outlineAs, isTypeKind]

theorem EchoesAll.outlineAll (h : EchoesAll config cleared ts ts')
    (ih : ∀ t ∈ ts, ∀ t', Echoes config cleared t t' → outlineAs .refers t' = outlineAs .refers t) :
    outlineAll .refers ts' = outlineAll .refers ts := by
  replace h := h.forall₂
  induction h with
  | nil => rfl
  | cons h _ hrec =>
    rw [Worklet.outlineAll, Worklet.outlineAll, ih _ List.mem_cons_self _ h,
      hrec fun t ht => ih t (List.mem_cons_of_mem _ ht)]

/-- A relation of equal facts goes over from the parts to the whole. -/
theorem congruent_eq : Congruent id fun os os' => os' = os where
  nil := rfl
  append h h' := by rw [h, h']
  mention _ := rfl
  declare _ _ := rfl
  scope k f _ _ h := by rw [h, Option.map_id_apply]

/-- **Markers say nothing of scopes and names.** -/
theorem Echoes.outlines (m : Role) (h : Echoes config cleared t t') :
    outlineIn m t' = outlineIn m t := by
  refine plain.rule_induction (P := fun m t => ∀ t', Echoes config cleared t t' →
    outlineIn m t' = outlineIn m t) (fun m t ih t' h => ?_) m t t' h
  cases h with
  | absent => rfl
  | list hts =>
    exact (Likeness.rule_list hts.forall₂ m).outlines congruent_eq ih
  | @node k s cs cs' _ hcs =>
    refine (likeness_echoes.rule hcs.forall₂ m (fun _ => rfl) ?_).outlines congruent_eq ih
    rintro rfl t t' rfl rfl
    cases hcs with
    | cons h _ => exact defaultsAlike_echoes h
  | @cleared s ss ss' _ hss =>
    have hss : outlineAll .refers ss' = outlineAll .refers ss := by
      rw [← outlineAll_dropWhile_directive config.marker ss]
      refine hss.outlineAll fun u hu u' h => ih .refers u ?_ u' h
      have hu : u ∈ ss := List.dropWhile_suffix _ |>.subset hu
      cases m <;> simpa [plain, plainRuleAs, plainRule, Rule.inside, Rule.flat, Rule.block, Item.parts] using hu
    cases m <;> simp [outlineIn, outlineAs, bodyFacts, hss]
  | attached name hp hb hc hv hv' =>
    have hv := hv.bare.2.2 .refers
    have hv' := hv'.bare.2.2 .refers
    simp only [outlineIn] at hv hv'
    cases m <;>
      simp [assignProperty, madeStatement, madeAssign, madeMember, madeIdent, Syntax.made, outlineIn,
        outlineAs, outlineAll, bodyFacts, isTypeKind, hv, hv']

/-- A program without some markers has the scopes that it had. -/
theorem ofModule_unmark (module : Ast) :
    ScopeTable.ofModule (unmark config.marker cleared module) = ScopeTable.ofModule module := by
  have h := (@echoes_unmark config cleared module).outlines .refers
  rw [ScopeTable.ofModule, ScopeTable.ofModule]
  exact congrArg _ h

/-! ### Slots -/

theorem filterMap_zipIdx_congr {α β : Type} {R : α → α → Prop} {f : α × Nat → Option β}
    (hf : ∀ x y i, R x y → f (y, i) = f (x, i)) {xs ys : List α} (h : List.Forall₂ R xs ys) (n : Nat) :
    (ys.zipIdx n).filterMap f = (xs.zipIdx n).filterMap f := by
  induction h generalizing n with
  | nil => rfl
  | cons h _ ih => simp only [List.zipIdx_cons, List.filterMap_cons, hf _ _ _ h, ih]

/-- The same worklets are detected among the arguments. -/
theorem EchoesAll.detect_eq (h : EchoesAll config cleared ts ts') :
    hooks.detect (.node .call s ts') = hooks.detect (.node .call s ts) := by
  rcases h with _ | ⟨hcallee, _ | ⟨hargs, hrest⟩⟩
  case cons.cons =>
    cases hargs with
    | list hargs =>
      have hc : Resembles hooks _ _ := hcallee.resembles
      simp only [HookRegistry.detect, hc.callee, hc.builder]
      split
      · rfl
      · refine filterMap_zipIdx_congr (fun a b i h => ?_) hargs.forall₂ 0
        have hr : Resembles hooks a b := h.resembles
        simp only [HookRegistry.detectArg, h.isFunctionLiteral_eq, hr.object]
    | _ => rfl
  all_goals rfl

/-- The parts of the two trees stand in the same slots. -/
theorem EchoesAll.childSlot_eq (h : EchoesAll config cleared ts ts') (w : Slot) :
    hooks.childSlot w (.node k s ts') = hooks.childSlot w (.node k s ts) := by
  funext i
  cases k
  case exportDefaultDecl =>
    rcases h with _ | ⟨h, _ | ⟨_, _⟩⟩
    case cons.nil =>
      cases h with
      | @node k => cases k <;> rfl
      | _ => rfl
    all_goals simp [HookRegistry.childSlot]
  case call =>
    have hdetect : hooks.detect (.node .call s _) = hooks.detect (.node .call s _) := h.detect_eq
    rcases h with _ | ⟨_, _ | ⟨hargs, _⟩⟩
    case cons.cons =>
      cases hargs with
      | list hargs =>
        rcases i with _ | _ | i
        · rfl
        · exact congrArg Slot.arguments hdetect
        · rfl
      | _ => rfl
    all_goals rfl
  case paren => rcases h with _ | ⟨_, _ | ⟨_, _⟩⟩ <;> rfl
  case keyValue =>
    rcases h with _ | ⟨_, _ | ⟨hvalue, _ | ⟨_, _⟩⟩⟩
    case cons.cons.nil =>
      rcases i with _ | _ | i
      · rfl
      · simp only [HookRegistry.childSlot]
        unfold Slot.atValue
        rw [hvalue.isFunctionLiteral_eq]
      · rfl
    all_goals rfl
  case switchCase => cases i <;> rfl
  all_goals rfl

/-! ### Functions -/

/-- The second function is the first without the markers of some blocks. -/
structure Candidate.Echoes (config : Config) (cleared : List Span) (c c' : Candidate) : Prop where
  params : EchoesAll config cleared c.params c'.params
  body : Worklet.Echoes config cleared c.body c'.body
  rest : c' = { c with params := c'.params, body := c'.body }

/-- The second function is the first without the markers of some blocks. -/
inductive Subject.Echoes (config : Config) (cleared : List Span) : Subject → Subject → Prop
  | candidate {c c' : Candidate} : c.Echoes config cleared c' →
    Subject.Echoes config cleared (.candidate c) (.candidate c')
  | unsupported {shape : Shape} {span : Span} {body body' : Ast} :
    Worklet.Echoes config cleared body body' →
    Subject.Echoes config cleared (.unsupported shape span body) (.unsupported shape span body')

theorem Subject.Echoes.body {a b : Subject} (h : a.Echoes config cleared b) :
    Worklet.Echoes config cleared a.body b.body := by
  cases h with
  | candidate h => exact h.body
  | unsupported h => exact h

theorem Subject.Echoes.span_eq {a b : Subject} (h : a.Echoes config cleared b) : b.span = a.span := by
  cases h with
  | candidate h =>
    rw [Subject.span, Subject.span, h.rest]
  | unsupported h => rfl

theorem likeness_echoes_functions : FunctionLikeness id (Echoes config cleared) where
  toLikeness := likeness_echoes
  absent := .absent
  key h := (h.resembles : Resembles default _ _).key
  privateName h := (h.resembles : Resembles default _ _).privateName

theorem Echoes.arrowBody (h : Echoes config cleared t t') :
    Echoes config cleared (Candidate.arrowBody t) (Candidate.arrowBody t') := by
  by_cases ht : ∃ s ss, t = .node .block s ss
  · obtain ⟨s', ss', rfl⟩ := (likeness_echoes.block h).1 ht
    obtain ⟨s, ss, rfl⟩ := ht
    exact h
  · have hnot {t : Ast} (h : ¬ ∃ s ss, t = .node .block s ss) :
        Candidate.arrowBody t = .node .block t.span [.node .returnStmt t.span [t.unparen]] := by
      unfold Candidate.arrowBody
      split
      · exact absurd ⟨_, _, rfl⟩ h
      · rfl
    rw [hnot ht, hnot fun h' => ht ((likeness_echoes.block h).2 h'), h.span]
    have hreturn : EchoesAll config cleared [.node .returnStmt t.span [t.unparen]]
        [.node .returnStmt t.span [t'.unparen]] :=
      .cons (.node rfl (.cons h.unparen .nil)) .nil
    cases hc : isCleared cleared t.span with
    | false => exact .node hc hreturn
    | true => exact .cleared hc hreturn

theorem Candidate.Like.echoes (h : c.Like id (Worklet.Echoes config cleared) c') :
    c.Echoes config cleared c' := by
  obtain ⟨hkind, hname, hspan, hasync, hgen, hparams, hbody⟩ := h
  refine ⟨.of_forall₂ hparams, ?_, ?_⟩
  · rcases hbody with hbody | ⟨b, b', hb, hbody, hbody'⟩
    · exact hbody
    · rw [hbody, hbody']
      exact hb.arrowBody
  · cases c'
    simp_all

/-! ### Prepared functions -/

/-- A candidate with its text, what it captures and where it stands. -/
def Candidate.described (target : Target) (closure : List String) (location : Location)
    (c : Candidate) : Prepared where
  candidate := c
  metadata :=
    { closure, canonical := canonicalText target c, hash := workletHash (canonicalText target c)
      location }

/-- The second function is the first without the markers of some blocks, and its text says so. -/
inductive Prepared.Echoes (config : Config) (cleared : List Span) : Prepared → Prepared → Prop
  | described (closure : List String) (location : Location) {c c' : Candidate} :
    c.Echoes config cleared c' →
    Prepared.Echoes config cleared (c.described config.target closure location)
      (c'.described config.target closure location)

theorem Candidate.Echoes.isGenerator_eq (h : c.Echoes config cleared c') :
    c'.isGenerator = c.isGenerator := by
  rw [h.rest]

theorem Candidate.Echoes.usesSuper_eq (h : c.Echoes config cleared c') :
    c'.usesSuper = c.usesSuper := by
  rw [Candidate.usesSuper, Candidate.usesSuper, h.params.words_eq.2, h.body.words_eq.2]

theorem Candidate.Echoes.unmarked (h : c.Echoes config cleared c')
    (hc : isCleared cleared c.body.span = false) :
    (c.unmarked config.marker).Echoes config cleared (c'.unmarked config.marker) where
  params := h.params
  body := h.body.stripDirective hc
  rest := by
    conv_lhs => rw [h.rest]
    rfl

theorem capture_congr {table : ScopeTable} (h : c.Echoes config cleared c') (marker : String) :
    capture table (c'.unmarked marker) = capture table (c.unmarked marker) := by
  rw [h.rest]
  rfl

/-- Both functions can be prepared or neither can, for the same reason. -/
theorem Candidate.Echoes.prepare {job : Job} (hj : job.config = config)
    (h : c.Echoes config cleared c') :
    (∃ refusal, job.prepare c = .error refusal ∧ job.prepare c' = .error refusal) ∨
      ∃ p p', job.prepare c = .ok p ∧ job.prepare c' = .ok p' ∧
        p.candidate.body.span = c.body.span ∧
        (isCleared cleared c.body.span = false → p.Echoes config cleared p') := by
  subst hj
  simp only [Job.prepare, h.isGenerator_eq, h.usesSuper_eq, capture_congr h]
  split
  · exact .inl ⟨_, rfl, rfl⟩
  split
  · exact .inl ⟨_, rfl, rfl⟩
  split
  · exact .inl ⟨_, rfl, rfl⟩
  · rename_i closure _
    refine .inr ⟨_, _, rfl, rfl, span_stripDirective _ _, fun hc => ?_⟩
    have hspan : c'.span = c.span := by rw [h.rest]
    rw [hspan]
    exact .described closure.names (job.locate c.span) (h.unmarked hc)

theorem Subject.Echoes.prepare {a b : Subject} {job : Job} (hj : job.config = config)
    (h : a.Echoes config cleared b) :
    (∃ refusal, a.prepare job = .error refusal ∧ b.prepare job = .error refusal) ∨
      ∃ p p', a.prepare job = .ok p ∧ b.prepare job = .ok p' ∧
        p.candidate.body.span = a.body.span ∧
        (isCleared cleared a.body.span = false → p.Echoes config cleared p') := by
  cases h with
  | candidate h => exact h.prepare hj
  | unsupported h => exact .inl ⟨_, rfl, rfl⟩

/-! ### What is made of them -/

theorem echoesAll_madeIdents (names : List String) :
    EchoesAll config cleared (names.map madeIdent) (names.map madeIdent) := by
  induction names with
  | nil => exact .nil
  | cons n ns ih => exact .cons (echoes_madeIdent n) ih

theorem Echoes.assignProperty {a b : Ast} (name prop : String) (h : Echoes config cleared a b) :
    Echoes config cleared (assignProperty name prop a) (assignProperty name prop b) :=
  .made (.cons (.made (.cons (.made (.cons (echoes_madeIdent name) (.cons (.made .nil) .nil)))
    (.cons h .nil))) .nil)

variable {p p' : Prepared}

theorem Prepared.Echoes.candidate (h : p.Echoes config cleared p') :
    p.candidate.Echoes config cleared p'.candidate := by
  cases h with
  | described _ _ h => exact h

theorem Prepared.Echoes.metadataStmts (h : p.Echoes config cleared p') (name : String) :
    EchoesAll config cleared (metadataStmts name p.metadata) (metadataStmts name p'.metadata) := by
  cases h with
  | described closure location h =>
    exact .cons (.assignProperty _ _ (.made (echoesAll_madeIdents closure)))
      (.cons (.attached name h.params h.body h.rest .text .text)
      (.cons (.attached name h.params h.body h.rest .hash .hash)
      (.cons (.assignProperty _ _ (.made .nil)) .nil)))

theorem Candidate.Echoes.toFunction (h : c.Echoes config cleared c') :
    Worklet.Echoes config cleared c.toFunction c'.toFunction := by
  have hps : EchoesAll config cleared c.paramList c'.paramList :=
    h.params.map fun _ _ h => .made (.cons (.list .nil) (.cons h .nil))
  have hfun : c'.toFunction = madeFunction c.isAsync c.isGenerator c'.paramList c'.body := by
    rw [Candidate.toFunction, h.rest]
  rw [hfun]
  exact .made (.cons (.list hps) (.cons (.list .nil) (.cons h.body (.cons .absent (.cons .absent .nil)))))

/-- **The wrappers of two such functions.** They bind the same name, since markers spell none. -/
theorem Prepared.Echoes.wrapper (h : p.Echoes config cleared p') :
    Worklet.Echoes config cleared p.wrapper p'.wrapper := by
  have hfun := h.candidate.toFunction
  have hself : selfName? p'.candidate = selfName? p.candidate := by
    rw [h.candidate.rest]
    rfl
  have hnames : UsedNames.ofTree p'.candidate.toFunction = UsedNames.ofTree p.candidate.toFunction := by
    rw [UsedNames.ofTree, UsedNames.ofTree, hfun.words_eq.1]
  have hname (n : String) : EchoesAll config cleared [madeIdent n] [madeIdent n] :=
    .cons (echoes_madeIdent n) .nil
  rw [Prepared.wrapper, Prepared.wrapper, hself, hnames]
  generalize (_ : UsedNames).freshName canonicalName = binding
  refine .made (.cons (.made (.cons (.made (.cons .absent (.cons ?_ .nil))) .nil))
    (.cons (.list .nil) (.cons .absent .nil)))
  refine .made (.cons (.list .nil) (.cons (.list .nil) (.cons ?_ (.cons .absent (.cons .absent .nil)))))
  refine .made (.cons (.made (.cons (.made (.cons ?_ (.cons ?_ .nil))) .nil)) (.append ?_ ?_))
  · exact .made (.cons (echoes_madeIdent binding) (.cons .absent .nil))
  · exact .made (.cons (echoes_madeIdent _) (.cons hfun .nil))
  · exact h.metadataStmts binding
  · exact .cons (.made (hname binding)) .nil

theorem Echoes.delegate (h : Echoes config cleared t t') (cache : Option String) :
    Echoes config cleared (delegate t cache) (delegate t' cache) := by
  have hcall {callee callee' : Ast} (hc : Echoes config cleared callee callee') :
      Echoes config cleared
        (madeBlock [madeReturn (madeCall (madeMember callee "apply")
          [Syntax.made .this [], madeIdent "arguments"])])
        (madeBlock [madeReturn (madeCall (madeMember callee' "apply")
          [Syntax.made .this [], madeIdent "arguments"])]) :=
    .made (.cons (.made (.cons (.made (.cons (.made (.cons hc (.cons (.made .nil) .nil)))
      (.cons (.list (.cons (.made .nil) (.cons (echoes_madeIdent _) .nil))) (.cons .absent .nil))))
      .nil)) .nil)
  cases cache with
  | none => exact hcall h
  | some n =>
    refine hcall (.made (.cons (.made (.cons (echoes_madeIdent n) (.cons ?_ .nil))) .nil))
    refine .made (.cons (.made (.cons ?_ (.cons h .nil))) .nil)
    exact .made (.cons (echoes_madeIdent n) (.cons .absent .nil))

theorem Echoes.withBody {b b' : Ast} (hb : Echoes config cleared b b')
    (h : Echoes config cleared t t') :
    Echoes config cleared (withBody b t) (withBody b' t') ∧
      Echoes config cleared (declaredWith b t) (declaredWith b' t') := by
  rcases likeness_echoes.function_or h with ⟨a, g, s, cs, cs', rfl, rfl, hcs⟩ | ⟨hf, hf'⟩
  · have hcs := EchoesAll.of_forall₂ hcs
    rcases hcs with _ | ⟨hps, _ | ⟨hd, _ | ⟨_, hrest⟩⟩⟩
    case cons.cons.cons =>
      exact ⟨.node rfl (.cons hps (.cons hd (.cons hb hrest))),
        .node rfl (.cons hps (.cons (.list .nil) (.cons hb hrest)))⟩
    all_goals exact ⟨h, h⟩
  · have hsame {t : Ast} (b : Ast) (hf : ∀ a g s cs, t ≠ .node (.function a g) s cs) :
        Worklet.withBody b t = t ∧ declaredWith b t = t := by
      constructor
      · unfold Worklet.withBody
        split
        · exact absurd rfl (hf _ _ _ _)
        · rfl
      · unfold declaredWith
        split
        · exact absurd rfl (hf _ _ _ _)
        · rfl
    rw [(hsame b hf).1, (hsame b hf).2, (hsame b' hf').1, (hsame b' hf').2]
    exact ⟨h, h⟩

/-! ### Forms -/

/-- Two forms make of two such functions two such trees. -/
structure Form.Echoes (config : Config) (cleared : List Span) (f f' : Form) : Prop where
  subject : f.subject.Echoes config cleared f'.subject
  isAccessor : f'.isAccessor = f.isAccessor
  turned : ∀ {p p' : Prepared} (cache : Option String), p.Echoes config cleared p' →
    Worklet.Echoes config cleared (f.turned p cache) (f'.turned p' cache)
  callable : ∀ {p p' : Prepared}, p.Echoes config cleared p' →
    Worklet.Echoes config cleared (f.callable p) (f'.callable p')
  attached : ∀ {p p' : Prepared}, p.Echoes config cleared p' →
    EchoesAll config cleared (f.attached p) (f'.attached p')

variable {c c' : Candidate} {place place' : Ast → Ast}
  (hplace : ∀ {e e' : Ast}, Worklet.Echoes config cleared e e' →
    Worklet.Echoes config cleared (place e) (place' e'))
include hplace

theorem Form.Echoes.wrapped (h : c.Echoes config cleared c') :
    (Form.wrapped place c).Echoes config cleared (.wrapped place' c') where
  subject := .candidate h
  isAccessor := rfl
  turned _ hp := hplace hp.wrapper
  callable hp := hp.candidate.toFunction
  attached _ := .nil

theorem Form.Echoes.accessor (h : c.Echoes config cleared c') :
    (Form.accessor place c).Echoes config cleared (.accessor place' c') where
  subject := .candidate h
  isAccessor := rfl
  turned cache hp := hplace (hp.wrapper.delegate cache)
  callable hp := hp.candidate.toFunction
  attached _ := .nil

theorem Form.Echoes.declared (h : c.Echoes config cleared c') {f f' : Ast}
    (hf : Worklet.Echoes config cleared f f') (name : String) :
    (Form.declared place name f c).Echoes config cleared (.declared place' name f' c') where
  subject := .candidate h
  isAccessor := rfl
  turned _ hp := hplace (hp.candidate.body.withBody hf).1
  callable hp := (hp.candidate.body.withBody hf).2
  attached hp := hp.metadataStmts name

theorem rel_ofDeclaration {name name' f f' : Ast}
    (hn : Echoes config cleared name name') (hf : Echoes config cleared f f') :
    Option.Rel (Form.Echoes config cleared) (Form.ofDeclaration place name f)
      (Form.ofDeclaration place' name' f') := by
  rw [Form.ofDeclaration, Form.ofDeclaration, likeness_echoes.identName?_eq hn]
  cases name.identName? with
  | none => exact .none
  | some n =>
    exact rel_map (fun h => .declared hplace h.echoes hf n)
      (likeness_echoes_functions.ofFunction hf .declaration (some n))

omit hplace

theorem rel_map_form {F F' : Candidate → Form} {a b : Option Candidate}
    (hF : ∀ {c c' : Candidate}, c.Echoes config cleared c' → (F c).Echoes config cleared (F' c'))
    (h : Option.Rel (Candidate.Like id (Echoes config cleared)) a b) :
    Option.Rel (Form.Echoes config cleared) (a.map F) (b.map F') :=
  rel_map (fun h => hF h.echoes) h

/-- **Two such nodes are functions of the same form.** -/
theorem EchoesAll.form? (h : EchoesAll config cleared ts ts') (w : Slot) :
    Option.Rel (Form.Echoes config cleared) (form? w (.node k s ts)) (form? w (.node k s ts')) := by
  have L : FunctionLikeness id (Worklet.Echoes config cleared) := likeness_echoes_functions
  cases hk : isFunctionKind k with
  | false =>
    rw [form?_eq_none hk, form?_eq_none hk]
    exact .none
  | true =>
    revert hk
    fun_cases isFunctionKind k <;> intro hk
    · rcases h with _ | ⟨hname, _ | ⟨hf, _ | ⟨_, _⟩⟩⟩
      case cons.cons.nil =>
        simp only [Worklet.form?, likeness_echoes.identName?_eq hname]
        split
        · exact .none
        · exact rel_map_form (.wrapped id) (L.ofFunction hf _ _)
      all_goals exact .none
    · exact rel_map_form (.wrapped id) (L.ofArrow h.forall₂ rfl _)
    · rcases h with _ | ⟨hname, _ | ⟨hf, _ | ⟨_, _⟩⟩⟩
      case cons.cons.nil =>
        exact rel_ofDeclaration (fun h => .node rfl (.cons hname (.cons h .nil))) hname hf
      all_goals exact .none
    · rcases h with _ | ⟨hkey, _ | ⟨hf, _ | ⟨_, _⟩⟩⟩
      case cons.cons.nil =>
        have hr : Resembles default _ _ := hkey.resembles
        simp only [Worklet.form?, hr.key]
        exact rel_map_form (.wrapped fun h => .made (.cons hkey (.cons h .nil))) (L.ofFunction hf _ _)
      all_goals exact .none
    · have hc := L.ofGetter h.forall₂ (s := s) rfl
      rcases h with _ | ⟨hkey, _ | ⟨htype, _ | ⟨_, _ | ⟨_, _⟩⟩⟩⟩
      case cons.cons.cons.nil =>
        exact rel_map_form
          (.accessor fun h => .node rfl (.cons hkey (.cons htype (.cons h .nil)))) hc
      all_goals exact .none
    · have hc := L.ofSetter h.forall₂ (s := s) rfl
      rcases h with _ | ⟨hkey, _ | ⟨hthis, _ | ⟨hparam, _ | ⟨_, _ | ⟨_, _⟩⟩⟩⟩⟩
      case cons.cons.cons.cons.nil =>
        exact rel_map_form
          (.accessor fun h => .node rfl (.cons hkey (.cons hthis (.cons hparam (.cons h .nil))))) hc
      all_goals exact .none
    · rename_i kind mods
      rcases h with _ | ⟨hkey, _ | ⟨hf, _ | ⟨_, _⟩⟩⟩
      case cons.cons.nil =>
        have hr : Resembles default _ _ := hkey.resembles
        simp only [Worklet.form?, hr.key, hr.privateName]
        split
        · exact .some ⟨.unsupported (L.functionBody hf), rfl, fun _ _ => .absent, fun _ => .absent,
            fun _ => .nil⟩
        · refine rel_map_form (fun {c c'} h => ?_) (L.ofFunction hf _ _)
          cases kind with
          | method =>
            exact .wrapped (fun h => .node rfl
              (.cons hkey (.cons h (.cons .absent (.cons (.list .nil) .nil))))) h
          | getter | setter =>
            exact .accessor (fun h => .node rfl (.cons hkey (.cons (h.withBody hf).1 .nil))) h
      all_goals exact .none
    · exact .some ⟨.unsupported (L.getD h.forall₂ 2), rfl, fun _ _ => .absent, fun _ => .absent, fun _ => .nil⟩
    · have hnot {ts : List Ast} (h : ¬ ∃ fs name f, ts = [.node .funcExpr fs [name, f]]) :
          Worklet.form? w (.node .exportDefaultDecl s ts) = none := by
        unfold Worklet.form?
        split <;> simp_all
      by_cases hts : ∃ fs name f, ts = [.node .funcExpr fs [name, f]]
      · obtain ⟨fs, name, f, rfl⟩ := hts
        cases h with
        | cons he h =>
          cases h
          obtain ⟨cs', rfl, hcs⟩ := he.children (by simp) (by simp)
          rcases hcs with _ | ⟨hname, _ | ⟨hf, _ | ⟨_, _⟩⟩⟩
          simp only [Worklet.form?, likeness_echoes.present hname]
          split
          · split
            · exact rel_ofDeclaration (fun h => .node rfl (.cons (.node rfl (.cons hname (.cons h .nil)))
                .nil)) hname hf
            · exact rel_map_form (.wrapped fun h => .node rfl (.cons h .nil)) (L.ofFunction hf _ _)
          · exact .none
      · rw [hnot hts, hnot]
        · exact .none
        · rintro ⟨fs, name, f, rfl⟩
          rcases h with _ | ⟨he, _ | ⟨_, _⟩⟩
          obtain ⟨cs, rfl⟩ := he.kind
          obtain ⟨cs', heq, hcs⟩ := he.children (by simp) (by simp)
          cases heq
          rcases hcs with _ | ⟨_, _ | ⟨_, _ | ⟨_, _⟩⟩⟩
          exact hts ⟨_, _, _, rfl⟩
    · cases hk

end Echoes

end Worklet
