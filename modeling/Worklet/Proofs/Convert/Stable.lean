import Mathlib.Data.List.Forall2
import Worklet.Proofs.Convert.Trace

/-!
# What converting leaves alone

Principal results: `Becomes.resembles` — a tree resembles what it becomes, save that a function may
be a call then; `Becomes.of_node` — a node that no function gives way to comes from the same node.
-/

set_option autoImplicit false

namespace Worklet

open Syntax

/-! ### What a node was treated as -/

variable {f : Form} {w : Slot} {k : Kind} {s : Span} {cs : List Ast}

section Treat

variable {job : Job} {t t' : Ast} {cache : Option String} {own : Trace}

/-- What can become of a function: it stays and is reported as often as it was asked for, or it
stays because nobody asked, or it is converted for its marker, or for its slot. -/
theorem Form.treat_cases {detected : Option Reason} (h : f.treat job detected t cache = (t', own)) :
    (∃ refusal, f.subject.prepare job = .error refusal ∧ t' = t ∧
      own =
        { now := if job.isMarked f.subject.body then
            [.refused ⟨refusal, job.locate f.subject.span⟩] else []
          late := if detected.isSome then
            [.refused ⟨refusal, job.locate f.subject.span⟩] else [] }) ∨
    ∃ p, f.subject.prepare job = .ok p ∧
      ((job.isMarked f.subject.body = false ∧ detected = none ∧ t' = t ∧ own = {}) ∨
        (job.isMarked f.subject.body = true ∧ t' = f.turned p cache ∧
          own =
            { now := [.converted ⟨p, .directive, f.callable p⟩]
              caches := if f.isAccessor then cache.toList else []
              stmts := f.attached p }) ∨
        ∃ reason, job.isMarked f.subject.body = false ∧ detected = some reason ∧
          t' = f.turned p none ∧ own = { late := [.converted ⟨p, reason, f.callable p⟩] }) := by
  unfold Form.treat at h
  cases hp : f.subject.prepare job with
  | error refusal =>
    simp only [hp, Prod.mk.injEq] at h
    exact .inl ⟨refusal, rfl, h.1.symm, h.2.symm⟩
  | ok p =>
    refine .inr ⟨p, rfl, ?_⟩
    cases hm : job.isMarked f.subject.body with
    | true =>
      simp only [hp, hm, if_true, Prod.mk.injEq] at h
      exact .inr (.inl ⟨rfl, h.1.symm, h.2.symm⟩)
    | false =>
      cases detected with
      | none =>
        simp only [hp, hm, Bool.false_eq_true, if_false, Prod.mk.injEq] at h
        exact .inl ⟨rfl, rfl, h.1.symm, h.2.symm⟩
      | some reason =>
        simp only [hp, hm, Bool.false_eq_true, if_false, Prod.mk.injEq] at h
        exact .inr (.inr ⟨reason, rfl, rfl, h.1.symm, h.2.symm⟩)

/-- A node stays, or gives way to what its form says. -/
theorem treat_cases (h : treat job w t cache = (t', own)) :
    t' = t ∨ ∃ f p cache', form? w t = some f ∧ f.subject.prepare job = .ok p ∧
      t' = f.turned p cache' := by
  unfold treat at h
  cases hf : form? w t with
  | none =>
    simp only [hf, Prod.mk.injEq] at h
    exact .inl h.1.symm
  | some f =>
    simp only [hf] at h
    rcases Form.treat_cases h with
      ⟨_, _, ht, _⟩ | ⟨p, hp, ⟨_, _, ht, _⟩ | ⟨_, ht, _⟩ | ⟨_, _, _, ht, _⟩⟩
    · exact .inl ht
    · exact .inl ht
    · exact .inr ⟨f, p, _, rfl, hp, ht⟩
    · exact .inr ⟨f, p, _, rfl, hp, ht⟩

end Treat

/-! ### Nodes that functions give way to -/

/-- The kinds of nodes that functions give way to. -/
def isTurned : Kind → Bool
  | .call | .keyValue | .funcDecl _ | .getter | .setter | .classMethod .. | .classProp _
  | .exportDefaultDecl | .exportDefaultExpr => true
  | _ => false

def isFunctionKind : Kind → Bool
  | .funcExpr | .arrow _ | .funcDecl _ | .method | .getter | .setter | .classMethod ..
  | .constructor .. | .exportDefaultDecl => true
  | _ => false

theorem FormOf.isFunctionKind (h : FormOf w (.node k s cs) f) : isFunctionKind k = true := by
  cases h <;> rfl

theorem form?_eq_none (hk : isFunctionKind k = false) (s : Span) (cs : List Ast) :
    form? w (.node k s cs) = none := by
  by_contra hne
  obtain ⟨f, hf⟩ := Option.ne_none_iff_exists'.1 hne
  rw [(FormOf.of_form? hf).isFunctionKind] at hk
  cases hk

variable {job : Job} {p : Prepared} {s' : Span} {cs' : List Ast} {marker : String}

/-- A function gives way to a node of such a kind. -/
theorem FormOf.isTurned {t : Ast} (h : FormOf w t f) (hp : f.subject.prepare job = .ok p)
    (cache : Option String) :
    ∃ k s cs, f.turned p cache = .node k s cs ∧ isTurned k = true := by
  cases h with
  | privateMethod => cases hp
  | constructor => cases hp
  | _ => exact ⟨_, _, _, rfl, rfl⟩

/-! ### What others see of a tree -/

/-- The text of a word. -/
def wordText? : Ast → Option String
  | .node (.word text) _ _ => some text
  | _ => none

/-- A tree looks to what stands around it as another does. A function literal may have become
something else, but nothing has become a function literal. -/
structure Resembles (hooks : HookRegistry) (t t' : Ast) : Prop where
  absent : t'.isAbsent = t.isAbsent
  ident : t'.identName? = t.identName?
  privateName : t'.isPrivateName = t.isPrivateName
  key : keyText t' = keyText t
  word : wordText? t' = wordText? t
  callee : calleeName? t'.unparen = calleeName? t.unparen
  space : t'.unparen.identName? = t.unparen.identName?
  rooted : hooks.isRooted t' = hooks.isRooted t
  rootedCallee : hooks.isRootedCallee t' = hooks.isRootedCallee t
  builder : hooks.isBuilderCall t'.unparen = hooks.isBuilderCall t.unparen
  object : isObjectLiteral t' = isObjectLiteral t
  function : isFunctionLiteral t' = true → isFunctionLiteral t = true

theorem Resembles.present {hooks : HookRegistry} {t t' : Ast} (h : Resembles hooks t t') :
    t'.isPresent = t.isPresent :=
  congrArg (!·) h.absent

/-- A tree of which nothing can be seen from outside. -/
structure Bland (hooks : HookRegistry) (t : Ast) : Prop where
  absent : t.isAbsent = false
  unparen : t.unparen = t
  ident : t.identName? = none
  privateName : t.isPrivateName = false
  key : keyText t = none
  word : wordText? t = none
  callee : calleeName? t = none
  rooted : hooks.isRooted t = false
  rootedCallee : hooks.isRootedCallee t = false
  builder : hooks.isBuilderCall t = false
  object : isObjectLiteral t = false

/-- Something can be seen of the tree. -/
def isTelling : Ast → Bool
  | .absent => true
  | .node (.ident _) _ _ => true
  | .node (.privateName _) _ _ => true
  | .node (.word _) _ _ => true
  | .node (.strLit _ _) _ _ => true
  | .node (.numLit _ _) _ _ => true
  | .node .member _ [_, _] => true
  | .node .paren _ [_] => true
  | .node .call _ (_ :: _) => true
  | .node .object _ _ => true
  | _ => false

section Resembles

variable {hooks : HookRegistry} {t t' : Ast}

theorem unparen_eq_self (h : ∀ s e, t ≠ .node .paren s [e]) : t.unparen = t := by
  unfold Ast.unparen
  split
  · exact absurd rfl (h _ _)
  · rfl

theorem Bland.of_not_isTelling (h : isTelling t = false) : Bland hooks t := by
  have hunparen : t.unparen = t := by
    refine unparen_eq_self ?_
    rintro s e rfl
    cases h
  constructor
  · unfold Ast.isAbsent
    split <;> simp_all [isTelling]
  · exact hunparen
  · unfold Ast.identName?
    split <;> simp_all [isTelling]
  · unfold Ast.isPrivateName
    split <;> simp_all [isTelling]
  · unfold keyText keyText?
    split <;> simp_all [isTelling]
  · unfold wordText?
    split <;> simp_all [isTelling]
  · unfold calleeName?
    split <;> simp_all [isTelling]
  · unfold HookRegistry.isRooted
    split <;> simp_all [isTelling]
  · unfold HookRegistry.isRootedCallee
    split <;> simp_all [isTelling]
  · unfold HookRegistry.isBuilderCall
    split <;> simp_all [isTelling]
  · unfold isObjectLiteral
    rw [hunparen]
    split <;> simp_all [isTelling]

theorem bland_wrapper (p : Prepared) : Bland hooks p.wrapper := by
  constructor <;>
    simp [Prepared.wrapper, wrap, madeCall, madeParen, madeFunctionExpr, made, Ast.isAbsent,
      Ast.unparen, Ast.identName?, Ast.isPrivateName, wordText?, keyText, keyText?, calleeName?,
      HookRegistry.isRooted, HookRegistry.isRootedCallee, HookRegistry.isBuilderCall,
      isObjectLiteral]

/-- Trees of which nothing can be seen resemble each other. -/
theorem Resembles.of_bland (h : Bland hooks t) (h' : Bland hooks t')
    (hf : isFunctionLiteral t' = true → isFunctionLiteral t = true) : Resembles hooks t t' where
  absent := h'.absent.trans h.absent.symm
  ident := h'.ident.trans h.ident.symm
  privateName := h'.privateName.trans h.privateName.symm
  key := h'.key.trans h.key.symm
  word := h'.word.trans h.word.symm
  callee := by rw [h.unparen, h'.unparen, h.callee, h'.callee]
  space := by rw [h.unparen, h'.unparen, h.ident, h'.ident]
  rooted := h'.rooted.trans h.rooted.symm
  rootedCallee := h'.rootedCallee.trans h.rootedCallee.symm
  builder := by rw [h.unparen, h'.unparen, h.builder, h'.builder]
  object := h'.object.trans h.object.symm
  function := hf

theorem FormOf.isTelling (h : FormOf w (.node k s cs) f) (cs' : List Ast) :
    isTelling (.node k s cs') = false := by
  cases h <;> rfl

/-- What a function gives way to tells nothing, and is no function literal. -/
theorem FormOf.bland_turned (h : FormOf w t f) (hp : f.subject.prepare job = .ok p)
    (cache : Option String) :
    Bland hooks (f.turned p cache) ∧ isFunctionLiteral (f.turned p cache) = false := by
  cases h with
  | privateMethod => cases hp
  | constructor => cases hp
  | expression | arrow => exact ⟨bland_wrapper p, rfl⟩
  | _ => exact ⟨.of_not_isTelling rfl, rfl⟩

theorem calleeName?_member (s : Span) (obj prop : Ast) :
    calleeName? (.node .member s [obj, prop]) = wordText? prop := by
  unfold wordText?
  split <;> simp_all [calleeName?]

theorem isBuilderCall_member (s : Span) (obj prop : Ast) :
    hooks.isBuilderCall (.node .member s [obj, prop]) =
      ((wordText? prop).any hooks.isBuilderMethod && hooks.isRooted obj) := by
  unfold wordText?
  split <;> simp_all [HookRegistry.isBuilderCall]

theorem isRootedCallee_member (s : Span) (obj prop : Ast) :
    hooks.isRootedCallee (.node .member s [obj, prop]) =
      ((obj.unparen.identName?.any fun space =>
          (wordText? prop).any fun ctor => hooks.isBuilderRoot space ctor) ||
        hooks.isRooted obj) := by
  unfold HookRegistry.isRootedCallee
  congr 1
  split
  · rename_i hobj
    rw [hobj]
    rfl
  · rename_i h
    unfold wordText?
    split
    · unfold Ast.identName?
      split
      · rename_i hobj
        exact absurd rfl (h _ _ _ _ _ _ hobj)
      · rfl
    · cases obj.unparen.identName? <;> rfl

theorem Resembles.member {obj obj' prop prop' : Ast} (ho : Resembles hooks obj obj')
    (hp : Resembles hooks prop prop') :
    Resembles hooks (.node .member s [obj, prop]) (.node .member s' [obj', prop']) where
  absent := rfl
  ident := rfl
  privateName := rfl
  key := rfl
  word := rfl
  callee := by simp only [Ast.unparen, calleeName?_member, hp.word]
  space := rfl
  rooted := by simp only [HookRegistry.isRooted, ho.rooted]
  rootedCallee := by simp only [isRootedCallee_member, ho.space, ho.rooted, hp.word]
  builder := by simp only [Ast.unparen, isBuilderCall_member, ho.rooted, hp.word]
  object := rfl
  function h := h

theorem Resembles.paren {e e' : Ast} (h : Resembles hooks e e') :
    Resembles hooks (.node .paren s [e]) (.node .paren s' [e']) where
  absent := rfl
  ident := rfl
  privateName := rfl
  key := rfl
  word := rfl
  callee := by simpa only [Ast.unparen] using h.callee
  space := by simpa only [Ast.unparen] using h.space
  rooted := by simpa only [HookRegistry.isRooted] using h.rooted
  rootedCallee := by simpa only [HookRegistry.isRootedCallee] using h.rootedCallee
  builder := by simpa only [Ast.unparen] using h.builder
  object := by simpa only [isObjectLiteral, Ast.unparen] using h.object
  function := by simpa only [isFunctionLiteral, Ast.unparen] using h.function

theorem Resembles.call {callee callee' : Ast} {rest rest' : List Ast}
    (h : Resembles hooks callee callee') :
    Resembles hooks (.node .call s (callee :: rest)) (.node .call s' (callee' :: rest')) where
  absent := rfl
  ident := rfl
  privateName := rfl
  key := rfl
  word := rfl
  callee := rfl
  space := rfl
  rooted := by simpa only [HookRegistry.isRooted] using h.rootedCallee
  rootedCallee := rfl
  builder := rfl
  object := rfl
  function h := h

/-- A node whose view from outside does not depend on its children. -/
theorem Resembles.leaf (hm : k ≠ .member) (hp : k ≠ .paren) (hc : k ≠ .call) (s s' : Span)
    (cs cs' : List Ast) (hk : isTelling (.node k s cs) = true) :
    Resembles hooks (.node k s cs) (.node k s' cs') := by
  unfold isTelling at hk
  split at hk <;> rename_i heq <;> simp only [reduceCtorEq] at heq hk <;> cases heq
  case h_7 | h_8 | h_9 => contradiction
  all_goals
    constructor <;>
      simp [Ast.isAbsent, Ast.unparen, Ast.identName?, Ast.isPrivateName, wordText?, keyText,
        keyText?, calleeName?, HookRegistry.isRooted, HookRegistry.isRootedCallee,
        HookRegistry.isBuilderCall, isObjectLiteral, isFunctionLiteral]

/-- The same node with children that resemble each other. -/
theorem Resembles.node (h : List.Forall₂ (Resembles hooks) cs cs') :
    Resembles hooks (.node k s cs) (.node k s' cs') := by
  have hbland (ht : isTelling (.node k s cs) = false) (ht' : isTelling (.node k s' cs') = false) :
      Resembles hooks (.node k s cs) (.node k s' cs') := by
    have hb : Bland hooks (.node k s cs) := .of_not_isTelling ht
    have hb' : Bland hooks (.node k s' cs') := .of_not_isTelling ht'
    refine .of_bland hb hb' ?_
    simp only [isFunctionLiteral, hb.unparen, hb'.unparen]
    cases k <;> simp
  by_cases hm : k = .member
  · subst hm
    rcases h with _ | ⟨h₁, _ | ⟨h₂, _ | ⟨h₃, h⟩⟩⟩
    case cons.cons.nil => exact h₁.member h₂
    all_goals exact hbland rfl rfl
  by_cases hp : k = .paren
  · subst hp
    rcases h with _ | ⟨h₁, _ | ⟨h₂, h⟩⟩
    case cons.nil => exact h₁.paren
    all_goals exact hbland rfl rfl
  by_cases hc : k = .call
  · subst hc
    cases h with
    | nil => exact hbland rfl rfl
    | cons h₁ h => exact h₁.call
  cases hk : isTelling (.node k s cs) with
  | true => exact .leaf hm hp hc s s' cs cs' hk
  | false =>
    refine hbland hk ?_
    cases hk' : isTelling (.node k s' cs') with
    | false => rfl
    | true =>
      rw [← hk]
      unfold isTelling at hk'
      split at hk' <;> rename_i heq <;> simp only [reduceCtorEq] at heq hk' <;> cases heq
      case h_7 | h_8 | h_9 => contradiction
      all_goals rfl

end Resembles

section Becomes

variable {ws : Nat → Slot} {t t' : Ast} {ts ts' : List Ast} {tr : Trace}

/-- **A tree resembles what it becomes.** -/
theorem Becomes.resembles (h : Becomes job w t t' tr) : Resembles job.config.hooks t t' := by
  have bland {t t' : Ast} (ht : isTelling t = false) (ht' : isTelling t' = false)
      (hf : isFunctionLiteral t' = true → isFunctionLiteral t = true) :
      Resembles job.config.hooks t t' :=
    .of_bland (.of_not_isTelling ht) (.of_not_isTelling ht') hf
  refine Becomes.induct (P := fun _ t t' _ => Resembles job.config.hooks t t')
    (Q := fun _ ts ts' _ => List.Forall₂ (Resembles job.config.hooks) ts ts')
    (R := fun _ _ _ => True) ?absent ?list ?node ?statements ?switchCase ?nil ?cons ?none
    ?statement h
  case absent => exact fun _ => ⟨rfl, rfl, rfl, rfl, rfl, rfl, rfl, rfl, rfl, rfl, rfl, id⟩
  case list => exact fun _ _ _ _ _ => bland rfl rfl id
  case node =>
    intro w k s cs cs' t' tr own cache hk hcs ht ih
    rcases treat_cases ht with rfl | ⟨f, p, cache', hf, hp, rfl⟩
    · exact .node ih
    · have hform := FormOf.of_form? hf
      obtain ⟨hbland, hliteral⟩ := hform.bland_turned hp cache'
      exact .of_bland (.of_not_isTelling (hform.isTelling cs)) hbland (by simp [hliteral])
  case statements =>
    intro w k s ss ss' entries hk _ _
    revert hk
    fun_cases isStatementList k with
    | case4 => simp
    | _ => exact fun _ => bland rfl rfl id
  case switchCase => exact fun _ _ _ _ _ _ _ _ _ _ _ _ => bland rfl rfl id
  case nil => exact fun _ => .nil
  case cons => exact fun _ _ _ _ _ _ _ _ _ ih ihs => .cons ih ihs
  case none => trivial
  case statement => exact fun _ _ _ _ _ _ _ _ _ _ => trivial

theorem BecomesAll.resembles : ∀ {ws : Nat → Slot} {ts ts' : List Ast} {tr : Trace},
    BecomesAll job ws ts ts' tr → List.Forall₂ (Resembles job.config.hooks) ts ts'
  | _, _, _, _, .nil => .nil
  | _, _, _, _, .cons h hs _ => .cons h.resembles hs.resembles

/-- A node that no function gives way to comes from the same node. -/
theorem Becomes.of_node (h : Becomes job w t (.node k s cs') tr) (hk : isTurned k = false)
    (hl : holdsStatements (.node k s cs') = false) :
    ∃ cs tr₁ own cache, t = .node k s cs ∧
      BecomesAll job (job.config.hooks.childSlot w (.node k s cs)) cs cs' tr₁ ∧
      treat job w (.node k s cs') cache = (.node k s cs', own) ∧ tr = tr₁.through k ++ own := by
  generalize ht' : Ast.node k s cs' = t' at h
  cases h with
  | absent => cases ht'
  | list _ => cases ht'
  | node cache hl hcs htreat hall =>
    rcases treat_cases htreat with rfl | ⟨f, p, cache', hf, hp, rfl⟩
    · cases ht'
      exact ⟨_, _, _, cache, rfl, hcs, htreat, hall⟩
    · obtain ⟨k', s', cs'', hturned, hk'⟩ := (FormOf.of_form? hf).isTurned hp cache'
      rw [hturned] at ht'
      cases ht'
      rw [hk] at hk'
      cases hk'
  | statements hk' _ =>
    cases ht'
    revert hl hk'
    unfold holdsStatements
    split <;> simp_all
  | switchCase _ _ _ =>
    cases ht'
    cases hl

/-- A node that is no function and no list of statements stays the same node. -/
theorem Becomes.node_of_not_function (h : Becomes job w (.node k s cs) t' tr)
    (hk : isFunctionKind k = false) (hl : holdsStatements (.node k s cs) = false) :
    ∃ cs' tr₁, t' = .node k s cs' ∧
      BecomesAll job (job.config.hooks.childSlot w (.node k s cs)) cs cs' tr₁ ∧
      tr = tr₁.through k := by
  cases h with
  | @node _ _ _ _ cs' _ tr₁ own _ cache _ hcs htreat hall =>
    simp only [treat, form?_eq_none hk, Prod.mk.injEq] at htreat
    obtain ⟨rfl, rfl⟩ := htreat
    exact ⟨_, _, rfl, hcs, by rw [hall, Trace.append_empty]⟩
  | statements hk' _ =>
    revert hl hk'
    unfold holdsStatements
    split <;> simp_all
  | switchCase _ _ _ => cases hl

/-! ### Relations that converting keeps -/

/-- What is put after a statement attaches metadata. -/
theorem Becomes.stmts_eq (h : Becomes job w t t' tr) :
    ∃ ms : List (String × Metadata), tr.stmts = ms.flatMap fun x => metadataStmts x.1 x.2 := by
  have append {a b : Trace}
      (ha : ∃ ms : List (String × Metadata), a.stmts = ms.flatMap fun x => metadataStmts x.1 x.2)
      (hb : ∃ ms : List (String × Metadata), b.stmts = ms.flatMap fun x => metadataStmts x.1 x.2) :
      ∃ ms : List (String × Metadata), (a ++ b).stmts = ms.flatMap fun x => metadataStmts x.1 x.2 := by
    obtain ⟨ms, ha⟩ := ha
    obtain ⟨ms', hb⟩ := hb
    exact ⟨ms ++ ms', by rw [Trace.append_stmts, ha, hb, List.flatMap_append]⟩
  refine Becomes.induct
    (P := fun _ _ _ tr => ∃ ms : List (String × Metadata),
      tr.stmts = ms.flatMap fun x => metadataStmts x.1 x.2)
    (Q := fun _ _ _ tr => ∃ ms : List (String × Metadata),
      tr.stmts = ms.flatMap fun x => metadataStmts x.1 x.2)
    (R := fun _ _ _ => True)
    ?absent ?list ?node ?statements ?switchCase ?nil ?cons ?none ?statement h
  case absent => exact fun _ => ⟨[], rfl⟩
  case list => exact fun _ _ _ _ ih => ih
  case node =>
    intro w k s cs cs' t' tr own cache _ _ ht ih
    refine append (by simpa using ih) ?_
    unfold treat at ht
    split at ht
    · cases ht
      exact ⟨[], rfl⟩
    · rename_i f hf
      rcases Form.treat_cases ht with
        ⟨_, _, _, rfl⟩ | ⟨p, hp, ⟨_, _, _, rfl⟩ | ⟨_, _, rfl⟩ | ⟨_, _, _, _, rfl⟩⟩
      · exact ⟨[], rfl⟩
      · exact ⟨[], rfl⟩
      · cases FormOf.of_form? hf with
        | @declaration _ _ _ _ _ n => exact ⟨[(n, p.metadata)], (List.append_nil _).symm⟩
        | @namedDefault _ _ _ _ n => exact ⟨[(n, p.metadata)], (List.append_nil _).symm⟩
        | _ => exact ⟨[], rfl⟩
      · exact ⟨[], rfl⟩
  case statements => exact fun _ _ _ _ _ _ _ _ _ => ⟨[], rfl⟩
  case switchCase => exact fun _ _ _ _ _ _ _ _ _ _ ih _ => append ih ⟨[], rfl⟩
  case nil => exact fun _ => ⟨[], rfl⟩
  case cons => exact fun _ _ _ _ _ _ _ _ _ ih ihs => append ih ihs
  case none => trivial
  case statement => exact fun _ _ _ _ _ _ _ _ _ _ => trivial

/-- The statement is one that converting puts before or after others. -/
def IsPut (t : Ast) : Prop :=
  (∃ name, t = cacheDecl name) ∨ ∃ name m, t ∈ metadataStmts name m

theorem Becomes.isPut (h : Becomes job w t t' tr) {u : Ast}
    (hu : u ∈ tr.caches.map cacheDecl ++ tr.stmts) : IsPut u := by
  rcases List.mem_append.1 hu with hu | hu
  · obtain ⟨name, -, rfl⟩ := List.mem_map.1 hu
    exact .inl ⟨name, rfl⟩
  · obtain ⟨ms, hms⟩ := h.stmts_eq
    rw [hms] at hu
    obtain ⟨x, -, hu⟩ := List.mem_flatMap.1 hu
    exact .inr ⟨x.1, x.2, hu⟩

theorem exists_of_forall₂ {α β : Type} {R : α → β → Prop} {xs : List α} {ys : List β}
    (h : List.Forall₂ R xs ys) {y : β} (hy : y ∈ ys) : ∃ x ∈ xs, R x y := by
  induction h with
  | nil => cases hy
  | cons hr _ ih =>
    rcases List.mem_cons.1 hy with rfl | hy
    · exact ⟨_, List.mem_cons_self, hr⟩
    · obtain ⟨x, hx, hr⟩ := ih hy
      exact ⟨x, List.mem_cons_of_mem _ hx, hr⟩

theorem getElem?_forall₂ {α β : Type} {R : α → β → Prop} {as : List α} {bs : List β}
    (h : List.Forall₂ R as bs) (i : Nat) : Option.Rel R as[i]? bs[i]? := by
  induction h generalizing i with
  | nil => exact .none
  | cons h _ ih =>
    cases i with
    | zero => exact .some h
    | succ i => exact ih i

/-- The second statements are the first, each related to one of them, with others put between. -/
structure Interspersed (S : Ast → Ast → Prop) (ss ss' : List Ast) : Prop where
  back : ∀ t' ∈ ss', IsPut t' ∨ ∃ t ∈ ss, S t t'
  forth : ∀ t ∈ ss, ∃ t' ∈ ss', S t t'

theorem Interspersed.cons {S : Ast → Ast → Prop} {a b : List Ast} (h : S t t')
    (hput : ∀ u ∈ a ++ b, IsPut u) (hs : Interspersed S ts ts') :
    Interspersed S (t :: ts) (a ++ t' :: b ++ ts') where
  back u hu := by
    simp only [List.append_assoc, List.cons_append, List.mem_append, List.mem_cons] at hu
    rcases hu with hu | rfl | hu | hu
    · exact .inl (hput u (List.mem_append_left _ hu))
    · exact .inr ⟨t, List.mem_cons_self, h⟩
    · exact .inl (hput u (List.mem_append_right _ hu))
    · refine (hs.back u hu).imp_right ?_
      rintro ⟨v, hv, h⟩
      exact ⟨v, List.mem_cons_of_mem _ hv, h⟩
  forth u hu := by
    rcases List.mem_cons.1 hu with rfl | hu
    · exact ⟨t', by simp, h⟩
    · obtain ⟨u', hu', h⟩ := hs.forth u hu
      exact ⟨u', by simp [hu'], h⟩

/-- The relation holds between nodes whose parts it relates, between statements and others put
between them, and between a function and what takes its place. -/
structure Compatible (job : Job) (S : Ast → Ast → Prop) : Prop where
  refl : ∀ t, S t t
  trans : ∀ {t u v}, S t u → S u v → S t v
  list : ∀ {ts ts'}, List.Forall₂ S ts ts' → S (.list ts) (.list ts')
  node : ∀ k s {cs cs'}, List.Forall₂ S cs cs' → S (.node k s cs) (.node k s cs')
  statements : ∀ {k} s {ss ss'}, isStatementList k = true ∨ k = .switchCase →
    Interspersed S ss ss' → S (.node k s ss) (.node k s ss')
  turned : ∀ {w t f p}, FormOf w t f → f.subject.prepare job = .ok p → ∀ cache, S t (f.turned p cache)

/-- **A compatible relation holds between a tree and what it becomes.** -/
theorem Becomes.related {S : Ast → Ast → Prop} (hS : Compatible job S) (h : Becomes job w t t' tr) :
    S t t' := by
  refine Becomes.induct (P := fun _ t t' _ => S t t') (Q := fun _ ts ts' _ => List.Forall₂ S ts ts')
    (R := fun ss ss' _ => Interspersed S ss ss')
    ?absent ?list ?node ?statements ?switchCase ?nil ?cons ?none ?statement h
  case absent => exact fun _ => hS.refl _
  case list => exact fun _ _ _ _ ih => hS.list ih
  case node =>
    intro w k s cs cs' t' tr own cache _ _ htreat ih
    rcases treat_cases htreat with rfl | ⟨f, p, cache', hf, hp, rfl⟩
    · exact hS.node k s ih
    · exact hS.trans (hS.node k s ih) (hS.turned (FormOf.of_form? hf) hp cache')
  case statements => exact fun _ _ s _ _ _ hk _ ih => hS.statements s (.inl hk) ih
  case switchCase =>
    intro w s test test' ss ss' tr entries _ _ ih ihs
    exact hS.statements s (.inr rfl) (.cons (a := []) (b := []) ih (by simp) ihs)
  case nil => exact fun _ => .nil
  case cons => exact fun _ _ _ _ _ _ _ _ _ ih ihs => .cons ih ihs
  case none => exact ⟨by simp, by simp⟩
  case statement => exact fun _ _ _ _ _ _ h _ ih ihs => .cons ih (fun _ => h.isPut) ihs

/-! ### Trees without conversions -/

/-- A node without a conversion stays. -/
theorem treat_unchanged {cache : Option String} {own : Trace}
    (h : treat job w t cache = (t', own)) (hc : ∀ e, .converted e ∉ own.entries) :
    t' = t ∧ own.caches = [] ∧ own.stmts = [] := by
  unfold treat at h
  cases hf : form? w t with
  | none =>
    simp only [hf, Prod.mk.injEq] at h
    obtain ⟨rfl, rfl⟩ := h
    exact ⟨rfl, rfl, rfl⟩
  | some f =>
    simp only [hf] at h
    rcases Form.treat_cases h with
      ⟨_, _, rfl, rfl⟩ | ⟨p, hp, ⟨_, _, rfl, rfl⟩ | ⟨_, rfl, rfl⟩ | ⟨_, _, _, rfl, rfl⟩⟩
    · exact ⟨rfl, rfl, rfl⟩
    · exact ⟨rfl, rfl, rfl⟩
    · exact absurd List.mem_cons_self (hc _)
    · exact absurd List.mem_cons_self (hc _)

/-- **A tree in which nothing is converted stays as it is.** -/
theorem Becomes.unchanged (h : Becomes job w t t' tr) (hc : ∀ e, .converted e ∉ tr.entries) :
    t' = t ∧ tr.caches = [] ∧ tr.stmts = [] := by
  refine Becomes.induct
    (P := fun _ t t' tr => (∀ e, .converted e ∉ tr.entries) →
      t' = t ∧ tr.caches = [] ∧ tr.stmts = [])
    (Q := fun _ ts ts' tr => (∀ e, .converted e ∉ tr.entries) →
      ts' = ts ∧ tr.caches = [] ∧ tr.stmts = [])
    (R := fun ts ts' entries => (∀ e, .converted e ∉ entries) → ts' = ts)
    ?absent ?list ?node ?statements ?switchCase ?nil ?cons ?none ?statement h hc
  case absent => exact fun _ _ => ⟨rfl, rfl, rfl⟩
  case list =>
    intro w ts ts' tr ih hc
    obtain ⟨rfl, hcaches, hstmts⟩ := ih hc
    exact ⟨rfl, hcaches, hstmts⟩
  case node =>
    intro w k s cs cs' t' tr own cache _ _ ht ih hc
    simp only [Trace.mem_entries_append, Trace.through_entries, not_or] at hc
    obtain ⟨rfl, hcaches, hstmts⟩ := ih fun e => (hc e).1
    obtain ⟨rfl, hcaches', hstmts'⟩ := treat_unchanged ht fun e => (hc e).2
    simp [hcaches, hstmts, hcaches', hstmts']
  case statements =>
    intro w k s ss ss' entries _ _ ih hc
    rw [ih (by simpa [Trace.entries] using hc)]
    exact ⟨rfl, rfl, rfl⟩
  case switchCase =>
    intro w s test test' ss ss' tr entries _ _ ih ihs hc
    simp only [Trace.mem_entries_append, not_or] at hc
    obtain ⟨rfl, hcaches, hstmts⟩ := ih fun e => (hc e).1
    rw [ihs fun e => by simpa [Trace.entries] using (hc e).2]
    simp [hcaches, hstmts]
  case nil => exact fun _ _ => ⟨rfl, rfl, rfl⟩
  case cons =>
    intro ws t t' ts ts' tr tr' _ _ ih ihs hc
    simp only [Trace.mem_entries_append, not_or] at hc
    obtain ⟨rfl, hcaches, hstmts⟩ := ih fun e => (hc e).1
    obtain ⟨rfl, hcaches', hstmts'⟩ := ihs fun e => (hc e).2
    simp [hcaches, hstmts, hcaches', hstmts']
  case none => exact fun _ => rfl
  case statement =>
    intro t t' ts ts' tr entries _ _ ih ihs hc
    simp only [List.mem_append, not_or] at hc
    obtain ⟨rfl, hcaches, hstmts⟩ := ih fun e => (hc e).1
    rw [ihs fun e => (hc e).2]
    simp [hcaches, hstmts]

theorem BecomesAll.unchanged {ws : Nat → Slot} {ts ts' : List Ast} {tr : Trace}
    (h : BecomesAll job ws ts ts' tr) (hc : ∀ e, .converted e ∉ tr.entries) : ts' = ts := by
  induction ts generalizing ws ts' tr with
  | nil => cases h; rfl
  | cons t ts ih =>
    obtain _ | ⟨h, hs, rfl⟩ := h
    simp only [Trace.mem_entries_append, not_or] at hc
    rw [(h.unchanged fun e => (hc e).1).1, ih hs fun e => (hc e).2]

/-! ### Markers -/

/-- The statement is a string, as directives are. -/
def isStringStatement : Ast → Bool
  | .node .exprStmt _ [.node (.strLit _ _) _ []] => true
  | _ => false

theorem isStringStatement_eq_true (h : isStringStatement t = true) :
    ∃ s s' v raw, t = .node .exprStmt s [.node (.strLit v raw) s' []] := by
  unfold isStringStatement at h
  split at h
  · exact ⟨_, _, _, _, rfl⟩
  · cases h

theorem isDirective_eq_true (h : isDirective marker t = true) :
    ∃ s s' v raw, t = .node .exprStmt s [.node (.strLit v raw) s' []] ∧ v = Text.units marker := by
  unfold isDirective at h
  split at h
  · exact ⟨_, _, _, _, rfl, by simpa using h⟩
  · cases h

theorem isStringStatement_of_isDirective (h : isDirective marker t = true) :
    isStringStatement t = true := by
  obtain ⟨s, s', v, raw, rfl, -⟩ := isDirective_eq_true h
  rfl

/-- A string among statements stays as it is. -/
theorem Becomes.of_isStringStatement (h : Becomes job w t t' tr) (ht : isStringStatement t = true) :
    t' = t ∧ tr = {} := by
  obtain ⟨s, s', v, raw, rfl⟩ := isStringStatement_eq_true ht
  obtain ⟨cs', tr₁, rfl, hcs, rfl⟩ := h.node_of_not_function rfl rfl
  rcases hcs with _ | ⟨h₁, _ | _, rfl⟩
  obtain ⟨cs', tr₂, rfl, hcs, rfl⟩ := h₁.node_of_not_function rfl rfl
  cases hcs
  exact ⟨rfl, rfl⟩

theorem Becomes.isStringStatement_eq (h : Becomes job w t t' tr) :
    isStringStatement t' = isStringStatement t := by
  cases ht : isStringStatement t with
  | true => rw [(h.of_isStringStatement ht).1, ht]
  | false =>
    by_contra hne
    obtain ⟨s, s', v, raw, rfl⟩ := isStringStatement_eq_true (by simpa using hne)
    obtain ⟨cs, tr₁, own, cache, rfl, hcs, -, -⟩ := h.of_node rfl rfl
    rcases hcs with _ | ⟨h₁, _ | _, rfl⟩
    obtain ⟨cs, tr₁, own, cache, rfl, hcs, -, -⟩ := h₁.of_node rfl rfl
    cases hcs
    simp [isStringStatement] at ht

theorem Becomes.of_isDirective (h : Becomes job w t t' tr) (ht : isDirective marker t = true) :
    t' = t ∧ tr = {} :=
  h.of_isStringStatement (isStringStatement_of_isDirective ht)

/-- A test that only strings pass gives the same for a statement and what it becomes. -/
theorem Becomes.passes_eq {P : Ast → Bool} (hP : ∀ t, P t = true → isStringStatement t = true)
    (h : Becomes job w t t' tr) : P t' = P t := by
  cases hs : isStringStatement t with
  | true => rw [(h.of_isStringStatement hs).1]
  | false =>
    have hs' : isStringStatement t' = false := h.isStringStatement_eq.trans hs
    have hfalse {u : Ast} (hu : isStringStatement u = false) : P u = false := by
      by_contra hne
      rw [hP u (by simpa using hne)] at hu
      cases hu
    rw [hfalse hs, hfalse hs']

theorem Becomes.isDirective_eq (h : Becomes job w t t' tr) (marker : String) :
    isDirective marker t' = isDirective marker t :=
  h.passes_eq fun _ => isStringStatement_of_isDirective

theorem BecomesStmts.head_isDirective {entries : List Entry} (h : BecomesStmts job ts ts' entries)
    (marker : String) : ts'.head?.any (isDirective marker) = ts.head?.any (isDirective marker) := by
  cases h with
  | nil => rfl
  | @cons t t' ts ts' tr entries h hs =>
    cases ht : isDirective marker t with
    | true =>
      obtain ⟨rfl, rfl⟩ := h.of_isDirective ht
      simp [ht]
    | false =>
      cases hc : tr.caches with
      | nil => simp [ht, h.isDirective_eq marker]
      | cons n ns =>
        have hdecl : isDirective marker (cacheDecl n) = false := rfl
        simp [ht, hdecl]

/-- The marker at the head of a body stays until the body is converted. -/
theorem Becomes.hasDirective_eq (h : Becomes job w t t' tr) (marker : String) :
    hasDirective marker t' = hasDirective marker t := by
  have none_of {t : Ast} (ht : ∀ s ss, t ≠ .node .block s ss) : hasDirective marker t = false := by
    unfold hasDirective Ast.stmts
    split
    · exact absurd rfl (ht _ _)
    · rfl
  by_cases ht : ∃ s ss, t = .node .block s ss
  · obtain ⟨s, ss, rfl⟩ := ht
    cases h with
    | node _ hl _ _ _ => cases hl
    | statements _ hss => exact hss.head_isDirective marker
  · have ht : ∀ s ss, t ≠ .node .block s ss := fun s ss heq => ht ⟨s, ss, heq⟩
    rw [none_of ht, none_of]
    rintro s ss rfl
    generalize hb : Ast.node .block s ss = t' at h
    cases h with
    | absent => cases hb
    | list _ => cases hb
    | node cache _ _ htreat _ =>
      rcases treat_cases htreat with rfl | ⟨f, p, cache', hf, hp, rfl⟩
      · cases hb
        exact ht _ _ rfl
      · obtain ⟨k', s', cs'', hturned, hk'⟩ := (FormOf.of_form? hf).isTurned hp cache'
        rw [hturned] at hb
        cases hb
        cases hk'
    | statements _ _ =>
      cases hb
      exact ht _ _ rfl
    | switchCase _ _ _ => cases hb

theorem hasDirective_block (marker : String) (s : Span) (ss : List Ast) :
    hasDirective marker (.node .block s ss) = ss.head?.any (isDirective marker) :=
  rfl

/-- A block begins with the marker after its marker is taken away if it began with two. -/
theorem Becomes.hasDirective_stripped (h : Becomes job w t t' tr) (marker : String) :
    hasDirective marker (stripDirective marker t') = hasDirective marker (stripDirective marker t) := by
  cases hm : hasDirective marker t with
  | false =>
    have stays {t : Ast} (hm : hasDirective marker t = false) : stripDirective marker t = t := by
      unfold stripDirective
      split
      · rw [hasDirective_block, List.head?_cons, Option.any_some] at hm
        rw [hm]
        rfl
      · rfl
    rw [stays hm, stays ((h.hasDirective_eq marker).trans hm), h.hasDirective_eq]
  | true =>
    have hblock : ∃ s first rest, t = .node .block s (first :: rest) ∧
        isDirective marker first = true := by
      unfold hasDirective Ast.stmts at hm
      split at hm
      · rename_i s ss
        cases ss with
        | nil => cases hm
        | cons first rest => exact ⟨s, first, rest, rfl, by simpa using hm⟩
      · cases hm
    obtain ⟨s, first, rest, rfl, hfirst⟩ := hblock
    cases h with
    | node _ hl _ _ _ => cases hl
    | statements _ hss =>
      cases hss with
      | cons hf hrest =>
        obtain ⟨rfl, rfl⟩ := hf.of_isDirective hfirst
        simp only [List.map_nil, List.nil_append, List.cons_append, stripDirective, hfirst, if_true,
          hasDirective_block]
        exact hrest.head_isDirective marker

end Becomes

end Worklet
