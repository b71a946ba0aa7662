import Worklet.Proofs.Convert.Run
import Worklet.Proofs.Convert.Turning

/-!
# The walk

What a whole tree becomes keeps its names, from what becomes of each node.

Principal results: `ProceedsStmts.walked` — a list of statements keeps its names, with what is put
around each; `walks` — every tree does, with what waits for the statement around it.
-/

set_option autoImplicit false

namespace Worklet

open Syntax Outline Scoping

variable {job : Job} {given : Option Span → List String} {lost caches names : List String}
  {near : Bool} {n n' : UsedNames} {w : Slot} {t t' : Ast} {tr : Trace} {k : Kind} {s : Span}
  {cs cs' : List Ast} {x : String}

/-- A tree and what it becomes, with the trace of that: the names are kept, statements that wait
mention known ones, conversions are sealed, and variables wait only if the statements around run as
often. -/
structure Walked (job : Job) (given : Option Span → List String) (lost : List String) (near : Bool)
    (names : List String) (t t' : Ast) (tr : Trace) : Prop where
  converts : Converts given lost tr.caches t t'
  attached : Attached names tr.stmts
  sealed : ∀ e, .converted e ∈ tr.entries → Sealed job.table given lost e
  caches : near = false → tr.caches = []

/-- The names in what waits for the end of the statement around a tree. -/
def waiting (w : Slot) (t : Ast) : List String :=
  looseNames t ++ if w = .statement then attachable t else []

/-- All that the tree can become keeps its names. -/
def Walks (job : Job) (given : Option Span → List String) (lost : List String) (t : Ast) : Prop :=
  ∀ {near : Bool} {n n' : UsedNames} {w : Slot} {t' : Ast} {tr : Trace},
    Proceeds job near n w t t' tr n' → Ready job.table given lost t →
    Walked job given lost near (waiting w t) t t' tr

/-! ### Trees in a row -/

theorem Walked.all (h : Walked job given lost near names (.list cs) (.list cs') tr) :
    ConvertsAll given lost tr.caches cs cs' := by
  rcases converts_list_or h.converts with ⟨_, _, ⟨⟩, ⟨⟩, hcs⟩ | ⟨hne, -⟩
  · exact hcs
  · exact absurd rfl (hne cs)

theorem ProceedsAll.walked {ws : Nat → Slot} (h : ProceedsAll job near n ws cs cs' tr n')
    (hws : cs ≠ [] → ∀ i, ws i ≠ .statement)
    (ih : ∀ c ∈ cs, Walks job given lost c) (hr : ∀ c ∈ cs, Ready job.table given lost c) :
    Walked job given lost near (looseNamesAll cs) (.list cs) (.list cs') tr := by
  induction cs generalizing cs' ws n tr with
  | nil =>
    cases h
    exact ⟨.list .nil, .nil, by simp [Trace.entries], fun _ => rfl⟩
  | cons c cs ihs =>
    cases h with
    | cons hc hcs hall =>
      subst hall
      have hfirst := ih c List.mem_cons_self hc (hr c List.mem_cons_self)
      rw [waiting, if_neg (hws (by simp) 0), List.append_nil] at hfirst
      have hrest := ihs hcs (fun _ i => hws (by simp) (i + 1)) (fun c hc => ih c (List.mem_cons_of_mem _ hc))
        fun c hc => hr c (List.mem_cons_of_mem _ hc)
      refine ⟨.list (.cons ?_ ?_), hfirst.attached.both hrest.attached, fun e he => ?_, fun hn => ?_⟩
      · exact hfirst.converts.mono fun n hn => List.mem_append_left _ hn
      · exact hrest.all.mono fun n hn => List.mem_append_right _ hn
      · exact (Trace.mem_entries_append.1 he).elim (hfirst.sealed e) (hrest.sealed e)
      · rw [Trace.append_caches, hfirst.caches hn, hrest.caches hn, List.append_nil]

/-! ### Nodes -/

theorem item_ne_statement (w : Slot) (i : Nat) : w.item i ≠ .statement := by
  unfold Slot.item Slot.ofDetection
  split
  · split <;> simp
  · simp

theorem childSlot_ne_statement (h : holdsStatements (.node k s cs) = false) (hcs : cs ≠ [])
    (i : Nat) : job.config.hooks.childSlot w (.node k s cs) i ≠ .statement := by
  intro hi
  unfold HookRegistry.childSlot at hi
  split at hi
  case h_10 => cases hi
  all_goals
    rename_i heq
    cases heq
  case h_4 =>
    obtain ⟨c, cs, rfl⟩ := List.exists_cons_of_ne_nil hcs
    cases h
  case h_7 | h_8 => cases w <;> cases hi
  case h_9 =>
    unfold Slot.atValue at hi
    split at hi
    · split at hi <;> cases hi
    · cases hi
  case h_5 | h_6 => cases hi
  all_goals cases h

theorem mem_looseNames_of_attachable (hd : isDefaultFunction t = false) (h : x ∈ attachable t) :
    x ∈ looseNames t := by
  unfold attachable at h
  split at h
  · rw [looseNames, List.append_assoc]
    exact List.mem_append_left _ h
  · cases hd
  · cases h

theorem looseNames_node (h : holdsStatements (.node k s cs) = false) (hn : x ∈ looseNamesAll cs) :
    x ∈ looseNames (.node k s cs) := by
  generalize ht : Ast.node k s cs = t at h
  fun_cases looseNames t <;> simp_all [looseNamesAll, holdsStatements, isStatementList]

/-- A node whose parts keep their names keeps them when it is treated. -/
theorem Walked.node {near' : Bool} {u u' : Ast} {own : Trace} {cache : Option String}
    (h : Walked job given lost near' names u u' tr)
    (hstays : Converts given lost tr.caches (.node k s cs) (.node k s cs'))
    (hparts : ConvertsAll given lost (if isRepeated k then [] else tr.caches) cs cs')
    (hr : Ready job.table given lost (.node k s cs))
    (htreat : treat job w (.node k s cs') cache = (t', own))
    (hnear : near = false → near' = false ∧ cache = none)
    (hnames : names ⊆ looseNames (.node k s cs))
    (hown : own.stmts = [] ∨ attachable (.node k s cs) ⊆ waiting w (.node k s cs)) :
    Walked job given lost near (waiting w (.node k s cs)) (.node k s cs) t' (tr.through k ++ own) := by
  obtain ⟨hconv, hat, hsealed, hcaches⟩ := treat_converts htreat hstays hparts hr
  refine ⟨by simpa using hconv, ?_, fun e he => ?_, fun hn => ?_⟩
  · rw [Trace.append_stmts, Trace.through_stmts]
    refine (h.attached.mono fun _ hx => List.mem_append_left _ (hnames hx)).append ?_
    rcases hown with hown | hown
    · rw [hown]
      exact .nil
    · exact hat.mono fun _ hx => hown hx
  · rw [Trace.mem_entries_append, Trace.through_entries] at he
    exact he.elim (h.sealed e) (hsealed e)
  · obtain ⟨hn, rfl⟩ := hnear hn
    rw [Trace.append_caches, Trace.through_caches, h.caches hn, List.subset_nil.1 hcaches,
      List.append_nil]

/-- The function of a default export has its parts converted. -/
theorem ProceedsAll.of_default {fs : Span}
    (h : ProceedsAll job near n (fun _ => .exported) [.node .funcExpr fs cs] cs' tr n') :
    ∃ cs₁', cs' = [.node .funcExpr fs cs₁'] ∧
      ProceedsAll job near n (fun _ => .plain) cs cs₁' tr n' := by
  rcases h with _ | ⟨h, _ | _, rfl⟩
  cases h with
  | @node _ _ _ _ _ _ _ _ cs₁' _ _ _ _ _ hcs htreat hall hn =>
    rw [treat_none (form?_exported fs cs₁')] at htreat
    obtain ⟨rfl, rfl⟩ := Prod.mk.inj htreat
    rw [cacheFor_none (form?_exported fs cs₁')] at hn
    subst hall hn
    refine ⟨cs₁', rfl, ?_⟩
    rw [Trace.append_empty, Trace.append_empty, Trace.through_of_ne (by simp)]
    have hslots : job.config.hooks.childSlot .exported (.node .funcExpr fs cs) = fun _ => .plain := rfl
    simpa [isRepeated, hslots] using hcs
  | statements hk _ => cases hk

theorem Walks.node (ih : ∀ u, sizeOf u < sizeOf (Ast.node k s cs) → Walks job given lost u)
    {own : Trace} {n₁ : UsedNames} (hl : holdsStatements (.node k s cs) = false)
    (hcs : ProceedsAll job (near && !isRepeated k) n (job.config.hooks.childSlot w (.node k s cs)) cs
      cs' tr n₁)
    (htreat : treat job w (.node k s cs') (cacheFor job near n₁ w (.node k s cs')).1 = (t', own))
    (hr : Ready job.table given lost (.node k s cs)) :
    Walked job given lost near (waiting w (.node k s cs)) (.node k s cs) t'
      (tr.through k ++ own) := by
  have hnear : near = false → (near && !isRepeated k) = false ∧
      (cacheFor job near n₁ w (.node k s cs')).1 = none := by
    rintro rfl
    exact ⟨rfl, by rw [cacheFor_far]⟩
  cases hd : isDefaultFunction (.node k s cs) with
  | false =>
    have hwalked := hcs.walked (childSlot_ne_statement hl)
      (fun c hc => ih c (sizeOf_lt_of_mem_node hc)) fun c hc => hr.child hd hc
    have hparts : ConvertsAll given lost (if isRepeated k then [] else tr.caches) cs cs' := by
      split
      · rename_i hk
        exact hwalked.caches (by simp [hk]) ▸ hwalked.all
      · exact hwalked.all
    refine hwalked.node (.node hd hparts) hparts hr htreat hnear (fun x hx => looseNames_node hl hx)
      (.inr fun x hx => List.mem_append_left _ (mem_looseNames_of_attachable hd hx))
  | true =>
    obtain ⟨s, fs, cs, heq⟩ := isDefaultFunction_eq_true hd
    cases heq
    obtain ⟨cs', rfl, hparts⟩ := ProceedsAll.of_default hcs
    have hwalked := hparts.walked (by simp)
      (fun c hc => ih c (Nat.lt_trans (sizeOf_lt_of_mem_node hc)
        (sizeOf_lt_of_mem_node (List.mem_singleton.2 rfl))))
      fun c hc => hr.defaultChild hc
    refine hwalked.node (converts_defaultFunction hwalked.all)
      (.cons (.node rfl hwalked.all) .nil) hr htreat hnear (by simp [looseNames, looseNamesAll]) ?_
    by_cases hw : w = .statement
    · exact .inr fun x hx => List.mem_append_right _ (by simpa [hw] using hx)
    · rw [treat_none (form?_default hw s fs cs')] at htreat
      obtain ⟨-, rfl⟩ := Prod.mk.inj htreat
      exact .inl rfl

/-! ### Statements -/

theorem accounted_of_mem_attachable (ht : isDefaultFunction t = true) (hn : x ∈ attachable t) :
    Accounted (outlineAs .refers t) lost x := by
  unfold attachable at hn
  split at hn
  · cases ht
  · rename_i name f
    rcases List.mem_append.1 hn with hn | hn
    · refine .inr (.inl ?_)
      cases hi : name.identName? <;>
        simp_all [outlineAs, declareName, declareAll, lexical, BindingKind.isFunctionScoped]
    · exact .inl (by simp [outlineAs, hn])
  · cases hn

theorem lexicalAll_cacheDecls (caches : List String) :
    lexicalAll (outlineAll .refers (caches.map cacheDecl)) = caches := by
  rw [outlineAll_cacheDecls]
  induction caches with
  | nil => rfl
  | cons n ns ih => simp [lexical, BindingKind.isFunctionScoped, ih]

/-- A statement keeps its names with what is put around it. -/
theorem Keeps.statement {os os' : List Outline} {stmts : List Ast}
    (h : Keeps given lost caches os os') (hat : Attached names stmts)
    (hacc : ∀ n ∈ names, Accounted os lost n) :
    Keeps given lost [] os
      (outlineAll .refers (caches.map cacheDecl) ++ os' ++ outlineAll .refers stmts) where
  lexical n hn := by
    simp only [lexicalAll_append, List.mem_append]
    exact (h.lexical n hn).imp_left fun h => .inl (.inr h)
  hoisted n hn := by
    simp only [hoistedAll_append, List.mem_append]
    exact (h.hoisted n hn).imp_left fun h => .inl (.inr h)
  free n hn := by
    have hnone : freeAll given (outlineAll .refers (caches.map cacheDecl)) = [] := by
      rw [outlineAll_cacheDecls]
      exact freeAll_declareAll _ .let caches
    simp only [freeAll_append, hnone, List.nil_append, List.mem_append] at hn
    simp only [lexicalAll_append, lexicalAll_cacheDecls, List.nil_append, List.mem_append]
    rcases hn with hn | hn
    · rcases h.free n hn with h | h | h
      · exact .inl h
      · exact .inr (.inl (.inl (.inr h)))
      · rcases List.mem_append.1 h with h | h
        · exact .inr (.inl (.inl (.inl h)))
        · exact .inr (.inr h)
    · rcases hacc n (hat.free hn) with h' | h' | h'
      · exact .inl h'
      · exact (h.lexical n h').elim (fun h => .inr (.inl (.inl (.inr h)))) fun h => .inr (.inr h)
      · exact .inr (.inr h')

theorem accounted_of_mem_waiting (hr : Ready job.table given lost t) (hx : x ∈ waiting w t) :
    Accounted (outlineAs .refers t) lost x := by
  have hloose (h : x ∈ looseNames t) : Accounted (outlineAs .refers t) lost x :=
    (accounted_of_mem_looseNames t h).mono id id (hr.leaks x)
  rcases List.mem_append.1 hx with h | h
  · exact hloose h
  · split at h
    · cases hd : isDefaultFunction t with
      | false => exact hloose (mem_looseNames_of_attachable hd h)
      | true => exact accounted_of_mem_attachable hd h
    · cases h

/-- **A list of statements keeps its names**, with what is put around each statement. -/
theorem ProceedsStmts.walked {ss ss' : List Ast} {entries : List Entry}
    (h : ProceedsStmts job n ss ss' entries n') (ih : ∀ t ∈ ss, Walks job given lost t)
    (hr : ∀ t ∈ ss, Ready job.table given lost t) :
    Keeps given lost [] (outlineAll .refers ss) (outlineAll .refers ss') ∧
      ∀ e, .converted e ∈ entries → Sealed job.table given lost e := by
  induction ss generalizing ss' entries n with
  | nil =>
    cases h
    exact ⟨.refl _, by simp⟩
  | cons t ss ihs =>
    cases h with
    | cons ht hss =>
      have hready := hr t List.mem_cons_self
      have hfirst := ih t List.mem_cons_self ht hready
      obtain ⟨hkeeps, hsealed⟩ := ihs hss (fun t ht => ih t (List.mem_cons_of_mem _ ht))
        fun t ht => hr t (List.mem_cons_of_mem _ ht)
      refine ⟨?_, fun e he => (List.mem_append.1 he).elim (hfirst.sealed e) (hsealed e)⟩
      have := (Keeps.statement (hfirst.converts.keeps .refers) hfirst.attached fun x hx =>
        accounted_of_mem_waiting hready hx).append hkeeps
      simpa [outlineAll, outlineAll_append, outlineIn] using this

/-! ### Trees -/

theorem converts_block {ss ss' : List Ast}
    (h : Keeps given lost [] (outlineAll .refers ss) (outlineAll .refers ss')) :
    Converts given lost caches (.node .block s ss) (.node .block s ss') := by
  have h : Keeps given lost caches (outlineAll .refers ss) (outlineAll .refers ss') :=
    h.mono fun n hn => by cases hn
  refine .replaced rfl fun m => ?_
  cases m with
  | refers => simpa [outlineIn, outlineAs] using h.scope .block none
  | binds => simpa [outlineIn, outlineAs] using h.scope .block none
  | body => simpa [outlineIn] using h

/-- A node that only holds statements keeps their names. -/
theorem converts_stmts {ss ss' : List Ast} (hg : givesWay (.node k s ss) (.node k s ss') = true)
    (hp : isPatternKind k = false) (hb : k ≠ .block)
    (ho : ∀ ss, outlineAs .refers (.node k s ss) = outlineAll .refers ss)
    (h : Keeps given lost caches (outlineAll .refers ss) (outlineAll .refers ss')) :
    Converts given lost caches (.node k s ss) (.node k s ss') := by
  refine .replaced hg fun m => ?_
  rw [outlineIn_eq m hp hb, outlineIn_eq m hp hb, ho, ho]
  exact h

theorem converts_statements {ss ss' : List Ast} (hk : isStatementList k = true)
    (h : Keeps given lost [] (outlineAll .refers ss) (outlineAll .refers ss')) :
    Converts given lost [] (.node k s ss) (.node k s ss') := by
  cases k with
  | block => exact converts_block h
  | moduleBlock | module =>
    exact converts_stmts rfl rfl (by simp) (by simp [outlineAs, isTypeKind]) h
  | _ => cases hk

/-- **Every tree keeps its names.** -/
theorem walks (t : Ast) : Walks job given lost t := by
  induction hn : sizeOf t using Nat.strongRecOn generalizing t with
  | ind N ih =>
  have hw : ∀ u, sizeOf u < sizeOf t → Walks job given lost u := fun u hu => ih _ (hn ▸ hu) u rfl
  clear ih hn
  intro near n n' w t' tr h hr
  cases h with
  | absent => exact ⟨.absent, .nil, by simp [Trace.entries], fun _ => rfl⟩
  | @list _ _ _ _ ts ts' _ h =>
    have hwalked := h.walked (fun _ => item_ne_statement w)
      (fun t ht => hw t (sizeOf_lt_of_mem_list ht)) fun t ht => hr.item ht
    exact { hwalked with attached := hwalked.attached.mono fun _ => List.mem_append_left _ }
  | node hl hcs htreat hall _ =>
    subst hall
    exact Walks.node hw hl hcs htreat hr
  | @statements _ _ _ _ k s ss ss' entries hk h =>
    have hd : isDefaultFunction (.node k s ss) = false := by
      cases k <;> first | rfl | cases hk
    obtain ⟨hkeeps, hsealed⟩ := h.walked
      (fun t ht => hw t (sizeOf_lt_of_mem_node ht)) fun t ht => hr.child hd ht
    exact ⟨converts_statements hk hkeeps, .nil, by simpa using hsealed, fun _ => rfl⟩
  | @switchCase _ _ _ _ _ s test test' ss ss' tr _ entries htest hss hall =>
    subst hall
    have hfirst := hw test (by simp; omega) htest (hr.child rfl (by simp))
    obtain ⟨hkeeps, hsealed⟩ := hss.walked
      (fun t ht => hw t (sizeOf_lt_of_mem_node (List.mem_cons_of_mem _ ht)))
      fun t ht => hr.child rfl (List.mem_cons_of_mem _ ht)
    have hall := (hfirst.converts.keeps .refers).append (hkeeps.mono (by simp))
    refine ⟨converts_stmts rfl rfl (by simp) (by simp [outlineAs, isTypeKind]) ?_, ?_, ?_, ?_⟩
    · simpa [outlineAll, outlineIn] using hall
    · simp only [Trace.append_stmts, List.append_nil]
      refine hfirst.attached.mono fun x hx => List.mem_append_left _ ?_
      simpa [waiting, looseNames] using hx
    · intro e he
      rcases Trace.mem_entries_append.1 he with he | he
      · exact hfirst.sealed e he
      · exact hsealed e (by simpa using he)
    · intro hn
      simpa using hfirst.caches hn

end Worklet
