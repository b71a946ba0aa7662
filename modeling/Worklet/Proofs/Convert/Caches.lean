import Worklet.Proofs.Convert.Arrivals

/-!
# Variables of accessors

An accessor that is converted may keep its function in a variable that is declared before the statement
around it. The variable is shared by all objects that one run of the statement makes, so nothing around
the accessor may run again while the statement does not.

Principal result: `transform_caches` — a converted accessor has a variable if and only if nothing between
it and its statement can run again, its declaration stands before the statement, and no two accessors
share one.
-/

set_option autoImplicit false

namespace Worklet

open Syntax

/-! ### Places in statements -/

/-- A place of a tree is in a statement of a list, and in no other list in that statement. -/
structure InStatement (t : Ast) (π ρ : Path) (i : Nat) (κ : Path) (list statement : Ast) : Prop where
  path : π = ρ ++ i :: κ
  list_at : t.at? ρ = some list
  enters : entersList list i = true
  statement_at : list.parts[i]? = some statement
  isOpen : κ ∈ openPlaces statement

/-- The constructs around a place, the outermost first. -/
def around : Ast → Path → List Ast
  | _, [] => []
  | t, i :: π => t :: t.parts[i]?.elim [] fun c => around c π

variable {ts cs : List Ast} {i : Nat} {within : Nat → Bool} {n : UsedNames} {k : Kind} {s : Span}
  {job : Job} {τ : Stage}

section Open

variable {t u c : Ast} {π κ : Path}

theorem nil_mem_openPlaces (t : Ast) : [] ∈ openPlaces t := by
  cases t with
  | absent => exact List.mem_singleton_self _
  | list ts => exact List.mem_append_right _ (List.mem_singleton_self _)
  | node k s cs =>
    rcases node_cases k s cs with ⟨test, ss, rfl, rfl⟩ | hk | hl
    · simp [openPlaces]
    · simp [openPlaces_statements hk]
    · simp [openPlaces_node hl]

theorem cons_mem_openPlacesAll :
    i :: κ ∈ openPlacesAll ts ↔ ∃ c, ts[i]? = some c ∧ κ ∈ openPlaces c := by
  induction ts generalizing i with
  | nil => simp [openPlacesAll]
  | cons t ts ih =>
    rw [openPlacesAll, List.mem_append, List.mem_map, List.mem_map]
    cases i with
    | zero =>
      constructor
      · rintro (⟨π, hπ, h⟩ | ⟨π, hπ, h⟩)
        · cases h
          exact ⟨t, rfl, hπ⟩
        · cases π <;> cases h
      · rintro ⟨c, hc, hκ⟩
        cases hc
        exact .inl ⟨κ, hκ, rfl⟩
    | succ i =>
      rw [List.getElem?_cons_succ, ← ih]
      constructor
      · rintro (⟨π, -, h⟩ | ⟨π, hπ, h⟩)
        · cases h
        · cases π with
          | nil => cases h
          | cons j π =>
            cases h
            exact hπ
      · exact fun h => .inr ⟨i :: κ, h, rfl⟩

/-- A place is open if no list of statements is entered on the way to it. -/
theorem cons_mem_openPlaces :
    i :: κ ∈ openPlaces t ↔ entersList t i = false ∧ ∃ c, t.parts[i]? = some c ∧ κ ∈ openPlaces c := by
  cases t with
  | absent => simp [openPlaces, Ast.parts]
  | list ts => simp [openPlaces, Ast.parts, entersList, cons_mem_openPlacesAll]
  | node k s cs =>
    rcases node_cases k s cs with ⟨test, ss, rfl, rfl⟩ | hk | hl
    · cases i <;> simp [openPlaces, Ast.parts, entersList]
    · simp [openPlaces_statements hk, Stage.entersList_statements hk]
    · simp [openPlaces_node hl, Ast.parts, Stage.entersList_node hl, cons_mem_openPlacesAll]

theorem open_or_inStatement (h : t.at? π = some u) :
    π ∈ openPlaces t ∨ ∃ ρ i κ l s, InStatement t π ρ i κ l s := by
  induction π generalizing t with
  | nil => exact .inl (nil_mem_openPlaces t)
  | cons i π ih =>
    obtain ⟨c, hc, h⟩ := Option.bind_eq_some_iff.1 h
    rcases ih h with hopen | ⟨ρ, j, κ, l, s, hpath, hlist, henters, hs, hopen⟩
    · cases henters : entersList t i with
      | true => exact .inr ⟨[], i, π, t, c, rfl, rfl, henters, hc, hopen⟩
      | false => exact .inl (cons_mem_openPlaces.2 ⟨henters, c, hc, hopen⟩)
    · refine .inr ⟨i :: ρ, j, κ, l, s, by rw [hpath]; rfl, ?_, henters, hs, hopen⟩
      rw [Ast.at?, hc]
      exact hlist

end Open

/-! ### Slots of default exports -/

theorem item_ne_exported (w : Slot) (i : Nat) : w.item i ≠ .exported := by
  unfold Slot.item
  split
  · unfold Slot.ofDetection
    split <;> simp
  · simp

theorem childSlot_eq_exported {hooks : HookRegistry} {w : Slot} {t : Ast}
    (h : hooks.childSlot w t i = .exported) :
    ∃ s fs cs, t = .node .exportDefaultDecl s [.node .funcExpr fs cs] := by
  unfold HookRegistry.childSlot at h
  split at h
  case h_5 => exact ⟨_, _, _, rfl⟩
  case h_7 | h_8 => cases w <;> cases h
  case h_9 =>
    unfold Slot.atValue at h
    split at h
    · split at h <;> cases h
    · cases h
  all_goals cases h

/-! ### What runs again -/

/-- A function, an accessor, a constructor or a loop: code in it can run again while the statements
around it do not. A method holds a function. -/
def canRunAgain : Ast → Bool
  | .node (.function ..) _ _ => true
  | .node (.arrow _) _ _ => true
  | .node .getter _ _ => true
  | .node .setter _ _ => true
  | .node (.constructor ..) _ _ => true
  | .node .forStmt _ _ => true
  | .node .forIn _ _ => true
  | .node (.forOf _) _ _ => true
  | .node .whileStmt _ _ => true
  | .node .doWhileStmt _ _ => true
  | _ => false

theorem canRunAgain_eq (t : Ast) : canRunAgain t = t.kind?.any isRepeated := by
  cases t with
  | absent | list => rfl
  | node k s cs => cases k <;> rfl

/-- The body of a getter or a setter of an object or a class. -/
def accessorBody? : Ast → Option Ast
  | .node .getter _ [_, _, body] => some body
  | .node .setter _ [_, _, _, body] => some body
  | .node (.classMethod .getter _) _ [_, f] => some (functionBody f)
  | .node (.classMethod .setter _) _ [_, f] => some (functionBody f)
  | _ => none

section Accessors

variable {σ : Stage} {w : Slot} {t body : Ast} {f : Form} {κ π : Path}

theorem proceedAll_entries {near : Bool} {ws : Nat → Slot}
    (h : stageIn job (fun _ => near) within n ws ts i = some τ) :
    (τ.outcome job).trace.entries ⊆ (proceedAll job near n ws ts).trace.entries := by
  induction ts generalizing within n ws i with
  | nil => cases h
  | cons t ts ih =>
    intro e he
    rw [proceedAll, Trace.mem_entries_append]
    cases i with
    | zero =>
      cases h
      exact .inl he
    | succ i => exact .inr (ih h he)

theorem proceedStmts_entries {ss : List Ast}
    (h : stageIn job (fun _ => true) within n (fun _ => .statement) ss i = some τ) :
    (τ.outcome job).trace.entries ⊆ (proceedStmts job n ss).trace.entries := by
  induction ss generalizing within n i with
  | nil => cases h
  | cons t ts ih =>
    intro e he
    rw [proceedStmts, Trace.entries, List.append_nil, List.mem_append]
    cases i with
    | zero =>
      cases h
      exact .inl he
    | succ i =>
      have hrest := ih h he
      rw [proceedStmts_trace, Trace.entries, List.append_nil] at hrest
      exact .inr hrest

namespace Stage

/-- The statements around are near to an open place if nothing around it runs again. -/
theorem at?_near (hκ : κ ∈ openPlaces σ.tree) (h : σ.at? job κ = some τ) :
    τ.near = (σ.near && (around σ.tree κ).all fun c => !canRunAgain c) := by
  induction κ generalizing σ with
  | nil =>
    cases h
    simp [around]
  | cons i κ ih =>
    obtain ⟨υ, hυ, h⟩ := Option.bind_eq_some_iff.1 h
    obtain ⟨henters, c, hc, hκ⟩ := cons_mem_openPlaces.1 hκ
    obtain ⟨hpart, -, -, hnear⟩ := stageIn_eq hυ
    rw [hc, Option.some.injEq] at hpart
    subst hpart
    rw [ih hκ h, hnear, partNear, henters, Bool.false_or, around, hc, List.all_cons, canRunAgain_eq,
      Bool.and_assoc]
    rfl

theorem part?_entries (h : σ.part? job i = some τ) :
    (τ.outcome job).trace.entries ⊆ (σ.outcome job).trace.entries := by
  rw [part?] at h
  cases ht : σ.tree with
  | absent =>
    rw [ht] at h
    cases h
  | list ts =>
    rw [ht, partNear_list] at h
    rw [outcome_list ht]
    exact proceedAll_entries h
  | node k s cs =>
    rcases node_cases k s cs with ⟨test, ss, rfl, rfl⟩ | hk | hl
    · obtain ⟨hnear, hnears, hslot, hslots⟩ :=
        parts_switchCase σ.near job.config.hooks σ.slot s test ss
      rw [ht, Ast.parts] at h
      rw [outcome_switchCase ht]
      intro e he
      rw [Trace.mem_entries_append]
      cases i with
      | zero =>
        rw [stageIn, hnear, hslot] at h
        cases h
        exact .inl he
      | succ i =>
        rw [stageIn, hnear, hnears, hslot, hslots] at h
        exact .inr (proceedStmts_entries h he)
    · obtain ⟨hnear, hslot, -⟩ := parts_statements hk σ.near job.config.hooks σ.slot s cs
      rw [ht, hnear, hslot] at h
      rw [outcome_statements ht hk]
      exact proceedStmts_entries h
    · rw [ht, partNear_node _ hl] at h
      rw [outcome_node ht hl, parts, ht]
      intro e he
      rw [Trace.mem_entries_append, Trace.through_entries]
      exact .inl (proceedAll_entries h he)

theorem own_subset_outcome (job : Job) (σ : Stage) :
    (σ.own job).entries ⊆ (σ.outcome job).trace.entries := by
  cases hk : σ.tree.kind? with
  | none =>
    rw [own_of_kind?_eq_none hk]
    exact List.nil_subset _
  | some k =>
    cases ht : σ.tree with
    | absent | list => simp [ht, Ast.kind?] at hk
    | node k s cs =>
      cases hl : holdsStatements σ.tree with
      | true =>
        rw [own_of_holdsStatements hl]
        exact List.nil_subset _
      | false =>
        rw [outcome_node ht (by rwa [← ht])]
        exact fun e he => Trace.mem_entries_append.2 (.inr he)

/-- What is recorded of a piece is recorded of the pieces around it. -/
theorem at?_entries (h : σ.at? job π = some τ) :
    (τ.outcome job).trace.entries ⊆ (σ.outcome job).trace.entries := by
  induction π generalizing σ with
  | nil =>
    cases h
    exact List.Subset.refl _
  | cons i π ih =>
    obtain ⟨υ, hυ, h⟩ := Option.bind_eq_some_iff.1 h
    exact List.Subset.trans (ih h) (part?_entries hυ)

theorem own_subset (h : σ.at? job π = some τ) :
    (τ.own job).entries ⊆ (σ.outcome job).trace.entries :=
  List.Subset.trans (own_subset_outcome job τ) (at?_entries h)

end Stage

/-- An accessor that has a form hands over to its wrapper, or it is of a form that is never
converted. -/
theorem accessor_form (job : Job) (hb : accessorBody? t = some body) (hf : form? w t = some f) :
    f.subject.body = body ∧ ∀ p, f.subject.prepare job = .ok p → f.isAccessor = true ∧
      ∀ cache, accessorBody? (f.turned p cache) = some (delegate p.wrapper cache) := by
  cases FormOf.of_form? hf with
  | getter hc =>
    cases hb
    obtain ⟨_, _, _, _, ⟨⟩, -, rfl⟩ := Candidate.ofGetter_eq_some hc
    exact ⟨rfl, fun p _ => ⟨rfl, fun _ => rfl⟩⟩
  | setter hc =>
    cases hb
    obtain ⟨_, _, _, _, _, ⟨⟩, -, rfl⟩ := Candidate.ofSetter_eq_some hc
    exact ⟨rfl, fun p _ => ⟨rfl, fun _ => rfl⟩⟩
  | @privateMethod _ kind mods s key fn _ =>
    cases kind with
    | method => cases hb
    | getter | setter =>
      cases hb
      exact ⟨rfl, fun p hp => by cases hp⟩
  | classMethod _ hm _ =>
    subst hm
    cases hb
  | @classAccessor _ kind mods s key fn c _ _ hc =>
    obtain ⟨_, _, _, _, _, _, _, _, rfl, -, -, rfl⟩ := Candidate.ofFunction_eq_some hc
    cases kind with
    | method => cases hb
    | getter | setter =>
      cases hb
      exact ⟨rfl, fun p _ => ⟨rfl, fun _ => rfl⟩⟩
  | expression | arrow | declaration | method | constructor | namedDefault | namelessDefault => cases hb

theorem accessorBody?_of_isAccessor (hf : form? w t = some f) (ha : f.isAccessor = true) :
    ∃ body, accessorBody? t = some body := by
  cases FormOf.of_form? hf with
  | getter | setter => exact ⟨_, rfl⟩
  | @classAccessor _ kind _ _ _ _ _ _ hm _ =>
    cases kind with
    | method => exact absurd rfl hm
    | getter | setter => exact ⟨_, rfl⟩
  | expression | arrow | declaration | method | privateMethod | classMethod | constructor
    | namedDefault | namelessDefault => cases ha

namespace Stage

/-- A node whose parts are converted comes from a node with as many parts. -/
theorem halfway_node {cs' : List Ast} (h : τ.halfway job = .node k s cs') :
    ∃ cs, τ.tree = .node k s cs ∧ cs.length = cs'.length := by
  cases ht : τ.tree with
  | absent | list => simp [halfway, ht] at h
  | node k s cs =>
    rw [halfway, ht] at h
    cases h
    refine ⟨cs, rfl, ?_⟩
    rw [parts, ht]
    exact proceedAll_length.symm

/-- A node with the parts of an accessor is one. -/
theorem accessorBody?_of_halfway (hb : accessorBody? (τ.halfway job) = some body) :
    ∃ body', accessorBody? τ.tree = some body' := by
  generalize hh : τ.halfway job = h at hb
  unfold accessorBody? at hb
  split at hb
  case h_1 =>
    obtain ⟨cs, ht, hlength⟩ := halfway_node hh
    obtain ⟨key, type, b, rfl⟩ := List.length_eq_three.1 hlength
    exact ⟨b, by rw [ht]; rfl⟩
  case h_2 =>
    obtain ⟨cs, ht, hlength⟩ := halfway_node hh
    match cs, hlength with
    | [key, this, param, b], _ => exact ⟨b, by rw [ht]; rfl⟩
  case h_3 | h_4 =>
    obtain ⟨cs, ht, hlength⟩ := halfway_node hh
    obtain ⟨key, f, rfl⟩ := List.length_eq_two.1 hlength
    exact ⟨functionBody f, by rw [ht]; rfl⟩
  case h_5 => cases hb

/-- An accessor whose parts are converted begins with the marker if it did. -/
theorem halfway_accessor (job : Job) (hb : accessorBody? τ.tree = some body) :
    ∃ k s cs body', τ.tree = .node k s cs ∧ holdsStatements (.node k s cs) = false ∧
      accessorBody? (τ.halfway job) = some body' ∧ job.isMarked body' = job.isMarked body := by
  unfold accessorBody? at hb
  split at hb
  case h_1 | h_2 =>
    rename_i ht
    cases hb
    refine ⟨_, _, _, _, ht, rfl, by rw [halfway, parts, ht]; rfl, ?_⟩
    exact (proceed_proceeds _ _ _ body).becomes.hasDirective_eq _
  case h_3 | h_4 =>
    rename_i f ht
    cases hb
    refine ⟨_, _, _, _, ht, rfl, by rw [halfway, parts, ht]; rfl, ?_⟩
    exact (proceed_proceeds _ _ _ f).becomes.bodyAgrees_functionBody.marked _
  case h_5 => cases hb

/-- A node without a form stays with its parts converted and leaves nothing. -/
theorem formless (ht : τ.tree = .node k s cs) (hl : holdsStatements (.node k s cs) = false)
    (hf : form? τ.slot (τ.halfway job) = none) :
    τ.cache? job = none ∧ τ.own job = {} ∧ (τ.outcome job).result = τ.halfway job := by
  refine ⟨by simp [cache?, cacheFor, hf], ?_, by rw [outcome_node ht hl, treat_none hf]⟩
  rw [own, ht, hl, if_neg (by simp), treat_none hf]

/-- A marked function stays with its parts converted, or what its form says takes its place. -/
theorem marked_cases (ht : τ.tree = .node k s cs) (hl : holdsStatements (.node k s cs) = false)
    (hf : form? τ.slot (τ.halfway job) = some f) (hm : job.isMarked f.subject.body = true) :
    (τ.cache? job = none ∧ (τ.own job).stmts = [] ∧ (τ.outcome job).result = τ.halfway job) ∨
    ∃ p, f.subject.prepare job = .ok p ∧ (τ.outcome job).result = f.turned p (τ.cache? job) ∧
      .converted ⟨p, .directive, f.callable p⟩ ∈ (τ.own job).entries ∧
      (τ.own job).stmts = f.attached p ∧
      ((τ.cache? job).isSome = true ↔ τ.near = true ∧ f.isAccessor = true) := by
  have hl' : holdsStatements τ.tree = false := by rw [ht, hl]
  rw [outcome_node ht hl, own, if_neg (by simp [hl'])]
  cases hp : f.subject.prepare job with
  | error refusal =>
    refine .inl ⟨?_, ?_, ?_⟩
    · simp [cache?, cacheFor, hf, hp, Except.isOk, Except.toBool]
    · simp [treat, hf, Form.treat, hp]
    · simp [treat, hf, Form.treat, hp]
  | ok p =>
    have htreat : treat job τ.slot (τ.halfway job) (τ.cache? job) =
        (f.turned p (τ.cache? job), { now := [.converted ⟨p, .directive, f.callable p⟩]
                                      caches := if f.isAccessor then (τ.cache? job).toList else []
                                      stmts := f.attached p }) := by
      simp [treat, hf, Form.treat, hp, hm]
    rw [htreat]
    refine .inr ⟨p, rfl, rfl, by simp [Trace.entries], rfl, ?_⟩
    cases hnear : τ.near <;> cases haccessor : f.isAccessor <;>
      simp [cache?, hl', cacheFor, hf, hp, haccessor, hm, hnear, Except.isOk, Except.toBool]

/-- A marked accessor stays with its marker, or it hands over to its wrapper. -/
theorem accessor_cases (hb : accessorBody? τ.tree = some body) (hm : job.isMarked body = true) :
    (τ.cache? job = none ∧ ∃ body', accessorBody? (τ.outcome job).result = some body' ∧
      job.isMarked body' = true) ∨
    ∃ e, .converted e ∈ (τ.own job).entries ∧
      accessorBody? (τ.outcome job).result = some (delegate e.prepared.wrapper (τ.cache? job)) ∧
      ((τ.cache? job).isSome = true ↔ τ.near = true) := by
  obtain ⟨k, s, cs, body', ht, hl, hb', hmarked⟩ := halfway_accessor job hb
  rw [hm] at hmarked
  cases hf : form? τ.slot (τ.halfway job) with
  | none =>
    obtain ⟨hcache, -, hresult⟩ := formless ht hl hf
    exact .inl ⟨hcache, body', hresult ▸ hb', hmarked⟩
  | some f =>
    obtain ⟨rfl, hform⟩ := accessor_form job hb' hf
    rcases marked_cases ht hl hf hmarked with
      ⟨hcache, -, hresult⟩ | ⟨p, hp, hresult, hentries, -, hcache⟩
    · exact .inl ⟨hcache, _, hresult ▸ hb', hmarked⟩
    · obtain ⟨haccessor, hturned⟩ := hform p hp
      refine .inr ⟨_, hentries, by rw [hresult]; exact hturned _, ?_⟩
      simpa [haccessor] using hcache

/-- Only a marked accessor has a variable. -/
theorem accessor_of_cache {name : String} (h : τ.cache? job = some name) :
    ∃ body, accessorBody? τ.tree = some body ∧ job.isMarked body = true := by
  unfold cache? cacheFor at h
  split at h
  · cases h
  split at h
  · cases h
  rename_i f hf
  split at h
  · rename_i hcond
    simp only [Bool.and_eq_true] at hcond
    obtain ⟨⟨⟨-, haccessor⟩, hmarked⟩, -⟩ := hcond
    obtain ⟨body', hb'⟩ := accessorBody?_of_isAccessor hf haccessor
    obtain ⟨body, hb⟩ := accessorBody?_of_halfway hb'
    obtain ⟨-, -, -, body'', -, -, hb'', hmarks⟩ := halfway_accessor job hb
    rw [hb', Option.some.injEq] at hb''
    subst hb''
    rw [(accessor_form job hb' hf).1] at hmarked
    exact ⟨body, hb, hmarks ▸ hmarked⟩
  · cases h

/-! ### Statements -/

/-- Only the function of a default export has its slot. -/
theorem part?_exported (h : σ.part? job i = some τ) (he : τ.slot = .exported) :
    τ.tree.kind? = some .funcExpr := by
  obtain ⟨hpart, hslot, -, -⟩ := stageIn_eq h
  rw [he] at hslot
  cases ht : σ.tree with
  | absent | list => exact absurd (ht ▸ hslot.symm) (item_ne_exported _ _)
  | node k s cs =>
    rw [ht] at hpart hslot
    obtain ⟨s, fs, cs, hnode⟩ := childSlot_eq_exported hslot.symm
    cases hnode
    cases i with
    | zero =>
      have hfunction : Ast.node .funcExpr fs cs = τ.tree := by simpa [Ast.parts] using hpart
      rw [← hfunction]
      rfl
    | succ i => cases hpart

theorem at?_exported (h : σ.at? job π = some τ)
    (hσ : σ.slot = .exported → σ.tree.kind? = some .funcExpr) (he : τ.slot = .exported) :
    τ.tree.kind? = some .funcExpr := by
  induction π generalizing σ with
  | nil =>
    cases h
    exact hσ he
  | cons i π ih =>
    obtain ⟨υ, hυ, h⟩ := Option.bind_eq_some_iff.1 h
    exact ih h (part?_exported hυ)

/-- Lists of statements are pieces of their own. -/
theorem isSite_of_holdsStatements (he : τ.slot = .exported → τ.tree.kind? = some .funcExpr)
    (hl : holdsStatements τ.tree = true) : τ.isSite = true := by
  cases ht : τ.tree with
  | absent | list => simp [ht, holdsStatements] at hl
  | node k s cs =>
    rw [ht] at he hl
    rcases node_cases k s cs with ⟨test, ss, rfl, rfl⟩ | hk | hl'
    · simp_all [Piece.isSite, Piece.isElement, Ast.kind?]
    · cases k with
      | block | moduleBlock | module => simp_all [Piece.isSite, Piece.isElement, Ast.kind?]
      | _ => cases hk
    · rw [hl] at hl'
      cases hl'

/-- Accessors are pieces of their own. -/
theorem isSite_of_accessor (he : τ.slot = .exported → τ.tree.kind? = some .funcExpr)
    (hb : accessorBody? τ.tree = some body) : τ.isSite = true := by
  unfold accessorBody? at hb
  split at hb
  case h_5 => cases hb
  all_goals
    rename_i ht
    simp_all [Piece.isSite, Piece.isElement, Ast.kind?]

/-- A list of statements at a place, and the statement in which an open place of it is. -/
theorem at?_inStatement {ρ κ : Path} {l s : Ast} (h : σ.at? job π = some τ)
    (hin : InStatement σ.tree π ρ i κ l s) :
    ∃ υ μ, σ.at? job ρ = some υ ∧ υ.tree = l ∧ υ.part? job i = some μ ∧ μ.tree = s ∧ μ.near = true ∧
      μ.at? job κ = some τ := by
  rw [hin.path, at?_append] at h
  obtain ⟨υ, hυ, h⟩ := Option.bind_eq_some_iff.1 h
  obtain ⟨μ, hμ, h⟩ := Option.bind_eq_some_iff.1 h
  have htree : υ.tree = l := Option.some.inj ((at?_tree hυ).symm.trans hin.list_at)
  obtain ⟨hpart, -, -, hnear⟩ := stageIn_eq hμ
  rw [htree] at hpart hnear
  rw [partNear, hin.enters, Bool.true_or] at hnear
  exact ⟨υ, μ, hυ, htree, hμ, Option.some.inj (hpart.symm.trans hin.statement_at), hnear, h⟩

end Stage

end Accessors

/-! ### Programs -/

/-- In what became of a list of statements, a variable is declared right before the place where a
statement went. -/
def DeclaredBefore (marker : String) (l l' : Ast) (i : Nat) (name : String) : Prop :=
  ∃ (before after : List Ast) (lets : List String), l'.parts = before ++ lets.map cacheDecl ++ after ∧
    name ∈ lets ∧ PartGoes marker l l' i (some [before.length + lets.length])

/-- How the accessors at the places of a module keep their functions in variables. -/
structure Caches (config : Config) (conversions : List Conversion) (module module' : Ast)
    (cacheAt : Path → Option String) : Prop where
  /-- An accessor is in a statement of a list. -/
  standing : ∀ π x body, Piece.at? config.hooks ⟨.plain, module, false⟩ π = some x →
    accessorBody? x.tree = some body → ∃ ρ i κ l s, InStatement module π ρ i κ l s
  /-- A marked accessor in a statement stays with its marker, or it hands over to its wrapper, and then
  it has a variable if and only if nothing between it and the statement can run again. -/
  converted : ∀ π x body ρ i κ l s, Piece.at? config.hooks ⟨.plain, module, false⟩ π = some x →
    accessorBody? x.tree = some body → hasDirective config.marker body = true →
    InStatement module π ρ i κ l s →
    Arrives config.marker module module' π fun u =>
      (cacheAt π = none ∧ ∃ body', accessorBody? u = some body' ∧
        hasDirective config.marker body' = true) ∨
      ∃ e ∈ conversions, accessorBody? u = some (delegate e.prepared.wrapper (cacheAt π)) ∧
        ((cacheAt π).isSome = true ↔ ∀ c ∈ around s κ, canRunAgain c = false)
  /-- Only marked accessors have variables. -/
  only : ∀ π name, cacheAt π = some name → ∃ x body,
    Piece.at? config.hooks ⟨.plain, module, false⟩ π = some x ∧ accessorBody? x.tree = some body ∧
      hasDirective config.marker body = true
  /-- A variable is declared right before the statement. -/
  declared : ∀ π name ρ i κ l s, cacheAt π = some name → InStatement module π ρ i κ l s →
    Arrives config.marker module module' ρ fun l' => DeclaredBefore config.marker l l' i name
  /-- No two accessors have one variable. -/
  injective : ∀ π π' name, cacheAt π = some name → cacheAt π' = some name → π = π'
  /-- A variable is new. -/
  unused : ∀ π name, cacheAt π = some name → name ∉ identNames module

/-- Only what begins with the marker is stripped. -/
theorem Stage.Leaves.eq_result {u : Ast} (h : τ.Leaves job u)
    (hm : hasDirective job.config.marker τ.tree = false) : u = (τ.outcome job).result := by
  rcases h with h | ⟨-, h⟩
  · exact h
  · have hbecomes := τ.becomes job
    rw [h]
    exact stripDirective_eq_self ((hbecomes.hasDirective_eq _).trans hm)

/-- The stripped body of a function is no accessor. -/
theorem Stage.Leaves.eq_of_accessor {u body : Ast} (h : τ.Leaves job u)
    (hb : accessorBody? τ.tree = some body) : u = (τ.outcome job).result := by
  refine h.eq_result ?_
  unfold accessorBody? at hb
  split at hb
  case h_5 => cases hb
  all_goals
    rename_i ht
    rw [ht]
    rfl

/-- The accessors of a module keep their functions in variables when their turn comes. -/
theorem Stage.caches (job : Job) {p : Program} (hroot : isModule p.module = true) :
    Caches job.config (convertedIn ((ofProgram p).outcome job).trace.entries) p.module
      ((ofProgram p).outcome job).result fun π => ((ofProgram p).at? job π).bind (·.cache? job) := by
  constructor
  case standing =>
    intro π x body hx hb
    obtain ⟨τ, hτ, rfl⟩ : ∃ τ, (ofProgram p).at? job π = some τ ∧ τ.toPiece = x := exists_at? hx
    refine (open_or_inStatement (at?_tree hτ)).resolve_left fun hopen => ?_
    obtain ⟨shebang, s, items, hmodule⟩ := isModule_eq_true hroot
    have hopen : π ∈ openPlaces p.module := hopen
    rw [hmodule, openPlaces_statements rfl, List.mem_singleton] at hopen
    subst hopen
    cases hτ
    have hb : accessorBody? p.module = some body := hb
    rw [hmodule] at hb
    cases hb
  case converted =>
    intro π x body ρ i κ l s hx hb hm hin
    obtain ⟨τ, hτ, rfl⟩ : ∃ τ, (ofProgram p).at? job π = some τ ∧ τ.toPiece = x := exists_at? hx
    have hsite := isSite_of_accessor (at?_exported hτ (by rintro ⟨⟩)) hb
    obtain ⟨υ, μ, hυ, hl, hμ, hs, hnear, hκ⟩ := at?_inStatement hτ hin
    refine (carries job _ π τ hτ hsite).imp fun u hu => ?_
    obtain rfl := hu.eq_of_accessor hb
    simp only [hτ, Option.bind_some]
    rcases accessor_cases hb hm with hstays | ⟨e, he, hturned, hcache⟩
    · exact .inl hstays
    · refine .inr ⟨e, mem_convertedIn.2 (own_subset hτ he), hturned, ?_⟩
      rw [hcache, at?_near (hs ▸ hin.isOpen) hκ, hnear, hs]
      simp
  case only =>
    intro π name h
    obtain ⟨τ, hτ, hc⟩ := Option.bind_eq_some_iff.1 h
    obtain ⟨body, hb, hm⟩ := accessor_of_cache hc
    exact ⟨τ.toPiece, body, at?_piece hτ, hb, hm⟩
  case declared =>
    intro π name ρ i κ l s h hin
    obtain ⟨τ, hτ, hc⟩ := Option.bind_eq_some_iff.1 h
    obtain ⟨υ, μ, hυ, hl, hμ, hs, -, hκ⟩ := at?_inStatement hτ hin
    have henters : entersList υ.tree i = true := by rw [hl, hin.enters]
    have hsite := isSite_of_holdsStatements (at?_exported hυ (by rintro ⟨⟩))
      (holdsStatements_of_entersList henters)
    refine (carries job _ ρ υ hυ hsite).imp fun l' hl' => ?_
    have hmem : name ∈ (μ.outcome job).trace.caches := by
      rw [caches_eq, List.mem_flatMap]
      exact ⟨κ, hs ▸ hin.isOpen, by rw [hκ]; simp [hc]⟩
    rcases leaves_split hμ henters hl' with ⟨-, -, htrace, -⟩ | ⟨before, after, hparts, hgoes⟩
    · rw [htrace] at hmem
      cases hmem
    · exact ⟨before, _, _, hparts.trans (List.append_assoc _ _ _), hmem, hl ▸ hgoes⟩
  case injective =>
    intro π π' name h h'
    obtain ⟨τ, hτ, hc⟩ := Option.bind_eq_some_iff.1 h
    obtain ⟨τ', hτ', hc'⟩ := Option.bind_eq_some_iff.1 h'
    exact cache?_injective hτ hτ' hc hc'
  case unused =>
    intro π name h
    obtain ⟨τ, hτ, hc⟩ := Option.bind_eq_some_iff.1 h
    exact at?_cache_notMem hτ hc

/-- **A variable is never shared between evaluations of what is around an accessor.** Every marked
accessor of a module stands in a statement of a list. If it is converted, it keeps its function in a
variable if and only if no function, accessor, constructor or loop is between that statement and the
accessor, and then the variable is declared right before the statement. No two accessors have one
variable, and the module spells none of them. The initializer of a field does not count, though it runs
for each instance. -/
theorem transform_caches (config : Config) (p : Program) (hroot : isModule p.module = true) :
    ∃ module cacheAt,
      (transform config p).module = (if config.strictMode then ensureStrict module else module) ∧
      Caches config (transform config p).conversions p.module module cacheAt := by
  obtain ⟨hmodule, hconversions⟩ := transform_stage config hroot
  rw [hconversions]
  exact ⟨_, _, hmodule, Stage.caches (.ofProgram config p) hroot⟩

/-- `class A { o = { get v() { "worklet"; return 1; } }; }` -/
def sampleField : Program where
  filename := "/app/a.js"
  text := []
  module :=
    made (.module none)
      [made (.classDecl false)
        [madeIdent "A",
         made (.class_ false)
          [.list [],
           .list
            [made (.classProp {})
              [made (.word "o") [],
               made .object
                [.node .getter ⟨16, 48⟩
                  [made (.word "v") [], .absent,
                   made .block [madeStatement (madeString "worklet"), madeReturn (madeNumber 1)]]],
               .absent, .list []]],
           .absent, .absent, .absent, .list []]]]
  comments := default

/-- The place of the getter in the statement of `sampleField`. -/
def fieldGetter : Path := [1, 1, 0, 1, 0]

/-- A getter in the initializer of a field, if it is converted, hands over with a new variable, which all
instances share. -/
theorem transform_caches_sampleField :
    (∃ statement, InStatement sampleField.module (0 :: fieldGetter) [] 0 fieldGetter sampleField.module
        statement ∧ ∃ s cs, .node (.classProp {}) s cs ∈ around statement fieldGetter) ∧
      Arrives Config.standard.marker sampleField.module (transform .standard sampleField).module
        (0 :: fieldGetter) fun u =>
          (∃ body, accessorBody? u = some body ∧ hasDirective Config.standard.marker body = true) ∨
          ∃ e ∈ (transform .standard sampleField).conversions, ∃ name ∉ identNames sampleField.module,
            accessorBody? u = some (delegate e.prepared.wrapper (some name)) := by
  refine ⟨⟨_, ⟨rfl, rfl, rfl, rfl, by decide +kernel⟩, _, _, .tail _ (.tail _ (.tail _ (.head _)))⟩, ?_⟩
  obtain ⟨module, cacheAt, hmodule, h⟩ := transform_caches .standard sampleField rfl
  obtain rfl : (transform .standard sampleField).module = module := hmodule
  refine (h.converted (0 :: fieldGetter) _ _ [] 0 fieldGetter _ _ rfl rfl (by decide +kernel)
    ⟨rfl, rfl, rfl, rfl, by decide +kernel⟩).imp fun u hu => ?_
  rcases hu with ⟨-, hbody⟩ | ⟨e, he, hdelegate, hcache⟩
  · exact .inl hbody
  · obtain ⟨name, hname⟩ := Option.isSome_iff_exists.1 (hcache.2 (by decide +kernel))
    exact .inr ⟨e, he, name, h.unused _ _ hname, hname ▸ hdelegate⟩

end Worklet
