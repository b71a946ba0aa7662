import Worklet.Proofs.Convert.Stages
import Worklet.Proofs.Convert.Opened
import Worklet.Proofs.Convert.Run

/-!
# Where places arrive

Every place of a tree goes somewhere in what the tree became, or it is lost with the types, the
decorators or the marker of a function that was converted. Where it goes stands what became of its
piece when its turn came.

Principal result: `Stage.carries` — all pieces of a tree arrive in what it became.
-/

set_option autoImplicit false

namespace Worklet

open Syntax

/-! ### Arriving -/

/-- A place went somewhere or was lost, and what stands where it went has a property. -/
def Arrives (marker : String) (t t' : Ast) (π : Path) (P : Ast → Prop) : Prop :=
  ∃ o, Goes marker t t' π o ∧ ∀ π', o = some π' → ∃ u, t'.at? π' = some u ∧ P u

variable {s : Span} {cache : Option String} {k : Kind} {cs : List Ast}

variable {ps cs' ts' : List Ast} {t u : Ast} {w : Slot} {tr : Trace} {p : Program}

namespace Arrives

variable {marker : String} {t' c e : Ast} {i : Nat} {π ρ : Path} {P : Ast → Prop}

theorem here (h : P u) : Arrives marker t u [] P :=
  ⟨some [], .here, by rintro _ ⟨⟩; exact ⟨u, rfl, h⟩⟩

theorem imp {Q : Ast → Prop} (h : Arrives marker t t' π P) (hq : ∀ u, P u → Q u) :
    Arrives marker t t' π Q := by
  obtain ⟨o, ho, hp⟩ := h
  refine ⟨o, ho, fun π' hπ' => ?_⟩
  obtain ⟨u, hu, hpu⟩ := hp π' hπ'
  exact ⟨u, hu, hq u hpu⟩

theorem at_append {o : Option Path} (hρ : t'.at? ρ = some e)
    (h : ∀ π', o = some π' → ∃ u, e.at? π' = some u ∧ P u) :
    ∀ π', o.map (ρ ++ ·) = some π' → ∃ u, t'.at? π' = some u ∧ P u := by
  intro π' hπ
  obtain ⟨π₁, ho, rfl⟩ := Option.map_eq_some_iff.1 hπ
  rw [at?_append, hρ, Option.bind_some]
  exact h π₁ ho

theorem part (hp : PartGoes marker t t' i (some ρ)) (hc : t.parts[i]? = some c)
    (hc' : t'.at? ρ = some e) (h : Arrives marker c e π P) : Arrives marker t t' (i :: π) P := by
  obtain ⟨o, ho, hu⟩ := h
  exact ⟨_, .part hp hc hc' ho, at_append hc' hu⟩

theorem lost (hp : PartGoes marker t t' i none) : Arrives marker t t' (i :: π) P :=
  ⟨none, .lost hp, by rintro _ ⟨⟩⟩

theorem bare (h : Arrives marker t t' π P) : Arrives marker t (madeParam t') π P := by
  obtain ⟨o, ho, hu⟩ := h
  exact ⟨_, .bare ho, at_append rfl hu⟩

theorem paren (h : Arrives marker t t' π P) :
    Arrives marker (.node .paren s [t]) t' (0 :: π) P := by
  obtain ⟨o, ho, hu⟩ := h
  exact ⟨o, .paren ho, hu⟩

theorem returned (h : Arrives marker t t' π P) :
    Arrives marker t (.node .block s [.node .returnStmt s [t']]) π P := by
  obtain ⟨o, ho, hu⟩ := h
  exact ⟨_, .returned ho, at_append rfl hu⟩

theorem handed {a g : Bool} {b : String} {self : Option String} {m : Metadata}
    (h : Arrives marker t t' π P) :
    Arrives marker t (delegate (wrap (madeFunction a g ps t') b self m) cache) π P := by
  obtain ⟨o, ho, hu⟩ := h
  refine ⟨_, .handed ho, at_append ?_ hu⟩
  cases cache <;> rfl

end Arrives

/-! ### Stages that arrive -/

/-- The piece is a node of its own or the body of a function. -/
def Piece.isSite (x : Piece) : Bool :=
  isElement { x with isBody := false }

/-- What a piece became; the body of a function may have lost its marker. -/
def Stage.Leaves (job : Job) (τ : Stage) (u : Ast) : Prop :=
  u = (τ.outcome job).result ∨
    τ.isBody = true ∧ u = stripDirective job.config.marker (τ.outcome job).result

/-- The pieces of a piece arrive in a tree. -/
def Carries (job : Job) (σ : Stage) (t' : Ast) : Prop :=
  ∀ π τ, σ.at? job π = some τ → τ.isSite = true →
    Arrives job.config.marker σ.tree t' π (τ.Leaves job)

/-- The pieces inside a piece arrive in a tree. -/
def CarriesInside (job : Job) (σ : Stage) (t' : Ast) : Prop :=
  ∀ i υ π τ, σ.part? job i = some υ → υ.at? job π = some τ → τ.isSite = true →
    Arrives job.config.marker σ.tree t' (i :: π) (τ.Leaves job)

/-- The pieces of what is smaller arrive in what it became. -/
def CarriesBelow (job : Job) (n : Nat) : Prop :=
  ∀ σ : Stage, sizeOf σ.tree < n → Carries job σ (σ.outcome job).result

section Carries

variable {job : Job} {σ τ υ : Stage} {t' c' : Ast} {i m : Nat} {near : Bool} {body : Nat → Bool}
  {n : UsedNames} {ws : Nat → Slot} {ts ss : List Ast}

theorem CarriesInside.carries (h : CarriesInside job σ t') (hσ : σ.isSite = true → σ.Leaves job t') :
    Carries job σ t' := by
  intro π τ hτ hs
  cases π with
  | nil =>
    cases hτ
    exact .here (hσ hs)
  | cons i π =>
    obtain ⟨υ, hυ, hτ⟩ := Option.bind_eq_some_iff.1 hτ
    exact h i υ π τ hυ hτ hs

theorem Carries.inside (h : Carries job σ t') : CarriesInside job σ t' :=
  fun i υ π τ hυ hτ hs => h (i :: π) τ (by rw [Stage.at?, hυ]; exact hτ) hs

/-! ### Parts -/

theorem sizeOf_lt_of_part {c : Ast} (h : t.parts[i]? = some c) : sizeOf c < sizeOf t := by
  have hmem := List.sizeOf_lt_of_mem (List.mem_of_getElem? h)
  cases t with
  | absent => cases h
  | list ts =>
    simp only [Ast.parts] at hmem
    simp
    omega
  | node k s cs =>
    simp only [Ast.parts] at hmem
    simp
    omega

theorem Stage.part?_tree (h : σ.part? job i = some τ) : σ.tree.parts[i]? = some τ.tree :=
  (stageIn_eq h).1

theorem Stage.part?_sizeOf (h : σ.part? job i = some τ) : sizeOf τ.tree < sizeOf σ.tree :=
  sizeOf_lt_of_part (part?_tree h)

theorem proceedAll_length : (proceedAll job near n ws ts).result.length = ts.length := by
  induction ts generalizing n ws with
  | nil => rfl
  | cons t ts ih => rw [proceedAll, List.length_cons, List.length_cons, ih]

theorem proceedAll_getElem? (h : stageIn job (fun _ => near) body n ws ts i = some τ) :
    (proceedAll job near n ws ts).result[i]? = some (τ.outcome job).result := by
  induction ts generalizing body n ws i with
  | nil => cases h
  | cons t ts ih =>
    cases i with
    | zero =>
      cases h
      rfl
    | succ i => exact ih h

theorem Stage.parts_getElem? (ht : σ.tree = .node k s cs)
    (hl : holdsStatements (.node k s cs) = false) (h : σ.part? job i = some τ) :
    (σ.parts job).result[i]? = some (τ.outcome job).result := by
  rw [Stage.part?, ht, Stage.partNear_node _ hl] at h
  rw [Stage.parts, ht]
  exact proceedAll_getElem? h

/-- The pieces of a node arrive in the same node if those of its parts do. -/
theorem carriesInside_node (ht : σ.tree = .node k s cs)
    (hl : holdsStatements (.node k s cs) = false)
    (h : ∀ i τ, σ.part? job i = some τ → ∃ c', cs'[i]? = some c' ∧ Carries job τ c') :
    CarriesInside job σ (.node k s cs') := by
  intro i υ π τ hυ hτ hs
  obtain ⟨c', hc', hcarries⟩ := h i υ hυ
  have hpart := Stage.part?_tree hυ
  rw [ht] at hpart ⊢
  refine .part (.child hl) hpart ?_ (hcarries π τ hτ hs)
  simp [Ast.at?, Ast.parts, hc']

/-- The pieces of a node arrive in the node with another part, if those of the part do. -/
theorem carriesInside_set {j : Nat} {e : Ast} (ih : CarriesBelow job m) (hσ : sizeOf σ.tree ≤ m)
    (ht : σ.tree = .node k s cs) (hl : holdsStatements (.node k s cs) = false)
    (hparts : ∀ i τ, σ.part? job i = some τ → cs'[i]? = some (τ.outcome job).result)
    (he : ∀ υ, σ.part? job j = some υ → cs'[j]? = some (υ.outcome job).result →
      υ.isBody = isBodyOf (.node k s cs) j → sizeOf υ.tree < m → Carries job υ e) :
    CarriesInside job σ (.node k s (cs'.set j e)) := by
  refine carriesInside_node ht hl fun i υ hυ => ?_
  have hsmaller := Stage.part?_sizeOf hυ
  have hυ' := hparts i υ hυ
  by_cases hij : j = i
  · subst hij
    refine ⟨e, ?_, he υ hυ hυ' (ht ▸ (stageIn_eq hυ).2.2.1) (by omega)⟩
    rw [List.getElem?_set_self (List.getElem?_eq_some_iff.1 hυ').1]
  · exact ⟨_, (List.getElem?_set_ne hij).trans hυ', ih υ (by omega)⟩

theorem carriesInside_list (ht : σ.tree = .list ts) (ih : CarriesBelow job (sizeOf σ.tree)) :
    CarriesInside job σ (σ.outcome job).result := by
  intro i υ π τ hυ hτ hs
  have hcarries := ih υ (Stage.part?_sizeOf hυ) π τ hτ hs
  have hpart := Stage.part?_tree hυ
  rw [Stage.part?, ht, Stage.partNear_list] at hυ
  rw [Stage.outcome_list ht]
  rw [ht] at hpart ⊢
  refine .part .item hpart ?_ hcarries
  simp only [Ast.at?, Ast.parts, Option.bind_fun_some]
  exact proceedAll_getElem? hυ

/-! ### Statements -/

theorem Becomes.succeeds {t' : Ast} (h : Becomes job w t t' tr) :
    Succeeds t t' := by
  cases h with
  | absent => exact .inl rfl
  | list _ => exact .inl rfl
  | @node _ k s cs cs' _ _ _ _ cache _ _ htreat _ =>
    rcases treat_cases htreat with rfl | ⟨f, p, cache', hf, hp, rfl⟩
    · exact .inl rfl
    · generalize hu : Ast.node k s cs' = u at hf
      cases FormOf.of_form? hf with
      | expression => cases hu; exact .inr ⟨rfl, _, _, .inl rfl⟩
      | arrow => cases hu; exact .inr ⟨rfl, _, _, .inr (.inl ⟨_, rfl⟩)⟩
      | method => cases hu; exact .inr ⟨rfl, _, _, .inr (.inr rfl)⟩
      | privateMethod => cases hp
      | constructor => cases hp
      | declaration | getter | setter | classMethod | classAccessor | namedDefault
        | namelessDefault => cases hu; exact .inl rfl
  | statements _ _ => exact .inl rfl
  | switchCase _ _ _ => exact .inl rfl

theorem StatementGoes.after_made {ts us : List Ast} {j : Nat} (hm : ∀ u ∈ us, u.span.isMade = true)
    (h : StatementGoes ts ts' i j) :
    StatementGoes ts (us ++ ts') i (us.length + j) := by
  induction us with
  | nil => simpa using h
  | cons u us ih =>
    rw [List.cons_append, List.length_cons, Nat.add_right_comm]
    exact .made (hm u List.mem_cons_self) (ih fun v hv => hm v (List.mem_cons_of_mem u hv))

theorem isMade_cacheDecls (caches : List String) :
    ∀ t ∈ caches.map cacheDecl, t.span.isMade = true := by
  simp only [List.mem_map]
  rintro _ ⟨name, -, rfl⟩
  rfl

/-- The statements that are attached to functions were made. -/
theorem Becomes.isMade_stmts {t' : Ast} (h : Becomes job w t t' tr) :
    ∀ u ∈ tr.stmts, u.span.isMade = true := by
  obtain ⟨ms, hms⟩ := h.stmts_eq
  rw [hms]
  simp only [List.mem_flatMap]
  rintro u ⟨x, -, hu⟩
  simp only [metadataStmts, List.mem_cons, List.not_mem_nil, or_false] at hu
  rcases hu with rfl | rfl | rfl | rfl <;> rfl

/-- What is put around a statement stands around the place where it goes. -/
theorem proceedStmts_split
    (h : stageIn job (fun _ => true) body n (fun _ => .statement) ss i = some τ) :
    ∃ before after, (proceedStmts job n ss).result =
        before ++ (τ.outcome job).trace.caches.map cacheDecl ++
          (τ.outcome job).result :: (τ.outcome job).trace.stmts ++ after ∧
      StatementGoes ss (proceedStmts job n ss).result i
        (before.length + (τ.outcome job).trace.caches.length) := by
  induction ss generalizing body n i with
  | nil => cases h
  | cons t ts ih =>
    have hfirst : Becomes job .statement t _ _ := (proceed_proceeds true n .statement t).becomes
    generalize hout : proceed job true n .statement t = first at hfirst
    have hcaches := isMade_cacheDecls first.trace.caches
    rw [proceedStmts, hout]
    cases i with
    | zero =>
      cases h
      refine ⟨[], _, by rw [Stage.outcome, hout]; rfl, ?_⟩
      rw [Stage.outcome, hout]
      simpa using StatementGoes.after_made hcaches (.here hfirst.succeeds)
    | succ i =>
      rw [stageIn, hout] at h
      obtain ⟨before, after, hresult, hgoes⟩ := ih h
      refine ⟨first.trace.caches.map cacheDecl ++ first.result :: first.trace.stmts ++ before, after,
        by simp [hresult], ?_⟩
      have hafter := StatementGoes.next hfirst.succeeds (hgoes.after_made hfirst.isMade_stmts)
      have hgoes := StatementGoes.after_made hcaches hafter
      simp only [List.length_map, ← List.append_assoc, ← List.cons_append] at hgoes
      convert hgoes using 1
      simp only [List.length_append, List.length_map, List.length_cons]
      omega

/-- Converting neither adds nor removes strings at the head of a list of statements. -/
theorem proceedStmts_takeWhile {P : Ast → Bool} (hP : ∀ t, P t = true → isStringStatement t = true) :
    (proceedStmts job n ss).result.takeWhile P = ss.takeWhile P := by
  induction ss generalizing n with
  | nil => rfl
  | cons t ts ih =>
    have hfirst : Becomes job .statement t _ _ := (proceed_proceeds true n .statement t).becomes
    rw [proceedStmts]
    generalize hout : proceed job true n .statement t = first at hfirst
    cases ht : P t with
    | true =>
      obtain ⟨hresult, htrace⟩ := hfirst.of_isStringStatement (hP t ht)
      simp [htrace, hresult, ht, ih]
    | false =>
      have ht' : P first.result = false := (hfirst.passes_eq hP).trans ht
      cases hcaches : first.trace.caches with
      | nil => simp [ht, ht']
      | cons name names =>
        have hdecl : P (cacheDecl name) = false := by
          by_contra hne
          cases hP _ (by simpa using hne)
        simp [ht, hdecl]

theorem markersOf_statements (hk : isStatementList k = true) (marker : String) :
    markersOf marker (.node k s (proceedStmts job n ss).result) = markersOf marker (.node k s ss) := by
  cases k with
  | block => exact congrArg List.length (proceedStmts_takeWhile fun _ => isStringStatement_of_isDirective)
  | moduleBlock | module => rfl
  | _ => cases hk

/-- What is put around a statement of a list stands around the place where it goes. -/
theorem Stage.result_split (hτ : σ.part? job i = some τ) (henters : entersList σ.tree i = true) :
    ∃ before after, (σ.outcome job).result.parts =
        before ++ (τ.outcome job).trace.caches.map cacheDecl ++
          (τ.outcome job).result :: (τ.outcome job).trace.stmts ++ after ∧
      PartGoes job.config.marker σ.tree (σ.outcome job).result i
        (some [before.length + (τ.outcome job).trace.caches.length]) := by
  rw [part?] at hτ
  cases ht : σ.tree with
  | absent | list => simp [ht, entersList] at henters
  | node k s cs =>
    rw [ht] at henters
    rcases node_cases k s cs with ⟨test, ss, rfl, rfl⟩ | hk | hl
    · obtain ⟨hnear, hnears, hslot, hslots⟩ :=
        parts_switchCase σ.near job.config.hooks σ.slot s test ss
      cases i with
      | zero => cases henters
      | succ i =>
        rw [ht, Ast.parts, stageIn, hnear, hnears, hslot, hslots] at hτ
        obtain ⟨before, after, hresult, hgoes⟩ := proceedStmts_split hτ
        rw [outcome_switchCase ht]
        refine ⟨_ :: before, after, congrArg (_ :: ·) hresult, ?_⟩
        rw [List.length_cons, Nat.add_right_comm]
        exact .caseStatement hgoes
    · obtain ⟨hnear, hslot, -⟩ := parts_statements hk σ.near job.config.hooks σ.slot s cs
      rw [ht, hnear, hslot] at hτ
      obtain ⟨before, after, hresult, hgoes⟩ := proceedStmts_split hτ
      rw [outcome_statements ht hk]
      exact ⟨before, after, hresult, .statement hk (markersOf_statements hk _) hgoes⟩
    · rw [entersList_node hl] at henters
      cases henters

/-! ### Bodies -/

theorem stripDirective_eq_self {marker : String} (h : hasDirective marker t = false) :
    stripDirective marker t = t := by
  unfold stripDirective
  split
  · rename_i s first rest
    have hfirst : isDirective marker first = false := by simpa [hasDirective, Ast.stmts] using h
    simp [hfirst]
  · rfl

/-- A body that begins with the marker is a block, and its marker stays as it is. -/
theorem Stage.outcome_marked (h : hasDirective job.config.marker (υ.outcome job).result = true) :
    ∃ s m ss n₁, υ.tree = .node .block s (m :: ss) ∧ isDirective job.config.marker m = true ∧
      (υ.outcome job).result = .node .block s (m :: (proceedStmts job n₁ ss).result) ∧
      ∀ i, υ.part? job (i + 1) =
        stageIn job (fun _ => true) (fun _ => false) n₁ (fun _ => .statement) ss i := by
  have hbecomes := υ.becomes job
  rw [hbecomes.hasDirective_eq] at h
  unfold hasDirective Ast.stmts at h
  split at h
  · rename_i s ss ht
    cases ss with
    | nil => cases h
    | cons m ss =>
      have hm : Becomes job .statement m _ _ := (proceed_proceeds true υ.names .statement m).becomes
      obtain ⟨hresult, htrace⟩ := hm.of_isDirective h
      refine ⟨s, m, ss, (proceed job true υ.names .statement m).names, ht, h, ?_, fun i => ?_⟩
      · rw [outcome_statements ht rfl, proceedStmts, htrace, hresult]
        rfl
      · rw [part?, ht]
        rfl
  · cases h

/-- A list of statements without its marker has fewer markers. -/
theorem markersOf_lt {d : Ast} (hd : isDirective job.config.marker d = true) :
    markersOf job.config.marker (.node .block s (proceedStmts job n ss).result) <
      markersOf job.config.marker (.node .block s (d :: ss)) := by
  simp [markersOf, Ast.stmts, hd, proceedStmts_takeWhile fun _ => isStringStatement_of_isDirective]

/-- A statement of a list is the marker of a function and is lost, or what is put around it stands
around the place where it goes. -/
theorem Stage.leaves_split (hτ : σ.part? job i = some τ) (henters : entersList σ.tree i = true)
    (hu : σ.Leaves job u) :
    (i = 0 ∧ isDirective job.config.marker τ.tree = true ∧ (τ.outcome job).trace = {} ∧
      PartGoes job.config.marker σ.tree u i none) ∨
    ∃ before after, u.parts = before ++ (τ.outcome job).trace.caches.map cacheDecl ++
        (τ.outcome job).result :: (τ.outcome job).trace.stmts ++ after ∧
      PartGoes job.config.marker σ.tree u i
        (some [before.length + (τ.outcome job).trace.caches.length]) := by
  rcases hu with rfl | ⟨-, rfl⟩
  · exact .inr (result_split hτ henters)
  cases hmarked : hasDirective job.config.marker (σ.outcome job).result with
  | false =>
    rw [stripDirective_eq_self hmarked]
    exact .inr (result_split hτ henters)
  | true =>
    obtain ⟨s, d, ss, n₁, ht, hd, hresult, hparts⟩ := outcome_marked hmarked
    have hpart := part?_tree hτ
    rw [hresult, stripDirective, if_pos hd]
    rw [ht] at hpart ⊢
    cases i with
    | zero =>
      have htree : d = τ.tree := by simpa [Ast.parts] using hpart
      subst htree
      have hbecomes := τ.becomes job
      exact .inl ⟨rfl, hd, (hbecomes.of_isDirective hd).2, .marker (markersOf_lt hd)⟩
    | succ i =>
      rw [hparts] at hτ
      obtain ⟨before, after, hsplit, hgoes⟩ := proceedStmts_split hτ
      exact .inr ⟨before, after, hsplit, .unmarked (markersOf_lt hd) hgoes⟩

/-- The pieces of statements arrive where the statements go. -/
theorem carriesInside_statements (hl : holdsStatements σ.tree = true)
    (ih : CarriesBelow job (sizeOf σ.tree)) (hu : σ.Leaves job u) : CarriesInside job σ u := by
  intro i υ π τ hυ hτ hs
  have hcarries := ih υ (Stage.part?_sizeOf hυ) π τ hτ hs
  have hpart := Stage.part?_tree hυ
  cases henters : entersList σ.tree i with
  | true =>
    rcases Stage.leaves_split hυ henters hu with ⟨-, -, -, hlost⟩ | ⟨before, after, hparts, hgoes⟩
    · exact .lost hlost
    · refine .part hgoes hpart ?_ hcarries
      rw [Ast.at?, hparts, List.append_assoc, List.append_assoc,
        List.getElem?_append_right (by simp)]
      simp [Ast.at?]
  | false =>
    -- What is not entered is the test of a case.
    obtain ⟨s, test, ss, ht⟩ : ∃ s test ss, σ.tree = .node .switchCase s (test :: ss) := by
      cases ht : σ.tree with
      | absent | list => simp [ht, holdsStatements] at hl
      | node k s cs =>
        rw [ht] at henters hl
        rcases node_cases k s cs with ⟨test, ss, rfl, rfl⟩ | hk | hl'
        · exact ⟨s, test, ss, rfl⟩
        · rw [Stage.entersList_statements hk] at henters
          cases henters
        · rw [hl] at hl'
          cases hl'
    have hresult : σ.outcome job = _ := Stage.outcome_switchCase ht
    obtain rfl : u = (σ.outcome job).result := by
      rcases hu with hu | ⟨-, hu⟩
      · exact hu
      · rw [hu, hresult]
        rfl
    obtain ⟨hnear, -, hslot, -⟩ := Stage.parts_switchCase σ.near job.config.hooks σ.slot s test ss
    rw [Stage.part?, ht, Ast.parts] at hυ
    rw [ht] at hpart henters ⊢
    cases i with
    | zero =>
      rw [stageIn, hnear, hslot] at hυ
      cases hυ
      rw [hresult]
      exact .part .test hpart rfl hcarries
    | succ i => simp [entersList] at henters

/-- The pieces of a body arrive in the body without its marker. -/
theorem carries_stripped (ih : CarriesBelow job m) (hυ : sizeOf υ.tree < m) (hbody : υ.isBody = true) :
    Carries job υ (stripDirective job.config.marker (υ.outcome job).result) := by
  refine CarriesInside.carries ?_ fun _ => .inr ⟨hbody, rfl⟩
  cases hmarked : hasDirective job.config.marker (υ.outcome job).result with
  | false =>
    rw [stripDirective_eq_self hmarked]
    exact (ih υ hυ).inside
  | true =>
    obtain ⟨s, d, ss, -, ht, -⟩ := Stage.outcome_marked hmarked
    exact carriesInside_statements (by rw [ht]; rfl) (fun σ hσ => ih σ (by omega))
      (.inr ⟨hbody, rfl⟩)

/-! ### Nodes that stay -/

/-- A node stays with its parts converted, or gives way to what its form says. -/
theorem Stage.result_cases (ht : σ.tree = .node k s cs)
    (hl : holdsStatements (.node k s cs) = false) :
    (σ.outcome job).result = .node k s (σ.parts job).result ∨
      ∃ f p cache, FormOf σ.slot (.node k s (σ.parts job).result) f ∧
        f.subject.prepare job = .ok p ∧ (σ.outcome job).result = f.turned p cache := by
  have hhalfway : σ.halfway job = .node k s (σ.parts job).result := by rw [halfway, ht]
  rw [outcome_node ht hl, ← hhalfway]
  generalize hout : treat job σ.slot (σ.halfway job) (σ.cache? job) = out
  rcases treat_cases (hout.trans (Prod.eta out).symm) with hstays | ⟨f, p, cache, hf, hp, hturned⟩
  · exact .inl hstays
  · exact .inr ⟨f, p, cache, FormOf.of_form? hf, hp, hturned⟩

/-- A node that no function gives way to comes from the same node. -/
theorem Stage.of_result (h : (σ.outcome job).result = .node k s cs') (hk : isTurned k = false)
    (hl : ∀ cs, holdsStatements (.node k s cs) = false) :
    ∃ cs, σ.tree = .node k s cs ∧ cs.length = cs'.length ∧
      ∀ i τ, σ.part? job i = some τ → cs'[i]? = some (τ.outcome job).result := by
  have hbecomes := σ.becomes job
  rw [h] at hbecomes
  obtain ⟨cs, -, -, -, ht, -, -, -⟩ := hbecomes.of_node hk (hl cs')
  have hcs' : (σ.parts job).result = cs' := by
    rcases Stage.result_cases ht (hl cs) with hstays | ⟨f, p, cache, hf, hp, hturned⟩
    · rw [h] at hstays
      cases hstays
      rfl
    · obtain ⟨k', s', cs'', hturned', hk'⟩ := hf.isTurned hp cache
      rw [hturned, hturned'] at h
      cases h
      rw [hk] at hk'
      cases hk'
  refine ⟨cs, ht, ?_, fun i τ hτ => hcs' ▸ parts_getElem? ht (hl cs) hτ⟩
  rw [← hcs', parts, ht]
  exact proceedAll_length.symm

theorem Stage.of_list (h : (σ.outcome job).result = .list ts') :
    ∃ ts, σ.tree = .list ts ∧
      ∀ i τ, σ.part? job i = some τ → ts'[i]? = some (τ.outcome job).result := by
  have hbecomes := σ.becomes job
  obtain ⟨ts, _, ht, -, -⟩ | ⟨-, hne⟩ := hbecomes.list_or
  · refine ⟨ts, ht, fun i τ hτ => ?_⟩
    rw [outcome_list ht] at h
    rw [part?, ht, partNear_list] at hτ
    cases h
    exact proceedAll_getElem? hτ
  · exact absurd h (hne _)

/-- The pieces of an expression arrive in the expression without its parentheses. -/
theorem carries_unparen (ih : CarriesBelow job m) (hσ : sizeOf σ.tree < m) :
    Carries job σ (σ.outcome job).result.unparen := by
  induction hsize : sizeOf σ.tree using Nat.strongRecOn generalizing σ with
  | ind size ihσ =>
  by_cases hparen : ∃ s e, (σ.outcome job).result = .node .paren s [e]
  · obtain ⟨s, e, hresult⟩ := hparen
    obtain ⟨cs, ht, hlength, hparts⟩ := Stage.of_result hresult rfl fun _ => rfl
    obtain ⟨e₀, rfl⟩ := List.length_eq_one_iff.1 hlength
    refine CarriesInside.carries (fun i υ π τ hυ hτ hs => ?_) fun hs => ?_
    · have hpart := Stage.part?_tree hυ
      have hsmaller := Stage.part?_sizeOf hυ
      have hυ' := hparts i υ hυ
      rw [ht] at hpart ⊢
      match i with
      | 0 =>
        cases hpart
        have he : (υ.outcome job).result = e := by simpa using hυ'.symm
        rw [hresult, Ast.unparen, ← he]
        exact .paren (ihσ _ (by omega) (by omega) rfl π τ hτ hs)
      | _ + 1 => cases hpart
    · simp [Piece.isSite, Piece.isElement, ht] at hs
  · rw [unparen_eq_self fun s e h => hparen ⟨s, e, h⟩]
    exact ih σ hσ

/-! ### Functions -/

variable {kind : FunctionKind} {name : Option String} {cand : Candidate} {p : Prepared}

theorem paramPatterns?_getElem? {qs : List Ast} {q : Ast} (h : paramPatterns? ps = some qs)
    (hi : ps[i]? = some q) : ∃ s d e, q = .node .param s [d, e] ∧ qs[i]? = some e := by
  induction ps generalizing qs i with
  | nil => cases hi
  | cons t ts ih =>
    obtain ⟨s, d, e, qs, rfl, hqs, rfl⟩ := paramPatterns?_cons h
    cases i with
    | zero =>
      cases hi
      exact ⟨s, d, e, rfl, rfl⟩
    | succ i =>
      obtain ⟨s, d, e, rfl, he⟩ := ih hqs hi
      exact ⟨s, d, e, rfl, he⟩

/-- The pieces of parameters arrive in those of the wrapper, apart from decorators. -/
theorem carries_params {ps' qs : List Ast} (ih : CarriesBelow job m) (hσ : sizeOf σ.tree ≤ m)
    (hresult : (σ.outcome job).result = .list ps') (hqs : paramPatterns? ps' = some qs) :
    Carries job σ (.list (qs.map madeParam)) := by
  obtain ⟨ts, ht, hparts⟩ := Stage.of_list hresult
  refine CarriesInside.carries (fun i υ π τ hυ hτ hs => ?_) fun hs => ?_
  · have hpart := Stage.part?_tree hυ
    have hsmaller := Stage.part?_sizeOf hυ
    obtain ⟨s, d', q', hυ', hq'⟩ := paramPatterns?_getElem? hqs (hparts i υ hυ)
    obtain ⟨cs, hparam, hlength, hparts'⟩ := Stage.of_result hυ' rfl fun _ => rfl
    obtain ⟨d, q, rfl⟩ := List.length_eq_two.1 hlength
    rw [ht] at hpart ⊢
    refine .part .item hpart (e := madeParam q') (by simp [Ast.at?, Ast.parts, hq']) ?_
    cases π with
    | nil =>
      cases hτ
      simp [Piece.isSite, Piece.isElement, hparam] at hs
    | cons j π =>
      obtain ⟨μ, hμ, hμτ⟩ := Option.bind_eq_some_iff.1 hτ
      have hpart' := Stage.part?_tree hμ
      have hsmaller' := Stage.part?_sizeOf hμ
      have hμ' := hparts' j μ hμ
      rw [hparam] at hpart' ⊢
      rcases j with _ | _ | j
      · exact .lost .paramDecorators
      · have hq : (μ.outcome job).result = q' := by simpa using hμ'.symm
        exact .part .pattern hpart' rfl (hq ▸ ih μ (by omega) π τ hμτ hs)
      · cases hpart'
  · simp [Piece.isSite, Piece.isElement, ht] at hs

/-- A function that makes a candidate, and what became of its parts. -/
theorem Stage.of_function (h : Candidate.ofFunction kind name (σ.outcome job).result = some cand) :
    ∃ a g s cs ps d b rest qs, σ.tree = .node (.function a g) s cs ∧
      (σ.outcome job).result = .node (.function a g) s (.list ps :: d :: b :: rest) ∧
      (∀ i τ, σ.part? job i = some τ →
        (.list ps :: d :: b :: rest : List Ast)[i]? = some (τ.outcome job).result) ∧
      paramPatterns? ps = some qs ∧ cand = ⟨kind, name, qs, b, s, a, g⟩ := by
  obtain ⟨a, g, s, ps, d, b, rest, qs, hresult, -, hqs, rfl⟩ := Candidate.ofFunction_eq_some h
  obtain ⟨cs, ht, -, hparts⟩ := Stage.of_result hresult rfl fun _ => rfl
  exact ⟨a, g, s, cs, ps, d, b, rest, qs, ht, hresult, hparts, hqs, rfl⟩

/-- The pieces of a function arrive in the function of its wrapper. -/
theorem carries_lifted (ih : CarriesBelow job m) (hσ : sizeOf σ.tree ≤ m)
    (hc : Candidate.ofFunction kind name (σ.outcome job).result = some cand)
    (hp : job.prepare cand = .ok p) : Carries job σ p.candidate.toFunction := by
  obtain ⟨a, g, s, cs, ps, d, b, rest, qs, ht, -, hparts, hqs, rfl⟩ := Stage.of_function hc
  rw [(Job.prepare_eq_ok hp).1]
  refine CarriesInside.carries (fun i υ π τ hυ hτ hs => ?_) fun hs => ?_
  · have hpart := Stage.part?_tree hυ
    have hsmaller := Stage.part?_sizeOf hυ
    have hυ' := hparts i υ hυ
    have hbody : υ.isBody = isBodyOf σ.tree i := (stageIn_eq hυ).2.2.1
    rw [ht] at hpart hbody ⊢
    match i with
    | 0 =>
      have hlist : (υ.outcome job).result = .list ps := by simpa using hυ'.symm
      exact .part .params hpart rfl (carries_params ih (by omega) hlist hqs π τ hτ hs)
    | 1 => exact .lost .decorators
    | 2 =>
      have hb : (υ.outcome job).result = b := by simpa using hυ'.symm
      exact .part .body hpart rfl (hb ▸ carries_stripped ih (by omega) hbody π τ hτ hs)
    | _ + 3 => exact .lost .types
  · simp [Piece.isSite, Piece.isElement, ht] at hs

/-- The pieces of a function arrive in the function with another body, if those of its body do. -/
theorem carries_shell {shell : Ast} (ih : CarriesBelow job m) (hσ : sizeOf σ.tree ≤ m)
    (hc : Candidate.ofFunction kind name (σ.outcome job).result = some cand)
    (hshell : ∀ υ, sizeOf υ.tree < m → υ.isBody = true → (υ.outcome job).result = cand.body →
      Carries job υ shell) :
    Carries job σ (withBody shell (σ.outcome job).result) := by
  obtain ⟨a, g, s, cs, ps, d, b, rest, qs, ht, hresult, hparts, -, rfl⟩ := Stage.of_function hc
  rw [hresult]
  refine CarriesInside.carries ?_ fun hs => ?_
  · exact carriesInside_set (j := 2) ih hσ ht rfl hparts fun υ _ hυ' hbody hsmaller =>
      hshell υ hsmaller hbody (by simpa using hυ'.symm)
  · simp [Piece.isSite, Piece.isElement, ht] at hs

/-- The pieces of a node with a function arrive in the node whose function has another body. -/
theorem carriesInside_shell {x' f' shell : Ast} (ih : CarriesBelow job m) (hσ : sizeOf σ.tree ≤ m)
    (ht : σ.tree = .node k s cs) (hl : holdsStatements (.node k s cs) = false)
    (hparts : ∀ i τ, σ.part? job i = some τ → [x', f'][i]? = some (τ.outcome job).result)
    (hc : Candidate.ofFunction kind name f' = some cand)
    (hshell : ∀ υ, sizeOf υ.tree < m → υ.isBody = true → (υ.outcome job).result = cand.body →
      Carries job υ shell) :
    CarriesInside job σ (.node k s [x', withBody shell f']) := by
  refine carriesInside_set (j := 1) ih hσ ht hl hparts fun υ _ hυ' _ hsmaller => ?_
  obtain rfl : f' = (υ.outcome job).result := by simpa using hυ'
  exact carries_shell ih (by omega) hc hshell

/-- The pieces of the body of a function arrive in the body without its marker. -/
theorem carries_unmarked (ih : CarriesBelow job m) (hυ : sizeOf υ.tree < m) (hbody : υ.isBody = true)
    (hp : job.prepare cand = .ok p) (hresult : (υ.outcome job).result = cand.body) :
    Carries job υ p.candidate.body := by
  have hstripped := carries_stripped ih hυ hbody
  rwa [show stripDirective _ _ = p.candidate.body by
    rw [(Job.prepare_eq_ok hp).1, hresult]; rfl] at hstripped

/-- The pieces of a body arrive in the body of the function to which an accessor hands over. -/
theorem carries_delegated (ih : CarriesBelow job m) (hυ : sizeOf υ.tree < m)
    (hbody : υ.isBody = true) (hp : job.prepare cand = .ok p)
    (hresult : (υ.outcome job).result = cand.body) : Carries job υ (delegate p.wrapper cache) :=
  fun π τ hτ hs => .handed (carries_unmarked ih hυ hbody hp hresult π τ hτ hs)

/-! ### Forms -/

/-- The pieces of a function expression arrive in its wrapper, apart from its name. -/
theorem carriesInside_wrapper {name' f' : Ast} (ih : CarriesBelow job m) (hσ : sizeOf σ.tree ≤ m)
    (ht : σ.tree = .node .funcExpr s cs) (hlength : cs.length = 2)
    (hparts : ∀ i τ, σ.part? job i = some τ → [name', f'][i]? = some (τ.outcome job).result)
    (hc : Candidate.ofFunction kind name f' = some cand) (hp : job.prepare cand = .ok p) :
    CarriesInside job σ p.wrapper := by
  obtain ⟨name₀, f, rfl⟩ := List.length_eq_two.1 hlength
  intro i υ π τ hυ hτ hs
  have hpart := Stage.part?_tree hυ
  have hsmaller := Stage.part?_sizeOf hυ
  have hυ' := hparts i υ hυ
  rw [ht] at hpart ⊢
  match i with
  | 0 => exact .lost .name
  | 1 =>
    have hf : f' = (υ.outcome job).result := by simpa using hυ'
    rw [hf] at hc
    exact .part .expression hpart rfl (carries_lifted ih (by omega) hc hp π τ hτ hs)
  | _ + 2 => cases hpart

/-- The pieces of a method arrive in the property that takes its place. -/
theorem carriesInside_property {k' : Kind} {s' : Span} {rest : List Ast} {key' f' : Ast}
    (ih : CarriesBelow job (sizeOf σ.tree)) (ht : σ.tree = .node k s cs) (hlength : cs.length = 2)
    (hparts : ∀ i τ, σ.part? job i = some τ → [key', f'][i]? = some (τ.outcome job).result)
    (hkk : becomesProperty k k' = true) (hc : Candidate.ofFunction kind name f' = some cand)
    (hp : job.prepare cand = .ok p) :
    CarriesInside job σ (.node k' s' (key' :: p.wrapper :: rest)) := by
  obtain ⟨key, f, rfl⟩ := List.length_eq_two.1 hlength
  intro i υ π τ hυ hτ hs
  have hpart := Stage.part?_tree hυ
  have hsmaller := Stage.part?_sizeOf hυ
  have hυ' := hparts i υ hυ
  rw [ht] at hpart ⊢
  match i with
  | 0 =>
    have hkey : (υ.outcome job).result = key' := by simpa using hυ'.symm
    exact .part (.key hkk) hpart rfl (hkey ▸ ih υ hsmaller π τ hτ hs)
  | 1 =>
    have hf : f' = (υ.outcome job).result := by simpa using hυ'
    rw [hf] at hc
    exact .part (.method hkk) hpart rfl (carries_lifted ih (by omega) hc hp π τ hτ hs)
  | _ + 2 => cases hpart

/-- The pieces of an arrow arrive in its wrapper, apart from its types. -/
theorem carriesInside_arrow {a : Bool} (ih : CarriesBelow job (sizeOf σ.tree))
    (ht : σ.tree = .node (.arrow a) s cs) (hlength : cs.length = cs'.length)
    (hparts : ∀ i τ, σ.part? job i = some τ → cs'[i]? = some (τ.outcome job).result)
    (hc : Candidate.ofArrow (.node (.arrow a) s cs') = some cand) (hp : job.prepare cand = .ok p) :
    CarriesInside job σ p.wrapper := by
  unfold Candidate.ofArrow at hc
  split at hc
  · rename_i heq
    cases heq
    cases hc
    rename_i ps' b' rest'
    obtain ⟨ps, b, rest, rfl⟩ : ∃ ps b rest, cs = ps :: b :: rest := by
      match cs, hlength with
      | ps :: b :: rest, _ => exact ⟨ps, b, rest, rfl⟩
    have hcand := (Job.prepare_eq_ok hp).1
    have hfunction : p.wrapper.at? wrappedPath = some p.candidate.toFunction := rfl
    intro i υ π τ hυ hτ hs
    have hpart := Stage.part?_tree hυ
    have hsmaller := Stage.part?_sizeOf hυ
    have hυ' := hparts i υ hυ
    have hbody : υ.isBody = isBodyOf σ.tree i := (stageIn_eq hυ).2.2.1
    rw [ht] at hpart hbody ⊢
    match i with
    | 0 =>
      have hparams : p.wrapper.at? (wrappedPath ++ [0]) = some (.list (ps'.map madeParam)) := by
        rw [at?_append, hfunction, hcand]
        rfl
      refine .part .arrow hpart hparams ?_
      obtain ⟨qs, hlist, hparts'⟩ := Stage.of_list (by simpa using hυ'.symm)
      refine CarriesInside.carries (fun j μ π τ hμ hτ hs => ?_) (fun hs => ?_) π τ hτ hs
      · have hpart' := Stage.part?_tree hμ
        have hsmaller' := Stage.part?_sizeOf hμ
        have hμ' := hparts' j μ hμ
        rw [hlist] at hpart' ⊢
        refine .part .item hpart' (e := madeParam (μ.outcome job).result) ?_ (.bare ?_)
        · simp [Ast.at?, Ast.parts, hμ']
        · exact ih μ (by omega) π τ hτ hs
      · simp [Piece.isSite, Piece.isElement, hlist] at hs
    | 1 =>
      have hb : (υ.outcome job).result = b' := by simpa using hυ'.symm
      have hlifted : p.wrapper.at? (wrappedPath ++ [2]) =
          some (stripDirective job.config.marker (Candidate.arrowBody b')) := by
        rw [at?_append, hfunction, hcand]
        rfl
      refine .part .arrowBody hpart hlifted ?_
      by_cases hblock : ∃ sb ss, b' = .node .block sb ss
      · obtain ⟨sb, ss, rfl⟩ := hblock
        have hstripped := carries_stripped ih hsmaller hbody
        rw [hb] at hstripped
        exact hstripped π τ hτ hs
      · have hreturn : stripDirective job.config.marker (Candidate.arrowBody b') =
            .node .block b'.span [.node .returnStmt b'.span [b'.unparen]] := by
          unfold Candidate.arrowBody
          split
          · exact absurd ⟨_, _, rfl⟩ hblock
          · rfl
        rw [hreturn]
        exact .returned (hb ▸ carries_unparen ih hsmaller π τ hτ hs)
    | _ + 2 => exact .lost .arrowTypes
  · cases hc

/-- The function of a default export is no piece of its own. -/
theorem isSite_exported {fs : Span} (ht : σ.tree = .node .exportDefaultDecl s [υ.tree])
    (hυ : σ.part? job i = some υ) (hf : υ.tree = .node .funcExpr fs cs) : υ.isSite = false := by
  have hslot := (stageIn_eq hυ).2.1
  rw [ht, hf] at hslot
  simp [Piece.isSite, Piece.isElement, hslot, HookRegistry.partSlot, HookRegistry.childSlot]

/-- The pieces of a function arrive in what its form says. -/
theorem carriesInside_turned {form : Form} (ih : CarriesBelow job (sizeOf σ.tree))
    (ht : σ.tree = .node k s cs) (hlength : cs.length = cs'.length)
    (hparts : ∀ i τ, σ.part? job i = some τ → cs'[i]? = some (τ.outcome job).result)
    (hform : FormOf σ.slot (.node k s cs') form) (hp : form.subject.prepare job = .ok p) :
    CarriesInside job σ (form.turned p cache) := by
  generalize hu : Ast.node k s cs' = u at hform
  generalize hw : σ.slot = w at hform
  cases hform with
  | expression _ hc =>
    cases hu
    exact carriesInside_wrapper ih (Nat.le_refl _) ht hlength hparts hc hp
  | arrow hc =>
    cases hu
    exact carriesInside_arrow ih ht hlength hparts hc hp
  | declaration _ hc =>
    cases hu
    exact carriesInside_shell ih (Nat.le_refl _) ht rfl hparts hc fun μ hμ hbody =>
      carries_unmarked ih hμ hbody hp
  | method hc =>
    cases hu
    exact carriesInside_property ih ht hlength hparts rfl hc hp
  | getter hc =>
    cases hu
    obtain ⟨_, _, _, _, ⟨⟩, -, rfl⟩ := Candidate.ofGetter_eq_some hc
    exact carriesInside_set (j := 2) ih (Nat.le_refl _) ht rfl hparts fun υ _ hυ' hbody hsmaller =>
      carries_delegated ih hsmaller hbody hp (by simpa using hυ'.symm)
  | setter hc =>
    cases hu
    obtain ⟨_, _, _, _, _, ⟨⟩, -, rfl⟩ := Candidate.ofSetter_eq_some hc
    exact carriesInside_set (j := 3) ih (Nat.le_refl _) ht rfl hparts fun υ _ hυ' hbody hsmaller =>
      carries_delegated ih hsmaller hbody hp (by simpa using hυ'.symm)
  | privateMethod _ => cases hp
  | classMethod _ hm hc =>
    cases hu
    subst hm
    exact carriesInside_property ih ht hlength hparts rfl hc hp
  | classAccessor _ _ hc =>
    cases hu
    exact carriesInside_shell ih (Nat.le_refl _) ht rfl hparts hc fun μ hμ hbody =>
      carries_delegated ih hμ hbody hp
  | constructor => cases hp
  | namedDefault _ hc =>
    cases hu
    obtain ⟨f₀, rfl⟩ := List.length_eq_one_iff.1 hlength
    refine carriesInside_set (j := 0) ih (Nat.le_refl _) ht rfl hparts fun υ hυ hυ' _ hsmaller => ?_
    have hf₀ : f₀ = υ.tree := by simpa [ht, Ast.parts] using Stage.part?_tree hυ
    obtain ⟨cs₁, ht₁, -, hparts₁⟩ :=
      Stage.of_result (by simpa using hυ'.symm) rfl fun _ => rfl
    refine CarriesInside.carries ?_ fun hs => ?_
    · exact carriesInside_shell ih (by omega) ht₁ rfl hparts₁ hc fun μ hμ hbody =>
        carries_unmarked ih hμ hbody hp
    · rw [isSite_exported (ht.trans (by rw [hf₀])) hυ ht₁] at hs
      cases hs
  | namelessDefault _ hc =>
    cases hu
    obtain ⟨f₀, rfl⟩ := List.length_eq_one_iff.1 hlength
    intro i υ π τ hυ hτ hs
    have hpart := Stage.part?_tree hυ
    have hsmaller := Stage.part?_sizeOf hυ
    have hυ' := hparts i υ hυ
    rw [ht] at hpart ⊢
    rcases i with _ | i
    · obtain ⟨cs₁, ht₁, hlength₁, hparts₁⟩ :=
        Stage.of_result (by simpa using hυ'.symm) rfl fun _ => rfl
      refine .part .exported hpart rfl ?_
      refine CarriesInside.carries ?_ (fun hs => ?_) π τ hτ hs
      · exact carriesInside_wrapper ih (by omega) ht₁ hlength₁ hparts₁ hc hp
      · have hf₀ : f₀ = υ.tree := by simpa [Ast.parts] using hpart
        rw [isSite_exported (ht.trans (by rw [hf₀])) hυ ht₁] at hs
        cases hs
    · cases hpart

/-- **All pieces of a tree arrive in what it became.** -/
theorem Stage.carries (job : Job) (σ : Stage) : Carries job σ (σ.outcome job).result := by
  induction hs : sizeOf σ.tree using Nat.strongRecOn generalizing σ with
  | ind size ihσ =>
  have ih : CarriesBelow job (sizeOf σ.tree) := fun υ hυ => ihσ _ (hs ▸ hυ) υ rfl
  refine CarriesInside.carries ?_ fun _ => .inl rfl
  cases ht : σ.tree with
  | absent =>
    intro i υ π τ hυ
    have hpart := Stage.part?_tree hυ
    rw [ht] at hpart
    cases hpart
  | list ts => exact carriesInside_list ht ih
  | node k s cs =>
    cases hl : holdsStatements (.node k s cs) with
    | true => exact carriesInside_statements (by rw [ht, hl]) ih (.inl rfl)
    | false =>
      rcases Stage.result_cases ht hl with hstays | ⟨f, p, cache, hf, hp, hturned⟩
      · rw [hstays]
        exact carriesInside_node ht hl fun i υ hυ =>
          ⟨_, Stage.parts_getElem? ht hl hυ, ih υ (Stage.part?_sizeOf hυ)⟩
      · rw [hturned]
        refine carriesInside_turned ih ht ?_ (fun i υ hυ => Stage.parts_getElem? ht hl hυ) hf hp
        rw [Stage.parts, ht]
        exact proceedAll_length.symm

end Carries

/-! ### Programs -/

/-- The module of a program when its turn comes. -/
def Stage.ofProgram (p : Program) : Stage :=
  ⟨⟨.plain, p.module, false⟩, true, UsedNames.ofTree p.module⟩

/-- What becomes of a program is what becomes of its module. -/
theorem transform_stage (config : Config) (hroot : isModule p.module = true) :
    let out := (Stage.ofProgram p).outcome (.ofProgram config p)
    (transform config p).module =
        (if config.strictMode then ensureStrict out.result else out.result) ∧
      (transform config p).conversions = convertedIn out.trace.entries := by
  obtain ⟨module, entries, n', hproceeds, hmodule, hconversions, -, -⟩ := transform_proceeds config hroot
  have houtcome : (Stage.ofProgram p).outcome (.ofProgram config p) = ⟨module, { now := entries }, n'⟩ :=
    hproceeds.eq_proceed
  rw [houtcome, hmodule, hconversions]
  simp

/-- Where a place of a module went stands what became of its piece. -/
theorem transform_arrives (config : Config) (hroot : isModule p.module = true)
    (hstrict : config.strictMode = false) {π : Path} {τ : Stage}
    (hτ : (Stage.ofProgram p).at? (.ofProgram config p) π = some τ) (hs : τ.isSite = true) :
    Arrives config.marker p.module (transform config p).module π (τ.Leaves (.ofProgram config p)) := by
  rw [(transform_stage config hroot).1, hstrict]
  exact Stage.carries _ _ π τ hτ hs

end Worklet
