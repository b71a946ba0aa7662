import Worklet.Proofs.Convert.Converts

/-!
# Converting one function

What is known of a function that was converted: it mentions only what its record captures, its own
name and what is global.

* `Candidate.facts` — the facts of a candidate's scope.

Principal results: `Job.sealed_of_prepare` and `Job.free_wrapper` — of a function that the table
understands, the conversion is sealed and the wrapper mentions what the function did.
-/

set_option autoImplicit false

namespace Worklet

open Syntax Outline Scoping

/-! ### Names that can be lost -/

mutual

/-- The names in what is attached to the functions that a tree declares outside of any list of
statements in it. -/
def looseNames : Ast → List String
  | .absent => []
  | .list ts => looseNamesAll ts
  | .node .block _ _ => []
  | .node .moduleBlock _ _ => []
  | .node (.module _) _ _ => []
  | .node .switchCase _ (test :: _) => looseNames test
  | .node (.funcDecl _) _ [name, f] =>
    name.identName?.toList ++ freeAll bare (outlineAs .refers f) ++ looseNames name ++ looseNames f
  | .node _ _ cs => looseNamesAll cs

def looseNamesAll : List Ast → List String
  | [] => []
  | t :: ts => looseNames t ++ looseNamesAll ts

end

/-- The statements inside share the scope where the node stands. -/
def isTransparent : Kind → Bool
  | .ifStmt | .whileStmt | .doWhileStmt | .withStmt | .exportDecl => true
  | _ => false

/-- The names that a tree declares, for its scope or for a function around it. -/
def declaredNames (t : Ast) : List String :=
  lexicalAll (outlineAs .refers t) ++ hoistedAll (outlineAs .refers t)

/-- The names that the parameters of a function take from its body. -/
def takenFromBody : Ast → List String
  | .node (.function _ _) _ (params :: _ :: body :: _) =>
    taken (outlineAs .refers params) (outlineIn .body body)
  | _ => []

/-- The names that a node lets out of sight: those attached to a function that it declares in a
scope of its own, those that its decorators declare, and those that the parameters of an accessor
take from its body. -/
def exposed : Ast → List String
  | .node .block _ _ => []
  | .node .moduleBlock _ _ => []
  | .node (.module _) _ _ => []
  | .node .switchCase _ (test :: _) => looseNames test
  | .node .labeled _ [label, _] => looseNames label
  | .node (.function _ _) _ (params :: decorators :: rest) =>
    declaredNames decorators ++ looseNamesAll (params :: decorators :: rest)
  | .node .param _ [decorators, p] => declaredNames decorators ++ looseNamesAll [decorators, p]
  | .node .setter _ [key, this, param, body] =>
    taken (declareAll .param (boundNames param) ++ outlineAs .binds param) (outlineIn .body body) ++
      looseNamesAll [key, this, param, body]
  | .node (.classMethod .getter _) _ [key, f] => takenFromBody f ++ looseNamesAll [key, f]
  | .node (.classMethod .setter _) _ [key, f] => takenFromBody f ++ looseNamesAll [key, f]
  | .node k _ cs => if isTransparent k then [] else looseNamesAll cs
  | _ => []

mutual

/-- The names that nodes of a tree let out of sight. -/
def leaks : Ast → List String
  | .absent => []
  | .list ts => leaksAll ts
  | .node k s cs => exposed (.node k s cs) ++ leaksAll cs

def leaksAll : List Ast → List String
  | [] => []
  | t :: ts => leaks t ++ leaksAll ts

end

theorem mem_leaksAll {n : String} {ts : List Ast} :
    n ∈ leaksAll ts ↔ ∃ t ∈ ts, n ∈ leaks t :=
  Joins.mem ⟨rfl, fun _ _ => rfl⟩

theorem outlineAs_transparent {k : Kind} (h : isTransparent k = true) (s : Span) (cs : List Ast) :
    outlineAs .refers (.node k s cs) = outlineAll .refers cs := by
  revert h
  fun_cases isTransparent k <;> simp [outlineAs, isTypeKind]

/-- A name is free in the facts of trees, or declared by them, or let out of sight. -/
def Accounted (os : List Outline) (names : List String) (n : String) : Prop :=
  n ∈ freeAll bare os ∨ n ∈ lexicalAll os ∨ n ∈ names

theorem Accounted.of_leaks {os : List Outline} {names : List String} {n : String}
    (h : n ∈ names) : Accounted os names n :=
  .inr (.inr h)

theorem Accounted.mono {os os' : List Outline} {names names' : List String} {n : String}
    (h : Accounted os names n) (hf : n ∈ freeAll bare os → n ∈ freeAll bare os')
    (hl : n ∈ lexicalAll os → n ∈ lexicalAll os') (hn : n ∈ names → n ∈ names') :
    Accounted os' names' n :=
  h.imp hf (.imp hl hn)

/-- A node that opens a scope lets out of sight what is attached to functions inside. -/
theorem mem_exposed {k : Kind} {s : Span} {cs : List Ast} {n : String}
    (ht : isTransparent k = false) (hl : k ≠ .labeled)
    (h : n ∈ looseNames (.node k s cs)) (hd : ∀ d, k ≠ .funcDecl d) :
    n ∈ exposed (.node k s cs) := by
  generalize ht' : Ast.node k s cs = t at h
  revert h
  fun_cases exposed t <;> simp_all [looseNames, looseNamesAll]
  case case13 hn => exact absurd ht'.symm (hn k s cs)

mutual

/-- What is attached to loosely declared functions is accounted for. -/
theorem accounted_of_mem_looseNames {n : String} : ∀ (t : Ast), n ∈ looseNames t →
    Accounted (outlineAs .refers t) (leaks t) n
  | .absent, h => by cases h
  | .list ts, h => by
    rw [looseNames] at h
    simpa [outlineAs, leaks] using accounted_of_mem_looseNamesAll ts h
  | .node k s cs, h => by
    have hall := @accounted_of_mem_looseNamesAll n cs
    by_cases ht : isTransparent k = true
    · have hloose : looseNames (.node k s cs) = looseNamesAll cs := by
        revert ht
        fun_cases isTransparent k <;> simp [looseNames]
      rw [outlineAs_transparent ht]
      exact (hall (hloose ▸ h)).mono id id (by simp_all [leaks])
    by_cases hl : k = .labeled
    · subst hl
      rcases cs with _ | ⟨label, _ | ⟨body, _ | ⟨c, cs⟩⟩⟩
      case cons.cons.nil =>
        simp only [looseNames, looseNamesAll, List.append_nil, List.mem_append] at h
        rcases h with h | h
        · exact .of_leaks (by simp [leaks, exposed, h])
        · refine (accounted_of_mem_looseNames body h).mono ?_ ?_ ?_
          all_goals simp_all [outlineAs, leaks, leaksAll]
      all_goals exact .of_leaks (by simp_all [looseNames, leaks, exposed, isTransparent])
    by_cases hd : ∃ d, k = .funcDecl d
    · obtain ⟨d, rfl⟩ := hd
      rcases cs with _ | ⟨name, _ | ⟨f, _ | ⟨c, cs⟩⟩⟩
      case cons.cons.nil =>
        simp only [looseNames, List.mem_append] at h
        rcases h with ((h | h) | h) | h
        · refine .inr (.inl ?_)
          have : n ∈ lexicalAll (declareName .function name) := by
            cases hi : name.identName? <;>
              simp_all [declareName, declareAll, lexical, BindingKind.isFunctionScoped]
          simp [outlineAs, this]
        · exact .inl (by simp [outlineAs, h])
        · exact .of_leaks (by simp [leaks, exposed, isTransparent, looseNamesAll, h])
        · exact .of_leaks (by simp [leaks, exposed, isTransparent, looseNamesAll, h])
      all_goals exact .of_leaks (by simp_all [looseNames, leaks, exposed, isTransparent])
    · exact .of_leaks (List.mem_append_left _
        (mem_exposed (by simpa using ht) hl h fun d hk => hd ⟨d, hk⟩))

theorem accounted_of_mem_looseNamesAll {n : String} : ∀ (ts : List Ast), n ∈ looseNamesAll ts →
    Accounted (outlineAll .refers ts) (leaksAll ts) n
  | [], h => by cases h
  | t :: ts, h => by
    simp only [looseNamesAll, List.mem_append] at h
    simp only [Accounted, outlineAll, freeAll_append, lexicalAll_append, leaksAll, List.mem_append]
    rcases h with h | h
    · rcases accounted_of_mem_looseNames t h with h | h | h
      · exact .inl (.inl h)
      · exact .inr (.inl (.inl h))
      · exact .inr (.inr (.inl h))
    · rcases accounted_of_mem_looseNamesAll ts h with h | h | h
      · exact .inl (.inr h)
      · exact .inr (.inl (.inr h))
      · exact .inr (.inr (.inr h))

end

/-! ### The facts of a candidate -/

theorem outlineAll_params (ps : List Ast) :
    outlineAll .refers (ps.map madeParam) = outlinePatterns ps := by
  induction ps with
  | nil => simp [outlineAll, outlinePatterns]
  | cons p ps ih => simp [outlineAll, outlinePatterns, ih, madeParam, made, outlineAs]

def Candidate.facts (c : Candidate) : List Outline :=
  outlinePatterns c.params ++ outlineIn .body c.body

theorem Candidate.outline_toFunction (c : Candidate) :
    outlineAs .refers c.toFunction = [.scope .function (some Span.made) c.facts] := by
  rw [toFunction, outline_madeFunction, paramList, outlineAll_params]
  rfl

theorem outlineAs_directive {marker : String} {t : Ast} (h : isDirective marker t = true) :
    outlineAs .refers t = [] := by
  unfold isDirective at h
  split at h
  · simp [outlineAs, outlineAll, isTypeKind]
  · cases h

theorem outlineIn_stripDirective (marker : String) (m : Role) (t : Ast) :
    outlineIn m (stripDirective marker t) = outlineIn m t := by
  unfold stripDirective
  split
  · split
    · rename_i h
      cases m <;> simp [outlineIn, outlineAs, outlineAll, outlineAs_directive h, bodyFacts]
    · rfl
  · rfl

@[simp] theorem Candidate.facts_unmarked (c : Candidate) (marker : String) :
    (c.unmarked marker).facts = c.facts := by
  simp [facts, unmarked, outlineIn_stripDirective]

/-! ### Preparing a candidate -/

theorem Job.prepare_eq_ok {job : Job} {c : Candidate} {p : Prepared} (h : job.prepare c = .ok p) :
    p.candidate = c.unmarked job.config.marker ∧
      ∃ own, job.table.functionScope? c.span = some own ∧
        p.metadata.closure = (captureFrom job.table own c.ownName?).names := by
  unfold Job.prepare at h
  split at h
  · cases h
  split at h
  · cases h
  simp only at h
  split at h
  · cases h
  · rename_i closure hc
    cases h
    refine ⟨rfl, ?_⟩
    unfold capture at hc
    split at hc
    · rename_i own hown
      cases hc
      exact ⟨own, hown, rfl⟩
    · cases hc

/-- A converted function mentions what its record captures, its own name, what is global where it
stood, and names that were let out of sight. -/
def Sealed (table : ScopeTable) (given : Option Span → List String) (lost : List String)
    (e : Conversion) : Prop :=
  ∀ n ∈ freeAll given (outlineAs .refers e.callable),
    n ∈ e.record.closure ∨ e.prepared.candidate.ownName? = some n ∨
      (∃ own, table.functionScope? e.prepared.candidate.span = some own ∧ GlobalIn table own n) ∨
      n ∈ lost

section Prepared

variable {job : Job} {given : Option Span → List String} {lost : List String}
  {c : Candidate} {p : Prepared} {f : FunctionFacts}

theorem Job.closure_subset (hu : Understood job.table f) (hspan : c.span = f.span)
    (hp : job.prepare c = .ok p) {n : String} (hn : n ∈ p.metadata.closure) : n ∈ f.free := by
  obtain ⟨-, own, hown, hclosure⟩ := Job.prepare_eq_ok hp
  rw [hclosure] at hn
  exact hu.free_of_captured (hspan ▸ hown) hn

/-- **A conversion is sealed**, if the function in the result mentions what the function mentioned
and its own name. -/
theorem Job.sealed_of_prepare (hu : Understood job.table f) (hspan : c.span = f.span)
    (hp : job.prepare c = .ok p) {reason : Reason} {callable : Ast}
    (hfree : ∀ n ∈ freeAll given (outlineAs .refers callable),
      n ∈ f.free ∨ c.ownName? = some n ∨ n ∈ lost) :
    Sealed job.table given lost ⟨p, reason, callable⟩ := by
  obtain ⟨hcand, own, hown, hclosure⟩ := Job.prepare_eq_ok hp
  have hspan' : p.candidate.span = c.span := by rw [hcand]; rfl
  have hname : p.candidate.ownName? = c.ownName? := by rw [hcand]; rfl
  intro n hn
  simp only [Conversion.record, Prepared.record, hname, hspan', hclosure]
  rcases hfree n hn with h | h | h
  · rcases hu.cases_of_free (hspan ▸ hown) h with h | h | h
    · exact .inl h
    · exact .inr (.inl h)
    · exact .inr (.inr (.inl ⟨own, hown, h⟩))
  · exact .inr (.inl h)
  · exact .inr (.inr (.inr h))

theorem ownName?_of_selfName? {n : String} (h : selfName? c = some n) : c.ownName? = some n := by
  unfold selfName? at h
  unfold Candidate.ownName?
  split at h
  · rename_i hk
    simpa [hk] using h
  · cases h

theorem free_scope_declared {names : List String} {X : List Outline} {s : Option Span} {n : String}
    (h : n ∈ Outline.free bare (.scope .function s X)) (hn : n ∉ names) :
    n ∈ Outline.free bare (.scope .function s (declareAll .function names ++ X)) := by
  have hdecl : lexicalAll (declareAll .function names) = names ∧
      hoistedAll (declareAll .function names) = [] := by
    clear hn
    induction names with
    | nil => exact ⟨rfl, rfl⟩
    | cons m ms ih =>
      simp_all [declareAll, lexical, hoistedAll, hoisted, BindingKind.isFunctionScoped]
  rw [mem_free_scope, mem_declared] at h ⊢
  simp only [freeAll_append, freeAll_declareAll, lexicalAll_append, hoistedAll_append, hdecl,
    List.nil_append, List.mem_append, not_or] at h ⊢
  exact ⟨h.1, ⟨⟨hn, h.2.1.1⟩, h.2.1.2⟩, h.2.2⟩

variable {X : List Outline}
  (hfacts : f.facts = declareAll .function (selfName? c).toList ++ X)
  (hk : Keeps given lost [] X c.facts)
include hfacts hk

/-- A candidate as a plain function mentions what the function mentioned, and its own name. -/
theorem Candidate.free_toFunction {n : String}
    (hn : n ∈ freeAll given (outlineAs .refers c.toFunction)) :
    n ∈ f.free ∨ selfName? c = some n ∨ n ∈ lost := by
  rw [c.outline_toFunction] at hn
  simp only [freeAll, List.append_nil] at hn
  rcases hk.free_scope .function _ (some f.span) hn with h | h
  · by_cases hself : selfName? c = some n
    · exact .inr (.inl hself)
    · refine .inl ?_
      rw [FunctionFacts.free, hfacts]
      exact free_scope_declared h (by simpa using hself)
  · exact .inr (.inr h)

theorem Job.free_prepared (hp : job.prepare c = .ok p) {n : String}
    (hn : n ∈ freeAll given (outlineAs .refers p.candidate.toFunction)) :
    n ∈ f.free ∨ selfName? c = some n ∨ n ∈ lost := by
  obtain ⟨hcand, -⟩ := Job.prepare_eq_ok hp
  rw [hcand] at hn
  exact Candidate.free_toFunction (c := c.unmarked job.config.marker) hfacts (by simpa using hk) hn

theorem Job.sealed_toFunction (hu : Understood job.table f) (hspan : c.span = f.span)
    (hp : job.prepare c = .ok p) (reason : Reason) :
    Sealed job.table given lost ⟨p, reason, p.candidate.toFunction⟩ := by
  refine Job.sealed_of_prepare hu hspan hp fun n hn => ?_
  rcases Job.free_prepared hfacts hk hp hn with h | h | h
  · exact .inl h
  · exact .inr (.inl (ownName?_of_selfName? h))
  · exact .inr (.inr h)

/-- **A wrapper mentions what the function mentioned.** -/
theorem Job.free_wrapper (hu : Understood job.table f) (hspan : c.span = f.span)
    (hp : job.prepare c = .ok p) {n : String}
    (hn : n ∈ freeAll given (outlineAs .refers p.wrapper)) : n ∈ f.free ∨ n ∈ lost := by
  rcases free_wrap hn with h | ⟨h, hself⟩
  · exact .inl (Job.closure_subset hu hspan hp h)
  · obtain ⟨hcand, -⟩ := Job.prepare_eq_ok hp
    rcases Job.free_prepared hfacts hk hp h with h | h | h
    · exact .inl h
    · rw [hcand] at hself
      exact absurd h hself
    · exact .inr h

end Prepared

end Worklet
