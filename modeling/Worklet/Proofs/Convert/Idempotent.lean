import Worklet.Proofs.Convert.Reasons
import Worklet.Proofs.Convert.Resited
import Worklet.Proofs.Convert.Settled

/-!
# A second run converts nothing

A converted program that is printed and read again has the same tree, in other places. Converting it
once more changes nothing.

Principal results: `Becomes.not_converted` — a tree whose functions are all refused, if they are
asked for, has no conversions; `transform_idempotent` — a second run has no conversions, leaves the
module as it is, and asks only for functions that the first run refused.
-/

set_option autoImplicit false

namespace Worklet

open Syntax Outline

/-! ### Trees whose functions are refused -/

section Refused

variable {job : Job} {w : Slot} {t t' : Ast} {tr : Trace}

/-- The functions that are asked for cannot be prepared. -/
def AllRefused (job : Job) (sites : List FunctionSite) : Prop :=
  ∀ site ∈ sites, site.reason? job.config.marker ≠ none →
    ∃ refusal, site.subject.prepare job = .error refusal

/-- **A tree whose functions are refused has no conversions.** The first one would hold no other, and
its function would have been prepared as it was read. -/
theorem Becomes.not_converted (h : Becomes job w t t' tr)
    (hr : AllRefused job (functionSites job.config.hooks w t)) (e : Conversion) :
    .converted e ∉ tr.entries := by
  intro he
  obtain ⟨xs, hxs, hacc, hprepares⟩ := h.accounts
  cases xs with
  | nil => exact List.ne_nil_of_mem (mem_convertedIn.2 he) hxs.symm
  | cons x xs =>
    obtain ⟨site, hs, -, hreason⟩ := hacc.fits x List.mem_cons_self
    obtain ⟨refusal, hrefused⟩ := hr site (List.mem_of_getElem? hs) (by simp [hreason])
    have hin : ∀ y ∈ x :: xs, ¬ Inside (functionSites job.config.hooks w t) y.1 x.1 := by
      intro y hy
      rcases List.mem_cons.1 hy with rfl | hy
      · rintro ⟨_, _, hlt, _⟩
        exact Nat.lt_irrefl _ hlt
      · exact ((List.pairwise_cons.1 hacc.order).1 y hy).2
    cases (hprepares x List.mem_cons_self site hs hin).symm.trans hrefused

end Refused

/-! ### Strict mode -/

/-- The module begins with the directive of strict mode. -/
def isStrict : Ast → Bool
  | .node (.module _) _ items => items.head?.any (isDirective strictDirective)
  | _ => false

theorem ensureStrict_of_isStrict {t : Ast} (h : isStrict t = true) : ensureStrict t = t := by
  unfold isStrict at h
  split at h
  · rw [ensureStrict, if_pos h]
  · cases h

theorem isStrict_ensureStrict {t : Ast} (h : isModule t = true) :
    isStrict (ensureStrict t) = true := by
  obtain ⟨shebang, s, items, rfl⟩ := isModule_eq_true h
  rw [ensureStrict]
  split
  · assumption
  · rfl

theorem isModule_recast (φ : Span → Span) (t : Ast) : isModule (recast φ t) = isModule t := by
  cases t with
  | node k s cs => cases k <;> simp [recast, normalKind, isModule]
  | _ => simp [recast, isModule]

theorem isStrict_recast (φ : Span → Span) (t : Ast) : isStrict (recast φ t) = isStrict t := by
  cases hm : isModule t with
  | true =>
    obtain ⟨shebang, s, items, rfl⟩ := isModule_eq_true hm
    rw [recast, normalKind_of_not_literal rfl, isStrict, isStrict]
    cases items with
    | nil => rfl
    | cons t ts => simp [recastAll, isDirective_recast]
  | false =>
    have hnone {t : Ast} (h : isModule t = false) : isStrict t = false := by
      unfold isStrict
      split
      · cases h
      · rfl
    rw [hnone hm, hnone ((isModule_recast φ t).trans hm)]

/-- The directive of strict mode is no function and says nothing about names. -/
theorem functionSites_ensureStrict (hooks : HookRegistry) (w : Slot) (t : Ast) :
    functionSites hooks w (ensureStrict t) = functionSites hooks w t := by
  unfold ensureStrict
  split
  · split
    · rfl
    · rw [functionSites_statements rfl, functionSites_statements rfl, functionSitesAll]
      rfl
  · rfl

theorem outline_ensureStrict (t : Ast) : outline (ensureStrict t) = outline t := by
  unfold ensureStrict
  split
  · split
    · rfl
    · simp [outline, outlineAs, isTypeKind, outlineAll, madeStatement, madeString, made]
  · rfl

/-! ### Functions in other places -/

/-- What makes that a function cannot be prepared. -/
theorem Job.prepare_eq_error_iff {job : Job} {c : Candidate} :
    (∃ refusal, job.prepare c = .error refusal) ↔
      c.isGenerator = true ∨ c.usesSuper = true ∨ job.table.functionScope? c.span = none := by
  have hspan : (c.unmarked job.config.marker).span = c.span := rfl
  unfold Job.prepare capture
  dsimp only
  rw [hspan]
  cases c.isGenerator <;> cases c.usesSuper <;> cases job.table.functionScope? c.span <;> simp

/-- A function that was refused is refused in another place, if that place has a scope only if the
function had one. -/
theorem Subject.Recasts.refused {φ ψ : Span → Span} {job job' : Job} {a b c : Subject}
    (hb : b.Recasts φ c) (ha : a.Recasts ψ c) (hscope : φ b.span = ψ a.span →
      job.table.functionScope? a.span = none → job'.table.functionScope? b.span = none)
    (h : ∃ refusal, a.prepare job = .error refusal) :
    ∃ refusal, b.prepare job' = .error refusal := by
  cases hb with
  | unsupported _ => exact ⟨_, rfl⟩
  | candidate hb =>
    cases ha with
    | candidate ha =>
      refine Job.prepare_eq_error_iff.2 ?_
      rw [← hb.isGenerator, ← hb.usesSuper, ha.isGenerator, ha.usesSuper]
      exact (Job.prepare_eq_error_iff.1 h).imp_right (.imp_right (hscope (hb.span.symm.trans ha.span)))

theorem Subject.Recasts.hasDirective_eq {φ : Span → Span} {a b : Subject} (h : a.Recasts φ b)
    (marker : String) : hasDirective marker b.body = hasDirective marker a.body := by
  cases h with
  | candidate h => exact h.marked marker
  | unsupported h => exact h marker

theorem FunctionSite.Recasts.reason?_eq {φ : Span → Span} {a b : FunctionSite} (h : a.Recasts φ b)
    (marker : String) : b.reason? marker = a.reason? marker := by
  have hm : b.isMarked marker = a.isMarked marker := h.subject.hasDirective_eq marker
  rw [FunctionSite.reason?, FunctionSite.reason?, hm, h.detected]

/-! ### Programs -/

/-- The tree with its nodes in other places, no two functions in one. -/
structure Relaid (t u : Ast) : Prop where
  skeleton : skeleton u = skeleton t
  places : (functionSpans u).Nodup

mutual

/-- The tree with its nodes at the places from `n` on, and the first place after it. -/
def layOut (n : Nat) : Ast → Ast × Nat
  | .absent => (.absent, n)
  | .list ts => ((layOutAll n ts).map .list id)
  | .node k _ cs => ((layOutAll (n + 1) cs).map (.node k ⟨n, n + 1⟩) id)

def layOutAll (n : Nat) : List Ast → List Ast × Nat
  | [] => ([], n)
  | t :: ts => ((layOutAll (layOut n t).2 ts).map ((layOut n t).1 :: ·) id)

end

mutual

theorem recast_layOut (φ : Span → Span) (hφ : ∀ s s', φ s = φ s') : ∀ (n : Nat) (t : Ast),
    recast φ (layOut n t).1 = recast φ t
  | _, .absent => by rw [layOut]
  | n, .list ts => by
    rw [layOut, Prod.map_fst, recast, recast, recastAll_layOut φ hφ n ts]
  | n, .node k s cs => by
    rw [layOut, Prod.map_fst, recast, recast, recastAll_layOut φ hφ (n + 1) cs, hφ _ s]

theorem recastAll_layOut (φ : Span → Span) (hφ : ∀ s s', φ s = φ s') : ∀ (n : Nat) (ts : List Ast),
    recastAll φ (layOutAll n ts).1 = recastAll φ ts
  | _, [] => by rw [layOutAll]
  | n, t :: ts => by
    rw [layOutAll, Prod.map_fst, recastAll, recastAll, recast_layOut φ hφ n t,
      recastAll_layOut φ hφ _ ts]

end

/-- Spans from one place up to another, no two of them the same. -/
def Between (n m : Nat) (spans : List Span) : Prop :=
  n ≤ m ∧ (∀ s ∈ spans, n ≤ s.lo ∧ s.lo < m) ∧ spans.Nodup

theorem Between.append {n m l : Nat} {as bs : List Span} (h : Between n m as) (h' : Between m l bs) :
    Between n l (as ++ bs) := by
  obtain ⟨hle, has, hnodup⟩ := h
  obtain ⟨hle', hbs, hnodup'⟩ := h'
  refine ⟨Nat.le_trans hle hle', fun s hs => ?_, List.nodup_append.2 ⟨hnodup, hnodup', ?_⟩⟩
  · rcases List.mem_append.1 hs with hs | hs
    · have := has s hs
      omega
    · have := hbs s hs
      omega
  · rintro a ha b hb rfl
    have := has a ha
    have := hbs a hb
    omega

mutual

theorem between_layOut : ∀ (n : Nat) (t : Ast),
    Between n (layOut n t).2 (functionSpans (layOut n t).1)
  | n, .absent => ⟨Nat.le_refl n, by simp [layOut, functionSpans], by simp [layOut, functionSpans]⟩
  | n, .list ts => by
    rw [layOut, Prod.map_fst, Prod.map_snd, functionSpans, id]
    exact between_layOutAll n ts
  | n, .node k s cs => by
    rw [layOut, Prod.map_fst, Prod.map_snd, functionSpans, id]
    refine Between.append (m := n + 1) ?_ (between_layOutAll (n + 1) cs)
    split
    · exact ⟨by omega, by simp, by simp⟩
    · exact ⟨by omega, by simp, by simp⟩

theorem between_layOutAll : ∀ (n : Nat) (ts : List Ast),
    Between n (layOutAll n ts).2 (functionSpansAll (layOutAll n ts).1)
  | n, [] => ⟨Nat.le_refl n, by simp [layOutAll, functionSpansAll], by simp [layOutAll, functionSpansAll]⟩
  | n, t :: ts => by
    rw [layOutAll, Prod.map_fst, Prod.map_snd, functionSpansAll, id]
    exact (between_layOut n t).append (between_layOutAll _ ts)

end

/-- A tree can always be laid out anew. -/
theorem relaid_layOut (n : Nat) (t : Ast) : Relaid t (layOut n t).1 :=
  ⟨recast_layOut _ (fun _ _ => rfl) n t, (between_layOut n t).2.2⟩

/-- The functions of a tree and of the tree in other places, one by one. -/
theorem Relaid.functionSites {t u : Ast} (h : Relaid t u) (hooks : HookRegistry) :
    ∃ φ, recast φ u = recast id t ∧ ∀ (i : Nat) site,
      (functionSites hooks .plain u)[i]? = some site → ∃ site' site'',
        (functionSites hooks .plain t)[i]? = some site' ∧ site.Recasts φ site'' ∧
          site'.Recasts id site'' := by
  obtain ⟨φ, hφ⟩ := exists_recast h.skeleton h.places
  refine ⟨φ, hφ, fun i site hsite => ?_⟩
  have hu := getElem?_forall₂ (functionSites_recast φ hooks .plain u) i
  have ht := getElem?_forall₂ (functionSites_recast id hooks .plain t) i
  rw [hsite, hφ] at hu
  generalize (Worklet.functionSites hooks .plain (recast id t))[i]? = c at hu ht
  generalize hb : (Worklet.functionSites hooks .plain t)[i]? = b at ht
  cases hu with
  | some hu =>
    cases ht with
    | some ht => exact ⟨_, _, rfl, hu, ht⟩

/-- A program with its converted module, laid out anew. -/
def convertedAgain (config : Config) (p : Program) : Program :=
  { p with module := (layOut 1 (transform config p).module).1 }

theorem relaid_again (config : Config) (p : Program) :
    Relaid (transform config p).module (convertedAgain config p).module :=
  relaid_layOut 1 (transform config p).module

/-- What is known of a converted module: what it asks for was reported, it opens the scopes of no
other functions, and it is strict if that was wanted. -/
structure Leftover (config : Config) (p : Program) (t : Ast) : Prop where
  isModule : isModule t = true
  reported : ∀ site ∈ functionSites config.hooks .plain t, site.reason? config.marker ≠ none →
    site.span.isMade = false ∧ ∃ refusal,
      site.subject.prepare (.ofProgram config p) = .error refusal ∧
        (⟨refusal, (Job.ofProgram config p).locate site.span⟩ : Diagnostic) ∈
          (transform config p).diagnostics
  opens : ∀ s ∈ openedAll (outline t), s.isMade = true ∨ s ∈ openedAll (outline p.module)
  isStrict : config.strictMode = true → isStrict t = true

theorem leftover_transform (config : Config) {p : Program} (hroot : isModule p.module = true)
    (honce : ∀ site ∈ functionSites config.hooks .plain p.module, site.IsOnce config.marker) :
    Leftover config p (transform config p).module := by
  obtain ⟨module, entries, hb, hmodule, -, hdiagnostics, -⟩ := transform_becomes config hroot
  have hstays : isModule module = true := by
    obtain ⟨shebang, s, items, heq⟩ := isModule_eq_true hroot
    rw [heq] at hb
    cases hb with
    | node _ hl _ _ _ => cases hl
    | statements _ _ => rfl
  have hsettled : Settled (.ofProgram config p) .plain module entries := by
    simpa [Trace.entries] using hb.settled honce
  have hsites : functionSites config.hooks .plain (transform config p).module =
      functionSites config.hooks .plain module := by
    rw [hmodule]
    split
    · exact functionSites_ensureStrict _ _ _
    · rfl
  have houtline : outline (transform config p).module = outline module := by
    rw [hmodule]
    split
    · exact outline_ensureStrict _
    · rfl
  constructor
  · rw [hmodule]
    split
    · obtain ⟨shebang, s, items, rfl⟩ := isModule_eq_true hstays
      rw [ensureStrict]
      split <;> rfl
    · exact hstays
  · intro site hsite hreason
    rw [hsites] at hsite
    obtain ⟨hspan, refusal, hprepare, hentry⟩ := hsettled site hsite hreason
    refine ⟨hspan, refusal, hprepare, ?_⟩
    rw [hdiagnostics]
    exact List.mem_filterMap.2 ⟨_, hentry, rfl⟩
  · rw [houtline]
    exact hb.opens .refers
  · intro hstrict
    rw [hmodule, if_pos hstrict]
    exact isStrict_ensureStrict hstays

/-- **A second run converts nothing.** If no function of a program begins with the marker twice, and
the converted program is laid out anew, then a second run has no conversions and leaves the module as
it is. The functions that it asks for are those that the first run reported. -/
theorem transform_idempotent (config : Config) (p q : Program) (hroot : isModule p.module = true)
    (honce : ∀ site ∈ functionSites config.hooks .plain p.module, site.IsOnce config.marker)
    (hlaid : Relaid (transform config p).module q.module) :
    (transform config q).conversions = [] ∧ (transform config q).module = q.module ∧
      ∀ (i : Nat) site, (functionSites config.hooks .plain q.module)[i]? = some site →
        site.reason? config.marker ≠ none → ∃ site' refusal,
          (functionSites config.hooks .plain (transform config p).module)[i]? = some site' ∧
            (⟨refusal, (Job.ofProgram config p).locate site'.span⟩ : Diagnostic) ∈
              (transform config p).diagnostics := by
  have hleft := leftover_transform config hroot honce
  obtain ⟨φ, hφ, hsites⟩ := hlaid.functionSites config.hooks
  -- The i-th function of the second program is the i-th of the first run's result.
  have hasked : ∀ (i : Nat) site, (functionSites config.hooks .plain q.module)[i]? = some site →
      site.reason? config.marker ≠ none → ∃ site' site'' refusal,
        (functionSites config.hooks .plain (transform config p).module)[i]? = some site' ∧
          site.Recasts φ site'' ∧ site'.Recasts id site'' ∧ site'.span.isMade = false ∧
          site'.subject.prepare (.ofProgram config p) = .error refusal ∧
          (⟨refusal, (Job.ofProgram config p).locate site'.span⟩ : Diagnostic) ∈
            (transform config p).diagnostics := by
    intro i site hsite hreason
    obtain ⟨site', site'', hsite', hr, hr'⟩ := hsites i site hsite
    rw [← hr.reason?_eq, hr'.reason?_eq] at hreason
    obtain ⟨hspan, refusal, hprepare, hd⟩ :=
      hleft.reported site' (List.mem_of_getElem? hsite') hreason
    exact ⟨site', site'', refusal, hsite', hr, hr', hspan, hprepare, hd⟩
  have hrefused : AllRefused (.ofProgram config q) (functionSites config.hooks .plain q.module) := by
    intro site hmem hreason
    obtain ⟨i, hsite⟩ := List.mem_iff_getElem?.1 hmem
    obtain ⟨site', site'', refusal, -, hr, hr', hspan, hprepare, -⟩ := hasked i site hsite hreason
    refine hr.subject.refused hr'.subject (fun hplace hnone => ?_) ⟨refusal, hprepare⟩
    -- A scope at the new place was opened by the first program, or is that of a made function.
    by_contra hsome
    obtain ⟨-, hopened⟩ := (functionScope?_isSome_iff q.module site.subject.span).1
      (Option.isSome_iff_ne_none.2 hsome)
    have hopened : site'.subject.span ∈ openedAll (outline (transform config p).module) := by
      have := openedAll_recast φ .refers q.module
      rw [hφ, openedAll_recast id .refers, List.map_id] at this
      change _ ∈ openedAll (Scoping.outlineIn .refers (transform config p).module)
      rw [this, ← id_eq site'.subject.span, ← hplace]
      exact List.mem_map_of_mem hopened
    rcases hleft.opens _ hopened with hmade | hread
    · rw [FunctionSite.span, hmade] at hspan
      cases hspan
    · have := (functionScope?_isSome_iff p.module site'.subject.span).2 ⟨hspan, hread⟩
      rw [show (ScopeTable.ofModule p.module).functionScope? site'.subject.span = none from hnone]
        at this
      cases this
  have hqmodule : isModule q.module = true := by
    rw [← isModule_recast φ, hφ, isModule_recast]
    exact hleft.isModule
  obtain ⟨module, entries, hb, hmodule, hconverted, -⟩ := transform_becomes config hqmodule
  have hnone := hb.not_converted hrefused
  refine ⟨?_, ?_, fun i site hsite hreason => ?_⟩
  · rw [hconverted]
    refine List.filterMap_eq_nil_iff.2 fun e he => ?_
    cases e with
    | converted e => exact absurd (by simpa [Trace.entries] using he) (hnone e)
    | refused d => rfl
  · rw [hmodule, (hb.unchanged hnone).1]
    split
    · rename_i hstrict
      refine ensureStrict_of_isStrict ?_
      rw [← isStrict_recast φ, hφ, isStrict_recast]
      exact hleft.isStrict hstrict
    · rfl
  · obtain ⟨site', -, refusal, hsite', -, -, -, -, hd⟩ := hasked i site hsite hreason
    exact ⟨site', refusal, hsite', hd⟩

/-- In the second run only the generator is asked for. -/
theorem transform_idempotent_sampleHooks :
    isModule sampleHooks.module = true ∧
      (∀ site ∈ functionSites .standard .plain sampleHooks.module,
        site.IsOnce Config.standard.marker) ∧
      Relaid (transform .standard sampleHooks).module (convertedAgain .standard sampleHooks).module ∧
      (transform .standard sampleHooks).conversions.length = 2 ∧
      (transform .standard (convertedAgain .standard sampleHooks)).conversions = [] ∧
      (transform .standard (convertedAgain .standard sampleHooks)).module =
        (convertedAgain .standard sampleHooks).module ∧
      ∀ (i : Nat) site,
        (functionSites .standard .plain (convertedAgain .standard sampleHooks).module)[i]? =
          some site →
        site.reason? Config.standard.marker ≠ none → ∃ site' refusal,
          (functionSites .standard .plain (transform .standard sampleHooks).module)[i]? =
              some site' ∧
            (⟨refusal, (Job.ofProgram .standard sampleHooks).locate site'.span⟩ : Diagnostic) ∈
              (transform .standard sampleHooks).diagnostics := by
  have honce : ∀ site ∈ functionSites .standard .plain sampleHooks.module,
      site.IsOnce Config.standard.marker := by
    decide +kernel
  have hlaid := relaid_again .standard sampleHooks
  exact ⟨rfl, honce, hlaid, by decide +kernel,
    transform_idempotent .standard sampleHooks (convertedAgain .standard sampleHooks) rfl honce hlaid⟩

end Worklet
