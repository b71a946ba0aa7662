import Worklet.Proofs.Canonical.NormalForm
import Worklet.Proofs.Convert.Reasons
import Worklet.Proofs.Scope.Recast

/-!
# Functions that are written alike have one text

The canonical text of a function depends on its parameters and its body, and not on where it stands,
how its literals are spelled or which form it has.

Principal results: `normalize_recast` — places and spellings do not matter to what is printed;
`transform_canonical_eq` — two converted functions that are written alike, and hold no converted
function, have the same text and hash.
-/

set_option autoImplicit false

namespace Worklet

open Syntax

/-! ### What is printed -/

section Printed

variable (φ : Span → Span)

theorem isTypeOnly_recast (t : Ast) : isTypeOnly (recast φ t) = isTypeOnly t := by
  cases t with
  | node k s cs =>
    cases k with
    | funcDecl d =>
      rcases cs with _ | ⟨name, _ | ⟨f, _ | ⟨_, _⟩⟩⟩
      case cons.cons.nil =>
        simp only [recast, recastAll, normalKind, isTypeOnly, child_recast, isAbsent_recast]
      all_goals simp [recast, recastAll, normalKind, isTypeOnly]
    | _ => simp [recast, normalKind, isTypeOnly]
  | _ => simp [recast, isTypeOnly]

/-- **Places and spellings do not matter to what is printed.** -/
theorem normalize_recast (t : Ast) : normalize (recast φ t) = normalize t := by
  refine normalize.induct (fun t => normalize (recast φ t) = normalize t)
    (fun ts => normalizeStmts (recastAll φ ts) = normalizeStmts ts)
    (fun ts => normalizeAll (recastAll φ ts) = normalizeAll ts)
    ?_ ?_ ?_ ?_ ?_ ?_ ?_ ?_ ?_ ?_ ?_ ?classProp ?assign ?_ ?_ ?_ ?_ ?_ ?_ ?_ ?_ ?other ?_ ?typeOnly
    ?statement ?_ ?_ t
  case classProp =>
    intro mods s key value type decorators h₁ h₂ h₃ h₄
    simp only [recast, recastAll, normalKind, normalize, isPrivateName_recast, h₁, h₂, h₃, h₄]
  case assign =>
    intro op s k s' cs value hcs hk hv
    have hwrapper : isTypeWrapper k = true → normalKind k = k := by
      cases k <;> simp [isTypeWrapper, normalKind]
    rw [recast] at hk
    rw [recast, recastAll, recastAll, recastAll, recast, normalKind, normalize, normalize, hcs, hk,
      hv, isTypeWrapper_normalKind]
    · split
      · rw [hwrapper ‹_›]
      · rfl
    · simp
    · simp
  case other =>
    intro k s cs h₁ h₂ h₃ h₄ h₅ h₆ h₇ h₈ h₉ h₁₀ h₁₁ h₁₂ h₁₃ h₁₄ h₁₅ h₁₆ h₁₇ h₁₈ h₁₉ hcs
    have hother (sp : Span) : normalize (.node (normalKind k) sp (recastAll φ cs)) =
        made (normalKind (normalKind k)) (normalizeAll (recastAll φ cs)) := by
      unfold normalKind
      split
      · simp only [normalize]
        rfl
      · simp only [normalize]
        rfl
      · rw [normalize]
        · rfl
        -- no form that has a rule of its own comes from one that has not
        all_goals try simp only [recastAll_eq_cons, recastAll_eq_nil]
        · rintro o _ _ rfl ⟨c₁, _, rfl, -, c₂, _, rfl, -, rfl⟩
          exact h₁ o c₁ c₂ rfl rfl
        · rintro o _ _ rfl ⟨c₁, _, rfl, -, c₂, _, rfl, -, rfl⟩
          exact h₂ o c₁ c₂ rfl rfl
        · rintro o _ _ rfl ⟨c₁, _, rfl, -, c₂, _, rfl, -, rfl⟩
          exact h₃ o c₁ c₂ rfl rfl
        · rintro _ _ rfl ⟨c₁, _, rfl, -, c₂, _, rfl, -, rfl⟩
          exact h₄ c₁ c₂ rfl rfl
        · rintro a g _ _ _ _ _ rfl
            ⟨c₁, _, rfl, -, c₂, _, rfl, -, c₃, _, rfl, -, c₄, _, rfl, -, c₅, _, rfl, -, rfl⟩
          exact h₅ a g c₁ c₂ c₃ c₄ c₅ rfl rfl
        · rintro a _ _ _ _ rfl ⟨c₁, _, rfl, -, c₂, _, rfl, -, c₃, _, rfl, -, c₄, _, rfl, -, rfl⟩
          exact h₆ a c₁ c₂ c₃ c₄ rfl rfl
        · rintro _ _ _ rfl ⟨c₁, _, rfl, -, c₂, _, rfl, -, c₃, _, rfl, -, rfl⟩
          exact h₇ c₁ c₂ c₃ rfl rfl
        · rintro _ _ _ rfl ⟨c₁, _, rfl, -, c₂, _, rfl, -, c₃, _, rfl, -, rfl⟩
          exact h₈ c₁ c₂ c₃ rfl rfl
        · rintro a _ _ _ _ _ _ rfl
            ⟨c₁, _, rfl, -, c₂, _, rfl, -, c₃, _, rfl, -, c₄, _, rfl, -, c₅, _, rfl, -, c₆, _, rfl, -, rfl⟩
          exact h₉ a c₁ c₂ c₃ c₄ c₅ c₆ rfl rfl
        · rintro mods _ _ _ _ rfl ⟨c₁, _, rfl, -, c₂, _, rfl, -, c₃, _, rfl, -, c₄, _, rfl, -, rfl⟩
          exact h₁₀ mods c₁ c₂ c₃ c₄ rfl rfl
        · rintro op _ _ _ _ rfl ⟨c₁, _, rfl, hc₁, c₂, _, rfl, -, rfl⟩
          obtain ⟨k, s, cs, rfl, -⟩ := recast_eq_node hc₁
          exact h₁₁ op k s cs c₂ rfl rfl
        · exact h₁₂
        · rintro _ _ rfl ⟨c, cs, rfl, -, -⟩
          exact h₁₃ c cs rfl rfl
        · rintro _ _ rfl ⟨c, cs, rfl, -, -⟩
          exact h₁₄ c cs rfl rfl
        · rintro _ _ rfl ⟨c, cs, rfl, -, -⟩
          exact h₁₅ c cs rfl rfl
        · rintro _ _ rfl ⟨c, cs, rfl, -, -⟩
          exact h₁₆ c cs rfl rfl
        · rintro _ _ rfl ⟨c, cs, rfl, -, -⟩
          exact h₁₇ c cs rfl rfl
        · rintro _ _ rfl ⟨c, cs, rfl, -, -⟩
          exact h₁₈ c cs rfl rfl
        · rintro _ _ rfl ⟨c, cs, rfl, -, -⟩
          exact h₁₉ c cs rfl rfl
    rw [recast, hother, normalize, hcs, normalKind_normalKind]
    all_goals assumption
  case typeOnly =>
    intro t ts ht hts
    rw [recastAll, normalizeStmts, normalizeStmts, isTypeOnly_recast, if_pos ht, if_pos ht, hts]
  case statement =>
    intro t ts ht hn hts
    simp only [recastAll, normalizeStmts, isTypeOnly_recast, ht, hn, hts]
  all_goals
    intros
    simp only [recast, recastAll, normalKind, normalize, normalizeAll, normalizeStmts, *]

end Printed

/-! ### Functions that are written alike -/

/-- Two functions are written alike: but for their markers, places and spellings, they have the same
parameters and the same body. -/
structure Candidate.Alike (marker : String) (c c' : Candidate) : Prop where
  params : c.params.map skeleton = c'.params.map skeleton
  body : skeleton (stripDirective marker c.body) = skeleton (stripDirective marker c'.body)
  isAsync : c.isAsync = c'.isAsync

theorem skeleton_toFunction {c c' : Candidate} (hp : c.params.map skeleton = c'.params.map skeleton)
    (hb : skeleton c.body = skeleton c'.body) (ha : c.isAsync = c'.isAsync)
    (hg : c.isGenerator = c'.isGenerator) : skeleton c.toFunction = skeleton c'.toFunction := by
  have hlist (c : Candidate) :
      recastAll (fun _ => Span.made) c.paramList = (c.params.map skeleton).map madeParam := by
    rw [recastAll_eq_map, Candidate.paramList, List.map_map, List.map_map]
    rfl
  unfold skeleton at hb
  simp only [skeleton, Candidate.toFunction, madeFunction, made, recast, recastAll, hlist, hp, hb,
    ha, hg]

/-- What is printed of a function comes from its parameters and its body. -/
theorem canonicalText_eq {marker : String} {target : Target} {c c' : Candidate}
    (h : c.Alike marker c') (hg : c.isGenerator = c'.isGenerator) :
    canonicalText target (c.unmarked marker) = canonicalText target (c'.unmarked marker) := by
  have hfunction : skeleton (c.unmarked marker).toFunction = skeleton (c'.unmarked marker).toFunction :=
    skeleton_toFunction h.params h.body h.isAsync hg
  unfold skeleton at hfunction
  unfold canonicalText canonicalModule
  rw [← normalize_recast (fun _ => Span.made) (made _ [_, (c.unmarked marker).toFunction]),
    ← normalize_recast (fun _ => Span.made) (made _ [_, (c'.unmarked marker).toFunction])]
  simp only [made, recast, recastAll, hfunction]

theorem canonical_of_prepare {job : Job} {c : Candidate} {p : Prepared} (h : job.prepare c = .ok p) :
    c.isGenerator = false ∧
      p.metadata.canonical = canonicalText job.config.target (c.unmarked job.config.marker) ∧
      p.metadata.hash = workletHash p.metadata.canonical := by
  unfold Job.prepare at h
  split at h
  · cases h
  · rename_i hg
    split at h
    · cases h
    · dsimp only at h
      split at h
      · cases h
      · cases h
        exact ⟨by simpa using hg, rfl, rfl⟩

/-- Each conversion of a program with the place of its function among the functions of the
program. -/
structure MadeOf (config : Config) (p : Program) (xs : List (Nat × Conversion)) : Prop where
  conversions : xs.map Prod.snd = (transform config p).conversions
  stands : ∀ x ∈ xs, ∃ site, (functionSites config.hooks .plain p.module)[x.1]? = some site ∧
    site.span = x.2.span

/-- Every conversion is of a function, and one that holds no other is of the function as it was
read. -/
theorem exists_madeOf (config : Config) {p : Program} (hroot : isModule p.module = true) :
    ∃ xs, MadeOf config p xs ∧
      Prepares (.ofProgram config p) (functionSites config.hooks .plain p.module) xs := by
  obtain ⟨module, entries, hb, -, hconverted, -⟩ := transform_becomes config hroot
  obtain ⟨xs, hxs, hacc, hprepares⟩ := hb.accounts
  simp only [Trace.entries, List.append_nil] at hxs
  refine ⟨xs, ⟨hxs.trans hconverted.symm, fun x hx => ?_⟩, hprepares⟩
  obtain ⟨site, hs, hspan, -⟩ := hacc.fits x hx
  exact ⟨site, hs, hspan⟩

/-- **Functions that are written alike have one text.** Of two converted functions, of one program
or of two, that are written alike and hold no converted function, the canonical texts and the hashes
are the same. -/
theorem transform_canonical_eq (config : Config) (p₁ p₂ : Program)
    (hroot₁ : isModule p₁.module = true) (hroot₂ : isModule p₂.module = true) :
    ∃ xs₁ xs₂, MadeOf config p₁ xs₁ ∧ MadeOf config p₂ xs₂ ∧
      ∀ x₁ ∈ xs₁, ∀ x₂ ∈ xs₂, ∀ site₁ site₂ c₁ c₂,
        (functionSites config.hooks .plain p₁.module)[x₁.1]? = some site₁ →
        (functionSites config.hooks .plain p₂.module)[x₂.1]? = some site₂ →
        site₁.subject = .candidate c₁ → site₂.subject = .candidate c₂ →
        c₁.Alike config.marker c₂ →
        (∀ y ∈ xs₁, ¬ Inside (functionSites config.hooks .plain p₁.module) y.1 x₁.1) →
        (∀ y ∈ xs₂, ¬ Inside (functionSites config.hooks .plain p₂.module) y.1 x₂.1) →
        x₁.2.record.canonical = x₂.2.record.canonical ∧ x₁.2.record.hash = x₂.2.record.hash := by
  obtain ⟨xs₁, hmade₁, hprepares₁⟩ := exists_madeOf config hroot₁
  obtain ⟨xs₂, hmade₂, hprepares₂⟩ := exists_madeOf config hroot₂
  refine ⟨xs₁, xs₂, hmade₁, hmade₂, ?_⟩
  intro x₁ hx₁ x₂ hx₂ site₁ site₂ c₁ c₂ hs₁ hs₂ hc₁ hc₂ halike hin₁ hin₂
  have hp₁ := hprepares₁ x₁ hx₁ site₁ hs₁ hin₁
  have hp₂ := hprepares₂ x₂ hx₂ site₂ hs₂ hin₂
  rw [hc₁] at hp₁
  rw [hc₂] at hp₂
  obtain ⟨hg₁, htext₁, hhash₁⟩ := canonical_of_prepare hp₁
  obtain ⟨hg₂, htext₂, hhash₂⟩ := canonical_of_prepare hp₂
  have htext : x₁.2.prepared.metadata.canonical = x₂.2.prepared.metadata.canonical := by
    rw [htext₁, htext₂]
    exact canonicalText_eq halike (hg₁.trans hg₂.symm)
  exact ⟨htext, by simp only [Conversion.record, Prepared.record, hhash₁, hhash₂, htext]⟩

/-- `const f = function g() { "worklet"; return 1; };` -/
def sampleTwin : Program where
  filename := "/lib/b.js"
  text := []
  module :=
    made (.module none)
      [madeVar .const "f"
        (made .funcExpr [madeIdent "g",
          .node (.function false false) ⟨11, 49⟩
            [.list [], .list [],
             made .block [madeStatement (madeString "worklet"), madeReturn (madeNumber 1)], .absent,
             .absent]])]
  comments := default

/-- A conversion of a function that holds no other stands at a place where no other is inside. -/
theorem MadeOf.exists_of_span {config : Config} {p : Program} {xs : List (Nat × Conversion)}
    (h : MadeOf config p xs) {s : Span} (hs : s ∈ (transform config p).conversions.map (·.span))
    {c : Candidate} (hc : ∀ site ∈ functionSites config.hooks .plain p.module, site.span = s →
      site.subject = .candidate c ∧ site.inner = []) :
    ∃ x ∈ xs, x.2.span = s ∧ ∃ site, (functionSites config.hooks .plain p.module)[x.1]? = some site ∧
      site.subject = .candidate c ∧
      ∀ y ∈ xs, ¬ Inside (functionSites config.hooks .plain p.module) y.1 x.1 := by
  rw [← h.conversions, List.map_map, List.mem_map] at hs
  obtain ⟨x, hx, hspan⟩ := hs
  obtain ⟨site, hsite, hplace⟩ := h.stands x hx
  obtain ⟨hsubject, hinner⟩ := hc site (List.mem_of_getElem? hsite) (hplace.trans hspan)
  refine ⟨x, hx, hspan, site, hsite, hsubject, ?_⟩
  rintro y - ⟨site', hsite', hlt, hle⟩
  rw [hsite] at hsite'
  cases hsite'
  rw [hinner, List.length_nil] at hle
  omega

/-- The marked arrow of `sampleHooks` and the function of `sampleTwin` are written alike, so that they
have one text and one hash. -/
theorem transform_canonical_eq_sampleTwin :
    ∃ e₁ ∈ (transform .standard sampleHooks).conversions,
      ∃ e₂ ∈ (transform .standard sampleTwin).conversions,
        e₁.span = ⟨80, 111⟩ ∧ e₂.span = ⟨11, 49⟩ ∧
          e₁.record.canonical = e₂.record.canonical ∧ e₁.record.hash = e₂.record.hash := by
  obtain ⟨xs₁, xs₂, h₁, h₂, hequal⟩ :=
    transform_canonical_eq .standard sampleHooks sampleTwin rfl rfl
  obtain ⟨a, c₁, b, hsites₁, hspans₁⟩ : ∃ a c₁ b,
      functionSites Config.standard.hooks .plain sampleHooks.module =
        [a, ⟨.candidate c₁, none, []⟩, b] ∧ a.span ≠ ⟨80, 111⟩ ∧ b.span ≠ ⟨80, 111⟩ :=
    ⟨_, _, _, rfl, by decide +kernel⟩
  obtain ⟨c₂, hsites₂⟩ : ∃ c₂, functionSites Config.standard.hooks .plain sampleTwin.module =
      [⟨.candidate c₂, none, []⟩] := ⟨_, rfl⟩
  have halike : c₁.Alike Config.standard.marker c₂ := by
    cases hsites₁
    cases hsites₂
    exact ⟨rfl, rfl, rfl⟩
  obtain ⟨x₁, hx₁, hspan₁, site₁, hsite₁, hc₁, hin₁⟩ := h₁.exists_of_span (s := ⟨80, 111⟩)
    (by decide +kernel) (c := c₁) (by rw [hsites₁]; simp [hspans₁])
  obtain ⟨x₂, hx₂, hspan₂, site₂, hsite₂, hc₂, hin₂⟩ := h₂.exists_of_span (s := ⟨11, 49⟩)
    (by decide +kernel) (c := c₂) (by rw [hsites₂]; simp)
  obtain ⟨htext, hhash⟩ :=
    hequal x₁ hx₁ x₂ hx₂ site₁ site₂ c₁ c₂ hsite₁ hsite₂ hc₁ hc₂ halike hin₁ hin₂
  refine ⟨x₁.2, ?_, x₂.2, ?_, hspan₁, hspan₂, htext, hhash⟩
  · rw [← h₁.conversions]
    exact List.mem_map_of_mem hx₁
  · rw [← h₂.conversions]
    exact List.mem_map_of_mem hx₂

end Worklet
