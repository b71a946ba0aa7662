import Worklet.Proofs.Convert.Reasons

/-!
# Comments of converted functions

A function that is converted takes the comments inside it out of the store, in whatever order
functions are met. So what is left can be said by one test of each anchor.

* `Span.Apart`, `Spaced` — functions of which each two stand one inside the other or apart.

Principal results: `leftComments_eq_outside` — what conversions leave of a store;
`transform_withComments` — comments change nothing else; `transform_comments` — the comments that a
program loses are those inside its converted functions.
-/

set_option autoImplicit false

namespace Worklet

open Syntax

/-! ### Anchors -/

namespace Syntax.Comments

/-- The comments that are anchored strictly inside none of the spans. -/
def outside (s : Comments) (spans : List Span) : Comments where
  leading := s.leading.keep fun pos => !spans.any (inside · pos)
  trailing := s.trailing.keep fun pos => !spans.any (inside · pos)

theorem keep_keep (a : Anchored) (p q : Nat → Bool) :
    (a.keep p).keep q = a.keep fun pos => p pos && q pos := by
  rw [Anchored.keep, Anchored.keep, Anchored.keep, List.filter_filter]
  simp only [Bool.and_comm]

theorem outside_nil (s : Comments) : s.outside [] = s := by
  simp [outside, Anchored.keep]

theorem outside_outside (s : Comments) (a b : List Span) :
    (s.outside a).outside b = s.outside (a ++ b) := by
  simp only [outside, keep_keep, List.any_append, Bool.not_or]

/-- Nothing lies strictly inside a made span, so it needs no case of its own. -/
theorem stripWithin_eq_outside (s : Comments) (span : Span) :
    s.stripWithin span = s.outside [span] := by
  unfold stripWithin
  split
  · rename_i hmade
    have hempty (pos : Nat) : inside span pos = false := by
      simp only [Span.isMade, Bool.and_eq_true, beq_iff_eq] at hmade
      simp only [inside, hmade.2, Nat.not_lt_zero, decide_false, Bool.and_false]
    simp [outside, Anchored.keep, hempty]
  · simp [outside]

theorem outside_perm (s : Comments) {a b : List Span} (h : a.Perm b) : s.outside a = s.outside b := by
  have hany (pos : Nat) : a.any (inside · pos) = b.any (inside · pos) := h.any_eq
  simp only [outside, hany]

theorem mem_outside_leading {s : Comments} {spans : List Span} {e : Nat × List Comment} :
    e ∈ (s.outside spans).leading ↔ e ∈ s.leading ∧ ∀ span ∈ spans, inside span e.1 = false := by
  simp [outside, Anchored.keep]

theorem mem_outside_trailing {s : Comments} {spans : List Span} {e : Nat × List Comment} :
    e ∈ (s.outside spans).trailing ↔ e ∈ s.trailing ∧ ∀ span ∈ spans, inside span e.1 = false := by
  simp [outside, Anchored.keep]

end Syntax.Comments

/-- What conversions leave is what lies inside none of the functions. -/
theorem leftComments_eq_outside (comments : Comments) (es : List Conversion) :
    leftComments comments es = comments.outside (es.map (·.span)) := by
  induction es generalizing comments with
  | nil => exact comments.outside_nil.symm
  | cons e es ih =>
    calc leftComments comments (e :: es)
        = leftComments (comments.stripWithin e.span) es := rfl
      _ = (comments.outside [e.span]).outside (es.map (·.span)) := by
        rw [ih, Comments.stripWithin_eq_outside]
      _ = comments.outside ((e :: es).map (·.span)) := Comments.outside_outside ..

/-! ### Functions that stand apart -/

/-- No place lies inside both spans. -/
def Syntax.Span.Apart (a b : Span) : Prop :=
  a.hi ≤ b.lo ∨ b.hi ≤ a.lo

theorem Syntax.Span.Apart.not_inside {a b : Span} (h : a.Apart b) {pos : Nat}
    (ha : Comments.inside a pos = true) : Comments.inside b pos = false := by
  simp only [Comments.inside, Bool.and_eq_true, decide_eq_true_eq] at ha
  simp only [Comments.inside, Bool.and_eq_false_iff, decide_eq_false_iff_not]
  rcases h with h | h <;> omega

/-- Of each two functions one stands inside the other, or they stand apart. -/
def Spaced (sites : List FunctionSite) : Prop :=
  ∀ i j a b, sites[i]? = some a → sites[j]? = some b → i ≠ j →
    Inside sites i j ∨ Inside sites j i ∨ a.span.Apart b.span

/-! ### Programs -/

/-- **Comments change nothing else.** -/
theorem transform_withComments (config : Config) (p : Program) (hroot : isModule p.module = true)
    (comments : Comments) :
    (transform config { p with comments }).module = (transform config p).module ∧
      (transform config { p with comments }).conversions = (transform config p).conversions ∧
      (transform config { p with comments }).diagnostics = (transform config p).diagnostics := by
  obtain ⟨module, entries, n, h, hmodule, hconversions, hdiagnostics, -⟩ :=
    transform_proceeds config hroot
  obtain ⟨module', entries', n', h', hmodule', hconversions', hdiagnostics', -⟩ :=
    transform_proceeds (p := { p with comments }) config hroot
  obtain ⟨rfl, hnow, -⟩ := h.unique h'
  cases hnow
  exact ⟨hmodule'.trans hmodule.symm, hconversions'.trans hconversions.symm,
    hdiagnostics'.trans hdiagnostics.symm⟩

/-- **The comments that a program loses are those inside its converted functions.** What is left are
the comments anchored strictly inside none of them, each anchor as it was, and the same is left if the
functions are converted in another order. A comment inside a function that was asked for and stays is
lost only to a converted function around it or inside it. Without the comments all else is the
same. -/
theorem transform_comments (config : Config) (p : Program) (hroot : isModule p.module = true) :
    (transform config p).comments =
        p.comments.outside ((transform config p).conversions.map (·.span)) ∧
      (∀ es, es.Perm (transform config p).conversions →
        leftComments p.comments es = (transform config p).comments) ∧
      (∃ positions : List Nat,
        List.Forall₂ (fun i e => ((functionSites config.hooks .plain p.module)[i]?.map (·.span)) =
            some e.span) positions (transform config p).conversions ∧
        (Spaced (functionSites config.hooks .plain p.module) → ∀ i site,
          (functionSites config.hooks .plain p.module)[i]? = some site →
          (site.reason? config.marker).isSome = true → i ∉ positions →
          (∃ refusal, ⟨refusal, (Job.ofProgram config p).locate site.span⟩ ∈
            (transform config p).diagnostics) ∧
          ∀ anchor : Nat × List Comment, Comments.inside site.span anchor.1 = true →
            (∀ j ∈ positions, ∀ other, (functionSites config.hooks .plain p.module)[j]? = some other →
              Inside (functionSites config.hooks .plain p.module) i j ∨
                Inside (functionSites config.hooks .plain p.module) j i →
              Comments.inside other.span anchor.1 = false) →
            (anchor ∈ p.comments.leading → anchor ∈ (transform config p).comments.leading) ∧
            (anchor ∈ p.comments.trailing → anchor ∈ (transform config p).comments.trailing))) ∧
      ∀ comments,
        (transform config { p with comments }).module = (transform config p).module ∧
        (transform config { p with comments }).conversions = (transform config p).conversions ∧
        (transform config { p with comments }).diagnostics = (transform config p).diagnostics := by
  obtain ⟨module, entries, hb, -, hconverted, hrefused, hcomments⟩ := transform_becomes config hroot
  obtain ⟨xs, hxs, hacc, -⟩ := hb.accounts
  simp only [Trace.entries, List.append_nil] at hxs hacc
  rw [← hconverted, leftComments_eq_outside] at hcomments
  refine ⟨hcomments, ?_, ⟨xs.map Prod.fst, ?_, ?_⟩, transform_withComments config p hroot⟩
  · intro es hes
    rw [hcomments, leftComments_eq_outside]
    exact p.comments.outside_perm (hes.map _)
  · rw [hconverted, ← hxs, List.forall₂_map_left_iff, List.forall₂_map_right_iff, List.forall₂_same]
    intro x hx
    obtain ⟨site, hs, hspan, -⟩ := hacc.fits x hx
    exact Option.map_eq_some_iff.2 ⟨site, hs, hspan⟩
  · intro hspaced i site hs hasked hi
    refine ⟨?_, ?_⟩
    · rcases hacc.complete i site hs hasked with hmem | ⟨refusal, hmem⟩
      · exact absurd hmem hi
      · exact ⟨refusal, hrefused ▸ List.mem_filterMap.2 ⟨_, hmem, rfl⟩⟩
    · intro anchor hinside hfree
      have hkept : ∀ span ∈ (transform config p).conversions.map (·.span),
          Comments.inside span anchor.1 = false := by
        intro span hspan
        rw [hconverted, ← hxs, List.map_map] at hspan
        obtain ⟨x, hx, rfl⟩ := List.mem_map.1 hspan
        obtain ⟨other, ho, hother, -⟩ := hacc.fits x hx
        have hne : i ≠ x.1 := fun h => hi (h ▸ List.mem_map_of_mem hx)
        have hmem : x.1 ∈ xs.map Prod.fst := List.mem_map_of_mem hx
        rw [Function.comp_apply, ← hother]
        rcases hspaced i x.1 site other hs ho hne with h | h | h
        · exact hfree _ hmem other ho (.inl h)
        · exact hfree _ hmem other ho (.inr h)
        · exact h.not_inside hinside
      rw [hcomments]
      exact ⟨fun h => Comments.mem_outside_leading.2 ⟨h, hkept⟩,
        fun h => Comments.mem_outside_trailing.2 ⟨h, hkept⟩⟩

/-- `function* g() { "worklet"; /* kept */ return () => { "worklet"; /* lost */ return 1; }; }` -/
def sampleCommented : Program where
  filename := "/app/a.js"
  text := []
  module :=
    made (.module none)
      [made (.funcDecl false)
        [madeIdent "g",
         .node (.function false true) ⟨1, 87⟩
          [.list [], .list [],
           made .block
            [madeStatement (madeString "worklet"),
             madeReturn (.node (.arrow false) ⟨46, 84⟩
              [.list [],
               made .block [madeStatement (madeString "worklet"), madeReturn (madeNumber 1)],
               .absent, .absent])],
           .absent, .absent]]]
  comments := { leading := [(39, [⟨.block, " kept "⟩]), (75, [⟨.block, " lost "⟩])] }

theorem spaced_sampleCommented : Spaced (functionSites .standard .plain sampleCommented.module) := by
  have hinside : Inside (functionSites .standard .plain sampleCommented.module) 0 1 :=
    ⟨_, rfl, by decide, by decide⟩
  intro i j a b ha hb hne
  obtain ⟨hi, -⟩ := List.getElem?_eq_some_iff.1 ha
  obtain ⟨hj, -⟩ := List.getElem?_eq_some_iff.1 hb
  have hlen : (functionSites .standard .plain sampleCommented.module).length = 2 := rfl
  rcases (by omega : i = 0 ∧ j = 1 ∨ i = 1 ∧ j = 0) with ⟨rfl, rfl⟩ | ⟨rfl, rfl⟩
  · exact .inl hinside
  · exact .inr (.inl hinside)

/-- The generator stays, and the arrow inside it is converted: the comment of the arrow is lost, and
the generator's is left. -/
theorem transform_comments_sampleCommented :
    isModule sampleCommented.module = true ∧
      Spaced (functionSites .standard .plain sampleCommented.module) ∧
      (transform .standard sampleCommented).conversions.map (·.span) = [⟨46, 84⟩] ∧
      (transform .standard sampleCommented).diagnostics.length = 1 ∧
      (transform .standard sampleCommented).comments.leading = [(39, [⟨.block, " kept "⟩])] ∧
      (transform .standard sampleCommented).comments =
        sampleCommented.comments.outside
          ((transform .standard sampleCommented).conversions.map (·.span)) :=
  ⟨rfl, spaced_sampleCommented, by decide +kernel, by decide +kernel, by decide +kernel,
    (transform_comments .standard sampleCommented rfl).1⟩

end Worklet
