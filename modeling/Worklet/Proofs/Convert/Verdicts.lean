import Worklet.Proofs.Convert.Fates
import Worklet.Proofs.Convert.SuperFound
import Worklet.Proofs.Scope.Regions

/-!
# Which functions are converted

Of the functions that somebody asks for, those are converted that are no constructor, no private method
and no generator, that do not mention `super` and that do not stand where the scope table does not
look: in a type, in a namespace, in an enumeration, in a decorator of a constructor's parameter, in the
pattern of one that declares a property, in the first parameter of a setter that has two, or in an
import. Those that stand there have no scope, and that is what is said of them. Patterns and first
parameters are left out by mistake: of a parameter that declares a property the scope builder visits the
default and not the pattern, and of a setter the last parameter alone, though both are code.

Principal results: `judged_of_decides` — what happens to a candidate is what is said of it;
`transform_verdicts` — for the functions of a program.
-/

set_option autoImplicit false

namespace Worklet

open Syntax

variable {k : Kind} {sp s : Span} {cs : List Ast} {hooks : HookRegistry} {b : Subject}

/-! ### Verdicts -/

/-- What happens to a candidate is decided by what it is, by the `super` in it and by whether it has a
scope. -/
theorem Job.prepare_cases (job : Job) (c : Candidate) :
    (c.isGenerator = true ∧ job.prepare c = .error (.unsupported .generator)) ∨
      (c.isGenerator = false ∧ c.usesSuper = true ∧
        job.prepare c = .error (.unsupported .usesSuper)) ∨
      (c.isGenerator = false ∧ c.usesSuper = false ∧ job.table.functionScope? c.span = none ∧
        job.prepare c = .error .unresolvedScope) ∨
      c.isGenerator = false ∧ c.usesSuper = false ∧
        (job.table.functionScope? c.span).isSome = true ∧ ∃ p, job.prepare c = .ok p := by
  unfold Job.prepare
  cases hgen : c.isGenerator with
  | true => simp
  | false =>
    cases hsuper : c.usesSuper with
    | true => simp
    | false =>
      have hspan : (c.unmarked job.config.marker).span = c.span := rfl
      cases hscope : job.table.functionScope? c.span <;> simp [capture, hspan, hscope]

/-- A function is met as another when its turn comes. -/
inductive Subject.Meets : Subject → Subject → Prop
  | candidate {c c' : Candidate} : c.Agrees c' → c.SearchKept c' →
    Subject.Meets (.candidate c) (.candidate c')
  | unsupported {shape : Shape} {span : Span} {body body' : Ast} :
    Subject.Meets (.unsupported shape span body) (.unsupported shape span body')

theorem subject?_meets {job : Job} {w : Slot} {cs' : List Ast} {tr : Trace} {a : Subject}
    (h : BecomesAll job (job.config.hooks.childSlot w (.node k s cs)) cs cs' tr)
    (ha : subject? w (.node k s cs) = some a) (hb : subject? w (.node k s cs') = some b) :
    a.Meets b := by
  have hrel := subject?_becomes h
  rw [ha, hb] at hrel
  cases hrel with
  | some hagrees =>
    cases hagrees with
    | candidate hagrees => exact .candidate hagrees (subject?_searchKept h ha hb)
    | unsupported _ => exact .unsupported

/-- What is said of a candidate of a module and its fate, with the region where it stands and the
candidate as it was when its turn came. -/
structure Judged (job : Job) (module : Ast) (c : Candidate) (fate : Fate) (r : Region)
    (met : Candidate) : Prop where
  region : (c.span, r) ∈ regionsOf .code module
  agrees : c.Agrees met
  /-- A `super` that is found was there before. -/
  super_before : met.usesSuper = true → c.usesSuper = true
  /-- A `super` that was there before is found, unless it stood in the types of an arrow. -/
  super_after : c.usesSuper = true → met.usesSuper = true ∨ c.DropsSuper
  converted : r = .code ∨ r.isHidden = true →
    ((∃ e, fate = .converted e) ↔
      c.isGenerator = false ∧ met.usesSuper = false ∧ r.isHidden = false)
  unresolved : r = .code ∨ r.isHidden = true →
    (fate = .refused .unresolvedScope ↔
      c.isGenerator = false ∧ met.usesSuper = false ∧ r.isHidden = true)
  /-- In code the scope that is found is the candidate's, and is no other function's. -/
  scope : r = .code → ∃ own, job.table.functionScope? met.span = some own ∧
    (∃ f ∈ functionsOf module, f.span = c.span ∧
      ∃ around, ScopeTable.Captures job.table own ⟨f.span, .function, f.facts, around⟩) ∧
    ∀ s, job.table.functionScope? s = some own → s = c.span

/-- What happens to a candidate that is no generator and mentions no `super`. -/
theorem Judged.of_supported {job : Job} {module : Ast} {c met : Candidate} {fate : Fate} {r : Region}
    (h : Judged job module c fate r met) (hg : c.isGenerator = false) (hs : c.usesSuper = false) :
    (r = .code → ∃ e, fate = .converted e) ∧
      (r.isHidden = true → fate = .refused .unresolvedScope) := by
  have hmet : met.usesSuper = false := by
    by_contra hm
    have := h.super_before (by simpa using hm)
    simp [hs] at this
  constructor
  · rintro rfl
    exact (h.converted (.inl rfl)).2 ⟨hg, hmet, rfl⟩
  · intro hr
    exact (h.unresolved (.inr hr)).2 ⟨hg, hmet, hr⟩

section Judged

variable {job : Job} {module : Ast} {c met : Candidate} {site : FunctionSite} {fate : Fate}

theorem own_scope_of_code (htable : job.table = .ofModule module)
    (hd : (functionSpans module).Nodup) (hs : s.isMade = false)
    (h : (s, .code) ∈ regionsOf .code module) :
    ∃ own, job.table.functionScope? s = some own ∧
      (∃ f ∈ functionsOf module, f.span = s ∧
        ∃ around, ScopeTable.Captures job.table own ⟨f.span, .function, f.facts, around⟩) ∧
      ∀ s', job.table.functionScope? s' = some own → s' = s := by
  rw [htable]
  obtain ⟨own, hown⟩ := Option.isSome_iff_exists.1 (functionScope?_isSome_of_code h hs)
  have hperm := map_span_functionsOf module .code
  have hnodup : ((functionsOf module).map (·.span)).Nodup :=
    hperm.nodup_iff.2 (hd.sublist (map_fst_regionsOf .code module))
  obtain ⟨f, hf, rfl⟩ := List.mem_map.1 (hperm.mem_iff.2 (List.mem_map_of_mem h))
  exact ⟨own, hown, ⟨f, hf, rfl, understood_of_mem module hnodup hf own hown⟩,
    fun s' hs' => functionScope?_injective hs' hown⟩

theorem Decides.ignored_iff (h : Decides job site b fate) :
    fate = .ignored ↔ site.reason? job.config.marker = none := by
  cases h with
  | ignored hnone => simp [hnone]
  | converted hreason _ => simp [hreason]
  | refused hreason _ => simp [Option.isSome_iff_ne_none.1 hreason]

/-- A function of a form that is never converted is refused for its form. -/
theorem Decides.unsupported_eq {shape : Shape} {span : Span} {body : Ast}
    (h : Decides job site (.unsupported shape span body) fate)
    (hreason : (site.reason? job.config.marker).isSome = true) :
    fate = .refused (.unsupported shape) := by
  cases h with
  | ignored hnone =>
    rw [hnone] at hreason
    cases hreason
  | converted _ hp => cases hp
  | refused _ hp =>
    cases hp
    rfl

/-- What happens to a candidate that is asked for, by whether it has a scope. -/
theorem Decides.candidate_iff (hreason : (site.reason? job.config.marker).isSome = true)
    (h : Decides job site (.candidate met) fate) :
    ((∃ e, fate = .converted e) ↔ met.isGenerator = false ∧ met.usesSuper = false ∧
        (job.table.functionScope? met.span).isSome = true) ∧
      (fate = .refused .unresolvedScope ↔ met.isGenerator = false ∧ met.usesSuper = false ∧
        (job.table.functionScope? met.span).isSome = false) := by
  cases h with
  | ignored hnone =>
    rw [hnone] at hreason
    cases hreason
  | converted _ hp =>
    change job.prepare met = _ at hp
    rcases job.prepare_cases met with ⟨_, he⟩ | ⟨_, _, he⟩ | ⟨_, _, _, he⟩ | ⟨hg, hs, hscope, _⟩
    · exact absurd (he.symm.trans hp) nofun
    · exact absurd (he.symm.trans hp) nofun
    · exact absurd (he.symm.trans hp) nofun
    · simp [hg, hs, hscope]
  | refused _ hp =>
    change job.prepare met = _ at hp
    rcases job.prepare_cases met with
      ⟨hg, he⟩ | ⟨hg, hs, he⟩ | ⟨hg, hs, hscope, he⟩ | ⟨_, _, _, _, he⟩
    · cases he.symm.trans hp
      simp [hg]
    · cases he.symm.trans hp
      simp [hs]
    · cases he.symm.trans hp
      simp [hg, hs, hscope]
    · exact absurd (he.symm.trans hp) nofun

/-- **What happens to a candidate that is asked for is what is said of it.** -/
theorem judged_of_decides (htable : job.table = .ofModule module)
    (hd : (functionSpans module).Nodup) (hmade : ∀ s ∈ functionSpans module, s.isMade = false)
    {r : Region} (hr : (c.span, r) ∈ regionsOf .code module) (ha : c.Agrees met)
    (hk : c.SearchKept met) (hreason : (site.reason? job.config.marker).isSome = true)
    (h : Decides job site (.candidate met) fate) : Judged job module c fate r met := by
  have hs : c.span.isMade = false :=
    hmade _ ((map_fst_regionsOf .code module).subset (List.mem_map_of_mem hr))
  have hscope : r = .code ∨ r.isHidden = true →
      (job.table.functionScope? met.span).isSome = !r.isHidden := by
    rw [htable, ha.span]
    rintro (rfl | hh)
    · exact functionScope?_isSome_of_code hr hs
    · rw [functionScope?_eq_none_of_hidden hd hr hh, hh]
      rfl
  obtain ⟨hconverted, hunresolved⟩ := h.candidate_iff hreason
  rw [ha.isGenerator] at hconverted hunresolved
  refine ⟨hr, ha, hk.back, hk.forth, fun hplace => ?_, fun hplace => ?_, ?_⟩
  · rw [hconverted, hscope hplace, Bool.not_eq_true']
  · rw [hunresolved, hscope hplace, Bool.not_eq_false']
  · rintro rfl
    rw [ha.span]
    exact own_scope_of_code htable hd hs hr

end Judged

/-- **Which functions of a program are converted.** If no two functions have one span and none has the
span of what is made, then of the functions that somebody asks for, for the marker or for the slot,
those of a form that is never converted are refused for the form, and a candidate is converted if and
only if it is no generator, no `super` is found in it, and it does not stand in a type, a namespace, an
enumeration, a decorator of a constructor's parameter, the pattern of one that declares a property (but
for its default), the first parameter of a setter that has two, or an import; the scope is found to be
missing exactly for those that stand there and would be converted elsewhere. Only where nothing but a
name or a type can stand is nothing said. -/
theorem transform_verdicts (config : Config) (p : Program) (hroot : isModule p.module = true)
    (hd : (functionSpans p.module).Nodup)
    (hmade : ∀ s ∈ functionSpans p.module, s.isMade = false) :
    ∃ fates : List (FunctionSite × Fate),
      fates.map Prod.fst = functionSites config.hooks .plain p.module ∧
      (transform config p).conversions.Perm
        (convertedIn (fates.flatMap fun x => x.2.entries (.ofProgram config p) x.1)) ∧
      (transform config p).diagnostics.Perm
        (refusedIn (fates.flatMap fun x => x.2.entries (.ofProgram config p) x.1)) ∧
      ∀ x ∈ fates, (x.2 = .ignored ↔ x.1.reason? config.marker = none) ∧
        ((x.1.reason? config.marker).isSome = true →
          (∀ shape span body, x.1.subject = .unsupported shape span body →
            x.2 = .refused (.unsupported shape)) ∧
          ∀ c, x.1.subject = .candidate c →
            ∃ r met, Judged (.ofProgram config p) p.module c x.2 r met) := by
  obtain ⟨module, entries, hb, -, hconverted, hrefused, -⟩ := transform_becomes config hroot
  obtain ⟨fates, hsites, hdecided, hentries⟩ :=
    hb.yieldsBy (R := fun s o => ∃ met, s.subject.Meets met ∧ Decides (.ofProgram config p) s met o)
      fun hcs ha hb _ ho => ⟨_, subject?_meets hcs ha hb, ho⟩
  simp only [Trace.entries, List.append_nil] at hentries
  refine ⟨fates, hsites, ?_, ?_, fun x hx => ?_⟩
  · rw [hconverted]
    exact hentries.filterMap _
  · rw [hrefused]
    exact hentries.filterMap _
  obtain ⟨met, hmeets, hdecides⟩ := hdecided x hx
  refine ⟨hdecides.ignored_iff, fun hreason => ⟨fun shape span body hsubject => ?_, fun c hsubject => ?_⟩⟩
  · rw [hsubject] at hmeets
    cases hmeets
    exact hdecides.unsupported_eq hreason
  · rw [hsubject] at hmeets
    have hmem : x.1 ∈ functionSites config.hooks .plain p.module := hsites ▸ List.mem_map_of_mem hx
    obtain ⟨r, hr⟩ := located_of_mem hmem hsubject .code
    cases hmeets with
    | candidate ha hk => exact ⟨r, _, judged_of_decides rfl hd hmade hr ha hk hreason hdecides⟩

/-- `namespace N { let g = () => { "worklet"; return 1; }; }`
`const f = () => { "worklet"; return 2; };` -/
def sampleSpace : Program where
  filename := "/app/a.ts"
  text := []
  module :=
    made (.module none)
      [made (.namespaceDecl .namespaceWord false)
        [madeIdent "N",
         made .moduleBlock
          [madeVar .let "g"
            (.node (.arrow false) ⟨23, 53⟩
              [.list [], made .block [madeStatement (madeString "worklet"), madeReturn (madeNumber 1)],
               .absent, .absent])]],
       madeVar .const "f"
        (.node (.arrow false) ⟨67, 97⟩
          [.list [], made .block [madeStatement (madeString "worklet"), madeReturn (madeNumber 2)],
           .absent, .absent])]
  comments := default

/-- The function in the namespace is refused for its scope, and the other is converted. -/
theorem transform_verdicts_sampleSpace :
    ∃ fates : List (FunctionSite × Fate),
      fates.map Prod.fst = functionSites .standard .plain sampleSpace.module ∧
      ∀ x ∈ fates, (x.1.span = ⟨23, 53⟩ ∧ x.2 = .refused .unresolvedScope) ∨
        (x.1.span = ⟨67, 97⟩ ∧ ∃ e, x.2 = .converted e) := by
  obtain ⟨fates, hsites, -, -, hverdicts⟩ :=
    transform_verdicts .standard sampleSpace rfl (by decide +kernel) (by decide +kernel)
  refine ⟨fates, hsites, fun x hx => ?_⟩
  obtain ⟨g, f, hlist, hg, hf⟩ : ∃ g f : Candidate,
      functionSites .standard .plain sampleSpace.module =
        [⟨.candidate g, none, []⟩, ⟨.candidate f, none, []⟩] ∧
      (g.span = ⟨23, 53⟩ ∧ hasDirective Config.standard.marker g.body = true ∧ g.isGenerator = false ∧
        g.usesSuper = false) ∧
      f.span = ⟨67, 97⟩ ∧ hasDirective Config.standard.marker f.body = true ∧ f.isGenerator = false ∧
        f.usesSuper = false :=
    ⟨_, _, rfl, by decide +kernel, by decide +kernel⟩
  have hregions : regionsOf .code sampleSpace.module = [(⟨23, 53⟩, .space), (⟨67, 97⟩, .code)] := by
    decide +kernel
  have hmem : x.1 ∈ functionSites .standard .plain sampleSpace.module := hsites ▸ List.mem_map_of_mem hx
  have hjudged := (hverdicts x hx).2
  rw [hlist, List.mem_cons, List.mem_singleton] at hmem
  rcases hmem with hsite | hsite
  · rw [hsite] at hjudged ⊢
    obtain ⟨r, met, h⟩ :=
      (hjudged (by simp [FunctionSite.reason?, FunctionSite.isMarked, Subject.body, hg])).2 g rfl
    obtain rfl : r = .space := by simpa [hregions, hg.1] using h.region
    exact .inl ⟨hg.1, (h.of_supported hg.2.2.1 hg.2.2.2).2 rfl⟩
  · rw [hsite] at hjudged ⊢
    obtain ⟨r, met, h⟩ :=
      (hjudged (by simp [FunctionSite.reason?, FunctionSite.isMarked, Subject.body, hf])).2 f rfl
    obtain rfl : r = .code := by simpa [hregions, hf.1] using h.region
    exact .inr ⟨hf.1, (h.of_supported hf.2.2.1 hf.2.2.2).1 rfl⟩

/-- `let x: { [(() => { "worklet"; return "a"; })()]: string };` -/
def sampleTypeKey : Program where
  filename := "/app/a.ts"
  text := []
  module :=
    made (.module none)
      [made (.varDecl .let false)
        [made (.declarator false)
          [made (.bindName false)
            [madeIdent "x",
             made .typeAnn
              [made .typeLit
                [made (.propSignature false false true)
                  [madeCall
                    (madeParen
                      (.node (.arrow false) ⟨12, 44⟩
                        [.list [],
                         made .block [madeStatement (madeString "worklet"), madeReturn (madeString "a")],
                         .absent, .absent])) [],
                   made .typeAnn [made (.keywordType "string") []]]]]],
           .absent]]]
  comments := default

/-- A function that stands in a type is refused, though it is marked, is no generator and mentions no
`super`, and there is no namespace, no enumeration and no decorator. -/
theorem transform_sampleTypeKey :
    isModule sampleTypeKey.module = true ∧ (functionSpans sampleTypeKey.module).Nodup ∧
      (∀ s ∈ functionSpans sampleTypeKey.module, s.isMade = false) ∧
      (∃ site ∈ functionSites .standard .plain sampleTypeKey.module, ∃ c,
        site.subject = .candidate c ∧ site.isMarked Config.standard.marker = true ∧
          c.body.isAbsent = false ∧ c.isGenerator = false ∧ c.usesSuper = false) ∧
      regionsOf .code sampleTypeKey.module = [(⟨12, 44⟩, .type)] ∧
      (transform .standard sampleTypeKey).conversions.length = 0 ∧
      (transform .standard sampleTypeKey).diagnostics.map (·.refusal) = [.unresolvedScope] :=
  ⟨rfl, by decide +kernel, by decide +kernel,
    ⟨_, List.mem_cons_self, _, rfl, by decide +kernel, by decide +kernel, by decide +kernel,
      by decide +kernel⟩,
    by decide +kernel, by decide +kernel, by decide +kernel⟩

end Worklet
