import Worklet.Proofs.Convert.Run
import Worklet.Proofs.Scope.Regions

/-!
# Every function has one fate

What a program's conversions and diagnostics are, function by function: a function that nobody asks
for is left alone, and any other is converted or reported. Who asks is decided by the program as it
was read.

Principal results: `Becomes.yieldsBy`, `Becomes.yields` — what a tree leaves is what happened to its
functions; `transform_fates` — for a program.
-/

set_option autoImplicit false

namespace Worklet

open Syntax

/-! ### Where candidates stand -/

section Located

variable {w : Slot} {t u : Ast} {c : Candidate} {k : Kind} {sp s : Span} {cs : List Ast}
  {hooks : HookRegistry}

/-- A function of the tree has the span, whatever the region of the tree. -/
def Located (s : Span) (t : Ast) : Prop :=
  ∀ q, ∃ r, (s, r) ∈ regionsOf q t

theorem Located.own (h : functionSpan? (.node k sp cs) = some s) : Located s (.node k sp cs) := by
  intro q
  exact ⟨q, by simp [regionsOf, h]⟩

theorem Located.child (hu : u ∈ cs) (h : Located s u) :
    Located s (.node k sp cs) := by
  intro q
  obtain ⟨i, hi⟩ := List.mem_iff_getElem?.1 hu
  obtain ⟨r, hr⟩ := h (q.ofPart (.node k sp cs) i)
  exact ⟨r, by rw [regionsOf, List.mem_append]; exact .inr (mem_regionsOfAll.2 ⟨i, u, hi, hr⟩)⟩

theorem Located.item {ts : List Ast} (hu : u ∈ ts) (h : Located s u) : Located s (.list ts) := by
  intro q
  obtain ⟨i, hi⟩ := List.mem_iff_getElem?.1 hu
  obtain ⟨r, hr⟩ := h (q.ofPart (.list ts) i)
  exact ⟨r, by rw [regionsOf]; exact mem_regionsOfAll.2 ⟨i, u, hi, hr⟩⟩

theorem located_ofFunction {kind : FunctionKind} {name : Option String} {f : Ast}
    (h : Candidate.ofFunction kind name f = some c) : Located c.span f := by
  obtain ⟨_, _, _, _, _, _, _, _, rfl, -, -, rfl⟩ := Candidate.ofFunction_eq_some h
  exact .own rfl

/-- The function that a node is stands in it. -/
theorem located_of_subject? (h : subject? w t = some (.candidate c)) : Located c.span t := by
  rw [← subject?_form?] at h
  obtain ⟨f, hf, hc⟩ := Option.map_eq_some_iff.1 h
  cases FormOf.of_form? hf with
  | expression _ ho | declaration _ ho | method ho =>
    cases hc
    exact (located_ofFunction ho).child (by simp)
  | arrow ho =>
    cases hc
    obtain ⟨_, _, _, _, _, ⟨⟩, rfl⟩ := Candidate.ofArrow_eq_some ho
    exact .own rfl
  | getter ho =>
    cases hc
    obtain ⟨_, _, _, _, ⟨⟩, -, rfl⟩ := Candidate.ofGetter_eq_some ho
    exact .own rfl
  | setter ho =>
    cases hc
    obtain ⟨_, _, _, _, _, ⟨⟩, -, rfl⟩ := Candidate.ofSetter_eq_some ho
    exact .own rfl
  | privateMethod _ => cases hc
  | classMethod _ _ ho | classAccessor _ _ ho =>
    cases hc
    exact (located_ofFunction ho).child (by simp)
  | constructor => cases hc
  | @namedDefault _ fs name g _ _ _ ho | @namelessDefault _ fs name g _ _ ho =>
    cases hc
    have hin : Located c.span (.node .funcExpr fs [name, g]) := (located_ofFunction ho).child (by simp)
    exact hin.child (by simp)

mutual

theorem located_of_mem : ∀ {w : Slot} {t : Ast} {site : FunctionSite}
    {c : Candidate}, site ∈ functionSites hooks w t → site.subject = .candidate c → Located c.span t
  | _, .absent, _, _, h, _ => by simp [functionSites] at h
  | _, .list ts, _, _, h, hc => by
    rw [functionSites] at h
    obtain ⟨t, ht, hl⟩ := located_of_memAll h hc
    exact hl.item ht
  | w, .node k s cs, site, c, h, hc => by
    rw [functionSites, List.mem_append] at h
    rcases h with h | h
    · obtain ⟨t, ht, hl⟩ := located_of_memAll h hc
      exact hl.child ht
    · obtain ⟨subject, hs, rfl⟩ := Option.map_eq_some_iff.1 (Option.mem_toList.1 h)
      cases hc
      exact located_of_subject? hs

theorem located_of_memAll : ∀ {ws : Nat → Slot} {ts : List Ast}
    {site : FunctionSite} {c : Candidate}, site ∈ functionSitesAll hooks ws ts →
    site.subject = .candidate c → ∃ t ∈ ts, Located c.span t
  | _, [], _, _, h, _ => by simp [functionSitesAll] at h
  | ws, t :: ts, _, _, h, hc => by
    rw [functionSitesAll, List.mem_append] at h
    rcases h with h | h
    · exact ⟨t, List.mem_cons_self, located_of_mem h hc⟩
    · obtain ⟨u, hu, hl⟩ := located_of_memAll h hc
      exact ⟨u, List.mem_cons_of_mem _ hu, hl⟩

end

end Located

/-! ### Fates -/

/-- What happened to a function. -/
inductive Fate where
  /-- Nobody asked for it. -/
  | ignored
  | converted (e : Conversion)
  | refused (refusal : Refusal)

/-- The function stays although it was asked for. -/
def Fate.isRefused : Fate → Bool
  | .refused _ => true
  | _ => false

/-- How often a function is asked for: for its marker and for its slot. -/
def FunctionSite.asked (marker : String) (s : FunctionSite) : Nat :=
  (s.isMarked marker).toNat + s.detected.isSome.toNat

variable {s : FunctionSite} {cache : Option String}

theorem FunctionSite.reason?_eq_none {marker : String} :
    s.reason? marker = none ↔ s.isMarked marker = false ∧ s.detected = none := by
  unfold FunctionSite.reason?
  cases s.isMarked marker <;> simp

theorem FunctionSite.asked_eq_zero {marker : String} :
    s.asked marker = 0 ↔ s.reason? marker = none := by
  unfold FunctionSite.reason? FunctionSite.asked
  cases s.isMarked marker <;> cases s.detected <;> simp

def Fate.entries (job : Job) (s : FunctionSite) : Fate → List Entry
  | .ignored => []
  | .converted e => [.converted e]
  | .refused refusal =>
    List.replicate (s.asked job.config.marker) (.refused ⟨refusal, job.locate s.span⟩)

/-- What can happen to a function: it is left alone if nobody asks for it, and otherwise it is
converted for the reason that it was asked for, or stays. -/
inductive Fits (job : Job) (s : FunctionSite) : Fate → Prop
  | ignored : s.reason? job.config.marker = none → Fits job s .ignored
  | converted {c : Candidate} {e : Conversion} : s.subject = .candidate c →
    e.prepared.candidate.kind = c.kind → e.prepared.candidate.name = c.name →
    e.prepared.candidate.span = c.span → s.reason? job.config.marker = some e.reason →
    Fits job s (.converted e)
  | refused {refusal : Refusal} : (s.reason? job.config.marker).isSome = true →
    (∀ shape span body, s.subject = .unsupported shape span body → refusal = .unsupported shape) →
    Fits job s (.refused refusal)

/-- What happens to a function that is met as another, with the functions inside it converted. -/
inductive Decides (job : Job) (s : FunctionSite) (met : Subject) : Fate → Prop
  | ignored : s.reason? job.config.marker = none → Decides job s met .ignored
  | converted {e : Conversion} : s.reason? job.config.marker = some e.reason →
    met.prepare job = .ok e.prepared → Decides job s met (.converted e)
  | refused {refusal : Refusal} : (s.reason? job.config.marker).isSome = true →
    met.prepare job = .error refusal → Decides job s met (.refused refusal)

/-- The entries are what happened to the functions, where a function and its fate are related. -/
def YieldsBy (job : Job) (R : FunctionSite → Fate → Prop) (sites : List FunctionSite)
    (entries : List Entry) : Prop :=
  ∃ fates : List (FunctionSite × Fate), fates.map Prod.fst = sites ∧
    (∀ x ∈ fates, R x.1 x.2) ∧
    entries.Perm (fates.flatMap fun x => x.2.entries job x.1)

/-- The entries are what happened to the functions. -/
def Yields (job : Job) (sites : List FunctionSite) (entries : List Entry) : Prop :=
  YieldsBy job (Fits job) sites entries

namespace YieldsBy

variable {job : Job} {R : FunctionSite → Fate → Prop} {sites sites' : List FunctionSite}
  {entries entries' : List Entry}

theorem nil : YieldsBy job R [] [] :=
  ⟨[], rfl, by simp, .nil⟩

theorem single {o : Fate} (h : R s o) : YieldsBy job R [s] (o.entries job s) :=
  ⟨[(s, o)], rfl, by simpa using h, by simp⟩

theorem perm (h : YieldsBy job R sites entries) (hp : entries'.Perm entries) :
    YieldsBy job R sites entries' := by
  obtain ⟨fates, hsites, hfits, hentries⟩ := h
  exact ⟨fates, hsites, hfits, hp.trans hentries⟩

theorem append (h : YieldsBy job R sites entries) (h' : YieldsBy job R sites' entries') :
    YieldsBy job R (sites ++ sites') (entries ++ entries') := by
  obtain ⟨fates, rfl, hfits, hentries⟩ := h
  obtain ⟨fates', rfl, hfits', hentries'⟩ := h'
  refine ⟨fates ++ fates', List.map_append, ?_, ?_⟩
  · intro x hx
    rcases List.mem_append.1 hx with hx | hx
    · exact hfits x hx
    · exact hfits' x hx
  · rw [List.flatMap_append]
    exact hentries.append hentries'

end YieldsBy

/-! ### Nodes -/

section Becomes

variable {job : Job} {w : Slot} {t t' : Ast} {tr : Trace}

theorem detects_node (w : Slot) (k : Kind) (s : Span) (cs cs' : List Ast) :
    w.detects (.node k s cs') = w.detects (.node k s cs) := by
  cases w <;> cases k <;> rfl

/-- A function that is prepared is the candidate that it was. -/
theorem Subject.Agrees.of_prepare {a b : Subject} {p : Prepared} (h : a.Agrees b)
    (hp : b.prepare job = .ok p) :
    ∃ c, a = .candidate c ∧ p.candidate.kind = c.kind ∧ p.candidate.name = c.name ∧
      p.candidate.span = c.span := by
  cases h with
  | @candidate c c' h =>
    obtain ⟨hcandidate, -⟩ := Job.prepare_eq_ok hp
    refine ⟨c, rfl, ?_, ?_, ?_⟩
    · rw [hcandidate, ← h.kind]
      rfl
    · rw [hcandidate, ← h.name]
      rfl
    · rw [hcandidate, ← h.span]
      rfl
  | unsupported _ => cases hp

/-- What happens to a function that is met as another fits it. -/
theorem Decides.fits {site : FunctionSite} {met : Subject} {o : Fate} (ha : site.subject.Agrees met)
    (h : Decides job site met o) : Fits job site o := by
  cases h with
  | ignored hreason => exact .ignored hreason
  | converted hreason hp =>
    obtain ⟨c, hsubject, hkind, hname, hspan⟩ := ha.of_prepare hp
    exact .converted hsubject hkind hname hspan hreason
  | refused hreason hp =>
    refine .refused hreason fun shape span body hsubject => ?_
    rw [hsubject] at ha
    cases ha
    cases hp
    rfl

theorem Form.treat_decides {f : Form} (site : FunctionSite) {own : Trace}
    (ha : site.subject.Agrees f.subject) (h : f.treat job site.detected t cache = (t', own)) :
    ∃ o, Decides job site f.subject o ∧ own.entries.Perm (o.entries job site) := by
  have hmarked : site.isMarked job.config.marker = job.isMarked f.subject.body :=
    (ha.hasDirective_eq _).symm
  rcases Form.treat_cases h with
    ⟨refusal, hp, -, rfl⟩ | ⟨p, hp, ⟨hm, hd, -, rfl⟩ | ⟨hm, -, rfl⟩ | ⟨reason, hm, hd, -, rfl⟩⟩
  · rw [← hmarked, ← ha.span_eq.symm]
    cases hreason : site.reason? job.config.marker with
    | none =>
      obtain ⟨hm, hd⟩ := FunctionSite.reason?_eq_none.1 hreason
      refine ⟨.ignored, .ignored hreason, ?_⟩
      simp [Trace.entries, hm, hd, Fate.entries]
    | some reason =>
      refine ⟨.refused refusal, .refused (by simp [hreason]) hp, ?_⟩
      simp only [Trace.entries, Fate.entries, FunctionSite.asked, FunctionSite.span]
      cases site.isMarked job.config.marker <;> cases site.detected <;>
        simp [List.replicate_succ]
  · have hreason : site.reason? job.config.marker = none := by
      simp [FunctionSite.reason?, hmarked, hm, hd]
    exact ⟨.ignored, .ignored hreason, .nil⟩
  · refine ⟨.converted _, .converted ?_ hp, .refl _⟩
    simp [FunctionSite.reason?, hmarked, hm]
  · refine ⟨.converted _, .converted ?_ hp, .refl _⟩
    simp [FunctionSite.reason?, hmarked, hm, hd]

theorem treat_yieldsBy {R : FunctionSite → Fate → Prop} {k : Kind} {s : Span} {cs cs' : List Ast}
    {inner : List Span} {own : Trace}
    (ha : Option.Rel Subject.Agrees (subject? w (.node k s cs)) (subject? w (.node k s cs')))
    (hR : ∀ {a b o}, subject? w (.node k s cs) = some a → subject? w (.node k s cs') = some b →
      a.Agrees b → Decides job ⟨a, w.detects (.node k s cs), inner⟩ b o →
      R ⟨a, w.detects (.node k s cs), inner⟩ o)
    (h : treat job w (.node k s cs') cache = (t', own)) :
    YieldsBy job R ((subject? w (.node k s cs)).map fun subject =>
      FunctionSite.mk subject (w.detects (.node k s cs)) inner).toList own.entries := by
  rw [← subject?_form? w (.node k s cs')] at ha hR
  unfold treat at h
  cases hf : form? w (.node k s cs') with
  | none =>
    simp only [hf, Prod.mk.injEq] at h
    rw [hf] at ha
    generalize hs : subject? w (.node k s cs) = subject at ha
    cases ha
    rw [← h.2]
    exact .nil
  | some f =>
    simp only [hf, detects_node w k s cs cs'] at h
    rw [hf] at ha hR
    generalize hs : subject? w (.node k s cs) = subject at ha hR
    cases ha with
    | some ha =>
      obtain ⟨o, ho, hentries⟩ := Form.treat_decides ⟨_, _, inner⟩ ha h
      exact (YieldsBy.single (hR rfl rfl ha ho)).perm hentries

theorem treat_yields {k : Kind} {s : Span} {cs cs' : List Ast} {inner : List Span} {own : Trace}
    (ha : Option.Rel Subject.Agrees (subject? w (.node k s cs)) (subject? w (.node k s cs')))
    (h : treat job w (.node k s cs') cache = (t', own)) :
    Yields job ((subject? w (.node k s cs)).map fun subject =>
      FunctionSite.mk subject (w.detects (.node k s cs)) inner).toList own.entries :=
  treat_yieldsBy ha (fun _ _ ha ho => ho.fits ha) h

theorem functionSites_statements {hooks : HookRegistry} {k : Kind} (hk : isStatementList k = true)
    (w : Slot) (s : Span) (ss : List Ast) :
    functionSites hooks w (.node k s ss) = functionSitesAll hooks (fun _ => .statement) ss := by
  have hslots : hooks.childSlot w (.node k s ss) = fun _ => .statement := by
    funext i
    revert hk
    fun_cases isStatementList k with
    | case4 => simp
    | _ => exact fun _ => rfl
  have hsubject : subject? w (.node k s ss) = none := by
    revert hk
    fun_cases isStatementList k with
    | case4 => simp
    | _ => exact fun _ => rfl
  rw [functionSites, hslots, hsubject]
  exact List.append_nil _

theorem functionSites_switchCase {hooks : HookRegistry} (w : Slot) (s : Span) (test : Ast)
    (ss : List Ast) :
    functionSites hooks w (.node .switchCase s (test :: ss)) =
      functionSites hooks .plain test ++ functionSitesAll hooks (fun _ => .statement) ss := by
  rw [functionSites, functionSitesAll]
  exact List.append_nil _

/-- What is gathered from the functions of a tree and the entries that it leaves. -/
theorem Becomes.gathers {G : List FunctionSite → List Entry → Prop} (nil : G [] [])
    (node : ∀ {w k s cs cs' t' tr own cache},
      BecomesAll job (job.config.hooks.childSlot w (.node k s cs)) cs cs' tr →
      treat job w (.node k s cs') cache = (t', own) →
      G (functionSitesAll job.config.hooks (job.config.hooks.childSlot w (.node k s cs)) cs) tr.entries →
      G (functionSites job.config.hooks w (.node k s cs)) (tr.through k ++ own).entries)
    (both : ∀ {sites ws ts} {a b : Trace}, G sites a.entries →
      G (functionSitesAll job.config.hooks ws ts) b.entries →
      G (sites ++ functionSitesAll job.config.hooks ws ts) (a ++ b).entries)
    (h : Becomes job w t t' tr) : G (functionSites job.config.hooks w t) tr.entries := by
  have plain (entries : List Entry) : ({ now := entries } : Trace).entries = entries :=
    List.append_nil _
  refine Becomes.induct
    (P := fun w t _ tr => G (functionSites job.config.hooks w t) tr.entries)
    (Q := fun ws ts _ tr => G (functionSitesAll job.config.hooks ws ts) tr.entries)
    (R := fun ts _ entries => G (functionSitesAll job.config.hooks (fun _ => .statement) ts) entries)
    ?absent ?list ?node ?statements ?switchCase ?nil ?cons ?none ?statement h
  case absent => exact fun _ => nil
  case list => exact fun _ _ _ _ ih => ih
  case node => exact fun _ _ _ _ _ _ _ _ _ _ hcs ht ih => node hcs ht ih
  case statements =>
    intro w k s ss ss' entries hk _ ih
    rwa [functionSites_statements hk, plain]
  case switchCase =>
    intro w s test test' ss ss' tr entries _ _ ih ihs
    rw [functionSites_switchCase]
    exact both ih (by rwa [plain])
  case nil => exact fun _ => nil
  case cons => exact fun _ _ _ _ _ _ _ _ _ ih ihs => both ih ihs
  case none => exact nil
  case statement =>
    intro t t' ts ts' tr entries _ _ ih ihs
    have hboth := both (a := { now := tr.entries }) (b := { now := entries })
      (by rwa [plain]) (by rwa [plain])
    rwa [show (({ now := tr.entries } : Trace) ++ { now := entries }).entries = _ from plain _] at hboth

/-- **What a tree leaves is what happened to its functions**, for any relation between a function and
its fate that what is decided of a function implies. -/
theorem Becomes.yieldsBy {R : FunctionSite → Fate → Prop}
    (hR : ∀ {w k s cs cs' tr a b inner o},
      BecomesAll job (job.config.hooks.childSlot w (.node k s cs)) cs cs' tr →
      subject? w (.node k s cs) = some a → subject? w (.node k s cs') = some b → a.Agrees b →
      Decides job ⟨a, w.detects (.node k s cs), inner⟩ b o →
      R ⟨a, w.detects (.node k s cs), inner⟩ o)
    (h : Becomes job w t t' tr) :
    YieldsBy job R (functionSites job.config.hooks w t) tr.entries := by
  refine h.gathers .nil (fun hcs ht ih => ?_) fun ih ihs =>
    (ih.append ihs).perm (Trace.entries_append_perm _ _)
  refine YieldsBy.perm ?_ (Trace.entries_append_perm _ _)
  rw [Trace.through_entries]
  exact ih.append (treat_yieldsBy (subject?_becomes hcs) (hR hcs) ht)

/-- What a tree leaves fits its functions. -/
theorem Becomes.yields (h : Becomes job w t t' tr) :
    Yields job (functionSites job.config.hooks w t) tr.entries :=
  h.yieldsBy fun _ _ _ ha ho => ho.fits ha

end Becomes

/-! ### Counting -/

theorem length_convertedIn_add (entries : List Entry) :
    (convertedIn entries).length + (refusedIn entries).length = entries.length := by
  induction entries with
  | nil => rfl
  | cons e entries ih =>
    cases e <;> simp only [convertedIn, refusedIn, List.filterMap_cons, List.length_cons] at ih ⊢ <;>
      omega

/-- A function that was asked for has one entry, unless it stays and was asked for twice. -/
theorem Fits.length_entries {job : Job} {o : Fate} (h : Fits job s o) :
    (o.entries job s).length = (s.reason? job.config.marker).isSome.toNat +
      (s.isMarked job.config.marker && s.detected.isSome && o.isRefused).toNat := by
  cases h with
  | ignored hreason => simp [Fate.entries, hreason, Fate.isRefused]
  | converted _ _ _ _ hreason => simp [Fate.entries, hreason, Fate.isRefused]
  | refused hreason _ =>
    rw [hreason]
    simp only [Fate.entries, List.length_replicate, FunctionSite.asked, Fate.isRefused]
    revert hreason
    unfold FunctionSite.reason?
    cases s.isMarked job.config.marker <;> cases s.detected <;> simp

theorem length_flatMap_entries {job : Job} {fates : List (FunctionSite × Fate)}
    (h : ∀ x ∈ fates, Fits job x.1 x.2) :
    (fates.flatMap fun x => x.2.entries job x.1).length =
      (fates.map Prod.fst).countP (fun s => (s.reason? job.config.marker).isSome) +
      fates.countP fun x =>
        x.1.isMarked job.config.marker && x.1.detected.isSome && x.2.isRefused := by
  induction fates with
  | nil => rfl
  | cons x fates ih =>
    have hx := (h x (by simp)).length_entries
    have ih := ih fun y hy => h y (by simp [hy])
    have hbit (b : Bool) : b.toNat = if b = true then 1 else 0 := by cases b <;> rfl
    rw [List.flatMap_cons, List.length_append, hx, ih, List.map_cons, List.countP_cons,
      List.countP_cons, hbit, hbit]
    omega

/-- **Every function has one fate.** A function of a program that nobody asks for leaves nothing.
One that is asked for, for its marker or for its slot, leaves one conversion or one diagnostic; if
it stays and was asked for twice, it leaves its diagnostic twice. There are no other entries. -/
theorem transform_fates (config : Config) (p : Program) (hroot : isModule p.module = true) :
    ∃ fates : List (FunctionSite × Fate),
      fates.map Prod.fst = functionSites config.hooks .plain p.module ∧
      (∀ x ∈ fates, Fits (.ofProgram config p) x.1 x.2) ∧
      (transform config p).conversions.Perm
        (convertedIn (fates.flatMap fun x => x.2.entries (.ofProgram config p) x.1)) ∧
      (transform config p).diagnostics.Perm
        (refusedIn (fates.flatMap fun x => x.2.entries (.ofProgram config p) x.1)) ∧
      (transform config p).conversions.length + (transform config p).diagnostics.length =
        (functionSites config.hooks .plain p.module).countP
          (fun s => (s.reason? config.marker).isSome) +
        fates.countP fun x =>
          x.1.isMarked config.marker && x.1.detected.isSome && x.2.isRefused := by
  obtain ⟨module, entries, hb, -, hconverted, hrefused, -⟩ := transform_becomes config hroot
  obtain ⟨fates, hsites, hfits, hentries⟩ := hb.yields
  simp only [Trace.entries, List.append_nil] at hentries
  refine ⟨fates, hsites, hfits, ?_, ?_, ?_⟩
  · rw [hconverted]
    exact hentries.filterMap _
  · rw [hrefused]
    exact hentries.filterMap _
  · rw [hconverted, hrefused, length_convertedIn_add, hentries.length_eq,
      length_flatMap_entries hfits, hsites]
    rfl

/-- `useAnimatedStyle(function* () { "worklet"; });`
`useDerivedValue(() => { return () => { "worklet"; return 1; }; });` -/
def sampleHooks : Program where
  filename := "/app/a.js"
  text := []
  module :=
    made (.module none)
      [madeStatement (madeCall (madeIdent "useAnimatedStyle")
        [made .funcExpr [.absent,
          .node (.function false true) ⟨18, 46⟩
            [.list [], .list [], made .block [madeStatement (madeString "worklet")], .absent,
             .absent]]]),
       madeStatement (madeCall (madeIdent "useDerivedValue")
        [.node (.arrow false) ⟨65, 114⟩
          [.list [],
           made .block
            [madeReturn
              (.node (.arrow false) ⟨80, 111⟩
                [.list [],
                 made .block [madeStatement (madeString "worklet"), madeReturn (madeNumber 1)],
                 .absent, .absent])],
           .absent, .absent]])]
  comments := default

/-- Three functions are asked for, and the generator among them, which is marked and stands where a
function is a worklet, is refused twice. -/
theorem transform_fates_sampleHooks :
    (transform .standard sampleHooks).conversions.length +
        (transform .standard sampleHooks).diagnostics.length = 4 ∧
      ∃ fates : List (FunctionSite × Fate),
        fates.map Prod.fst = functionSites Config.standard.hooks .plain sampleHooks.module ∧
        fates.countP (fun x =>
          x.1.isMarked Config.standard.marker && x.1.detected.isSome && x.2.isRefused) = 1 := by
  obtain ⟨fates, hsites, -, -, -, htotal⟩ := transform_fates .standard sampleHooks rfl
  have hfour : (transform .standard sampleHooks).conversions.length +
      (transform .standard sampleHooks).diagnostics.length = 4 := by decide +kernel
  have hasked : (functionSites Config.standard.hooks .plain sampleHooks.module).countP
      (fun s => (s.reason? Config.standard.marker).isSome) = 3 := by decide +kernel
  refine ⟨hfour, fates, hsites, ?_⟩
  rw [hfour, hasked] at htotal
  omega

end Worklet
