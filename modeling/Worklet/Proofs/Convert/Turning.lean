import Worklet.Proofs.Convert.Ready
import Worklet.Proofs.Convert.Stable

/-!
# What takes the place of a function keeps its names

Principal results: `FormOf.converts` — a function whose parts are converted may be turned;
`treat_converts` — a node whose parts are converted is treated so that it keeps its names, and what
is recorded is sealed.
-/

set_option autoImplicit false

namespace Worklet

open Syntax Outline Scoping

section Turning

variable {job : Job} {given : Option Span → List String} {lost caches : List String}
  {f : FunctionFacts} {c : Candidate} {p : Prepared}

/-! ### Wrappers -/

/-- **The wrapper of a candidate stands for the candidate's function.** -/
theorem Renders.wraps (h : Renders job.table given lost c f) (hp : job.prepare c = .ok p) :
    Wraps given lost f p.wrapper := by
  obtain ⟨hu, hspan, X, hfacts, hk⟩ := h
  exact ⟨⟨_, _, rfl⟩, fun n hn => Job.free_wrapper hfacts hk hu hspan hp hn⟩

theorem Renders.sealed (h : Renders job.table given lost c f) (hp : job.prepare c = .ok p)
    (reason : Reason) : Sealed job.table given lost ⟨p, reason, p.candidate.toFunction⟩ := by
  obtain ⟨hu, hspan, X, hfacts, hk⟩ := h
  exact Job.sealed_toFunction hfacts hk hu hspan hp reason

theorem Renders.known (h : Renders job.table given lost c f) (hp : job.prepare c = .ok p) :
    ∃ own, job.table.functionScope? f.span = some own := by
  obtain ⟨-, own, hown, -⟩ := Job.prepare_eq_ok hp
  exact ⟨own, h.span ▸ hown⟩

theorem Wraps.keeps {f : FunctionFacts} {w : Ast} (h : Wraps given lost f w) {os : List Outline}
    (hb : Bears lost os f) : Keeps given lost caches os (outlineAs .refers w) :=
  hb.keeps fun n hn => (h.free n hn).imp_right (List.mem_append_right _)

/-- A node gives way to another that keeps its names. Neither is read in more than one way. -/
theorem Converts.gives {k k' : Kind} {s s' : Span} {cs cs' : List Ast}
    (hg : givesWay (.node k s cs) (.node k' s' cs') = true) (hp : isPatternKind k = false)
    (hb : k ≠ .block) (hp' : isPatternKind k' = false) (hb' : k' ≠ .block)
    (h : Keeps given lost caches (outlineAs .refers (.node k s cs))
      (outlineAs .refers (.node k' s' cs'))) :
    Converts given lost caches (.node k s cs) (.node k' s' cs') := by
  refine .replaced hg fun m => ?_
  rw [outlineIn_eq m hp hb, outlineIn_eq m hp' hb']
  exact h

/-- An expression gives way to what stands for its function. -/
theorem Wraps.converts {k : Kind} {sp : Span} {cs : List Ast} {f : FunctionFacts} {w : Ast}
    (h : Wraps given lost f w) (hk : k = .funcExpr ∨ ∃ a, k = .arrow a)
    (hb : Bears lost (outlineAs .refers (.node k sp cs)) f) :
    Converts given lost caches (.node k sp cs) w := by
  have hkeeps : Keeps given lost caches _ _ := h.keeps hb
  obtain ⟨callee, args, rfl⟩ := h.isCall
  rcases hk with rfl | ⟨a, rfl⟩
  · exact .gives rfl rfl (by simp) rfl (by simp) hkeeps
  · exact .gives rfl rfl (by simp) rfl (by simp) hkeeps

/-! ### Accessors -/

/-- What an accessor mentions that hands over to a wrapper. -/
theorem Wraps.free_delegate {f : FunctionFacts} {w : Ast} (h : Wraps given lost f w)
    (ha : "arguments" ∈ given (some f.span)) {cache : Option String} {n : String}
    (hn : n ∈ freeAll given (outlineIn .body (delegate w cache))) (hg : n ∉ given (some f.span)) :
    n ∈ f.free ∨ n ∈ cache.toList ++ lost := by
  rcases Worklet.free_delegate hn with hn | hn | rfl
  · exact .inr (List.mem_append_left _ hn)
  · exact (h.free n hn).imp_right (List.mem_append_right _)
  · exact absurd ha hg

/-- A body gives way to another that mentions what the function mentioned. What the parameters
took from the body is lost. -/
theorem keeps_newBody {sp : Span} {params params' body body' : List Outline}
    (hp : Keeps given lost [] params params') (ht : ∀ n ∈ taken params body, n ∈ lost)
    (hb : ∀ n ∈ freeAll given body', n ∉ given (some sp) →
      n ∈ FunctionFacts.free ⟨sp, params ++ body⟩ ∨ n ∈ caches ++ lost) :
    Keeps given lost caches [.scope .function (some sp) (params ++ body)]
      [.scope .function (some sp) (params' ++ body')] := by
  have hbears : Bears lost [.scope .function (some sp) (params ++ body)] ⟨sp, params ++ body⟩ :=
    ⟨[], rfl, by simp, by simp [hoistedAll]⟩
  refine hbears.keeps fun n hn => ?_
  simp only [freeAll, List.append_nil, mem_free_scope, freeAll_append, List.mem_append] at hn
  obtain ⟨hfree | hfree, hdecl, hgiven⟩ := hn
  · have hnew : n ∉ declared .function params' := fun h => hdecl (mem_declared_append.2 (.inl h))
    rcases hp.free n hfree with h | h | h
    · by_cases hold : n ∈ declared .function (params ++ body)
      · refine .inr (List.mem_append_right _ ?_)
        by_cases hparams : n ∈ declared .function params
        · exact (hp.declared .function hparams).resolve_left hnew
        · have hbody := (mem_declared_append.1 hold).resolve_left hparams
          exact ht n (mem_taken.2 ⟨h, hbody, hparams⟩)
      · refine .inl ?_
        rw [FunctionFacts.free, mem_free_scope]
        exact ⟨by simp [h], hold, by simp [bare]⟩
    · exact absurd (mem_declared.2 (.inl h)) hnew
    · exact .inr (List.mem_append_right _ (by simpa using h))
  · exact hb n hfree hgiven

/-- The body of an accessor gives way to one that hands over to the wrapper. -/
theorem Wraps.keeps_delegate {sp : Span} {params params' body : List Outline} {w : Ast}
    (hw : Wraps given lost ⟨sp, params ++ body⟩ w) (ha : "arguments" ∈ given (some sp))
    (hp : Keeps given lost [] params params') (ht : ∀ n ∈ taken params body, n ∈ lost)
    (cache : Option String) :
    Keeps given lost (caches ++ cache.toList) [.scope .function (some sp) (params ++ body)]
      [.scope .function (some sp) (params' ++ outlineIn .body (delegate w cache))] :=
  (keeps_newBody hp ht fun _ hn hg => hw.free_delegate ha hn hg).mono fun _ hn =>
    List.mem_append_right _ hn

theorem converts_getter {s : Span} {key key' type type' body w : Ast}
    (hkey : Converts given lost [] key key')
    (hr : Ready job.table given lost (.node .getter s [key, type, body])) {own : Nat}
    (hown : job.table.functionScope? s = some own)
    (hw : Wraps given lost ⟨s, outlineIn .body body⟩ w) (cache : Option String) :
    Converts given lost (caches ++ cache.toList) (.node .getter s [key, type, body])
      (.node .getter s [key', type', delegate w cache]) := by
  have ha := hr.accessors s (by simp [accessorSpans, ownAccessor]) own hown
  have hbody := @Wraps.keeps_delegate given lost caches s [] [] (outlineIn .body body) w hw ha
    (.refl _) (by simp [taken, freeAll]) cache
  refine .gives rfl rfl (by simp) rfl (by simp) ?_
  have := ((hkey.keeps .refers).mono (by simp)).append hbody
  simpa [outlineAs, outlineIn] using this

theorem converts_setter {s : Span} {key key' this this' param param' body w : Ast}
    (hkey : Converts given lost [] key key') (hparam : Converts given lost [] param param')
    (hr : Ready job.table given lost (.node .setter s [key, this, param, body])) {own : Nat}
    (hown : job.table.functionScope? s = some own)
    (hw : Wraps given lost ⟨s, declareAll .param (boundNames param) ++ outlineAs .binds param ++
      outlineIn .body body⟩ w) (cache : Option String) :
    Converts given lost (caches ++ cache.toList) (.node .setter s [key, this, param, body])
      (.node .setter s [key', this', param', delegate w cache]) := by
  have ha := hr.accessors s (by simp [accessorSpans, ownAccessor]) own hown
  have ht : ∀ n ∈ taken (declareAll .param (boundNames param) ++ outlineAs .binds param)
      (outlineIn .body body), n ∈ lost := fun n hn =>
    hr.leaks n (List.mem_append_left _ (List.mem_append_left _ hn))
  have hbody : Keeps given lost (caches ++ cache.toList) _ _ :=
    hw.keeps_delegate ha (keeps_pattern hparam) ht cache
  refine .gives rfl rfl (by simp) rfl (by simp) ?_
  have := ((hkey.keeps .refers).mono (by simp)).append hbody
  simpa [outlineAs, outlineIn] using this

/-- An accessor of a class hands over to its wrapper. -/
theorem converts_classAccessor {kind : MethodKind} {mods : Modifiers} {sp fs : Span} {a g : Bool}
    {key key' params decorators body f' w : Ast} {rest : List Ast} (hkind : kind ≠ .method)
    (hkey : Converts given lost caches key key')
    (hf : Converts given lost caches
      (.node (.function a g) fs (params :: decorators :: body :: rest)) f')
    (hr : Ready job.table given lost (.node (.classMethod kind mods) sp
      [key, .node (.function a g) fs (params :: decorators :: body :: rest)]))
    {own : Nat} (hown : job.table.functionScope? fs = some own)
    (hw : Wraps given lost ⟨fs, outlineAs .refers params ++ outlineIn .body body⟩ w)
    (cache : Option String) :
    Converts given lost (caches ++ cache.toList)
      (.node (.classMethod kind mods) sp
        [key, .node (.function a g) fs (params :: decorators :: body :: rest)])
      (.node (.classMethod kind mods) sp [key', withBody (delegate w cache) f']) := by
  have ha : "arguments" ∈ given (some fs) := by
    refine hr.accessors fs ?_ own hown
    cases kind with
    | getter => simp [accessorSpans, ownAccessor]
    | setter => simp [accessorSpans, ownAccessor]
    | method => exact absurd rfl hkind
  have ht : ∀ n ∈ taken (outlineAs .refers params) (outlineIn .body body), n ∈ lost := by
    intro n hn
    refine hr.leaks n (List.mem_append_left _ ?_)
    cases kind with
    | getter => simp [exposed, takenFromBody, hn]
    | setter => simp [exposed, takenFromBody, hn]
    | method => exact absurd rfl hkind
  rcases converts_function_or hf with ⟨_, _, _, cs, cs', heq, rfl, hcs⟩ | ⟨hne, -⟩
  · cases heq
    rcases hcs with _ | ⟨hparams, _ | ⟨hdecorators, _ | ⟨hbody, hrest⟩⟩⟩
    have hscope : Keeps given lost (caches ++ cache.toList) _ _ :=
      hw.keeps_delegate ha (hparams.keeps .refers) ht cache
    have := ((hkey.keeps .refers).mono (List.subset_append_left _ _)).append
      (((hdecorators.keeps .refers).mono (by simp)).append hscope)
    refine .gives rfl rfl (by simp) rfl (by simp) ?_
    simpa [withBody, outlineAs, outlineAll, isTypeKind, outlineIn] using this
  · exact absurd rfl (hne _ _ _ _)

theorem FunctionKind.ofMethod_ne_expression (kind : MethodKind) (isStatic : Bool) :
    FunctionKind.ofMethod kind isStatic ≠ .expression := by
  cases kind <;> cases isStatic <;> decide

/-! ### Declarations -/

theorem Converts.of_block {t t' : Ast} (h : Converts given lost caches t t') {sp : Span}
    {ss : List Ast} (ht' : t' = .node .block sp ss) : ∃ sp' ss', t = .node .block sp' ss' := by
  cases h with
  | absent => cases ht'
  | list _ => cases ht'
  | node _ _ =>
    cases ht'
    exact ⟨_, _, rfl⟩
  | replaced hg _ =>
    revert hg
    fun_cases givesWay t t' <;> first | (cases ht'; done) | exact fun _ => ⟨_, _, rfl⟩ | simp

/-- A body may lose its marker. -/
theorem Converts.stripDirective (marker : String) {t t' : Ast}
    (h : Converts given lost caches t t') :
    Converts given lost caches t (stripDirective marker t') := by
  have hkeeps : ∀ m, Keeps given lost caches (outlineIn m t)
      (outlineIn m (Worklet.stripDirective marker t')) := by
    intro m
    rw [outlineIn_stripDirective]
    exact h.keeps m
  unfold Worklet.stripDirective at hkeeps ⊢
  split
  · rename_i sp first rest
    split
    · rename_i hd
      simp only [hd, if_true] at hkeeps
      obtain ⟨sp', ss', rfl⟩ := h.of_block rfl
      exact .replaced rfl hkeeps
    · exact h
  · exact h

/-- The function of a declaration that stays in its place is sealed. -/
theorem sealed_declaredWith {c : Candidate} {p : Prepared} {a g : Bool} {fs : Span}
    {params params' decorators' body body' : Ast} {rest' : List Ast}
    (hparams : Converts given lost [] params params') (hbody : Converts given lost [] body body')
    (hrend : Renders job.table given lost c ⟨fs, outlineAs .refers params ++ outlineIn .body body⟩)
    (hcbody : c.body = body') (hp : job.prepare c = .ok p) (reason : Reason) :
    Sealed job.table given lost ⟨p, reason, declaredWith p.candidate.body
      (.node (.function a g) fs (params' :: decorators' :: body' :: rest'))⟩ := by
  obtain ⟨hcand, -⟩ := Job.prepare_eq_ok hp
  refine Job.sealed_of_prepare hrend.understood hrend.span hp fun n hn => ?_
  have hfacts : Keeps given lost [] (outlineAs .refers params ++ outlineIn .body body)
      (outlineAs .refers params' ++ outlineIn .body p.candidate.body) := by
    rw [hcand, Candidate.unmarked, hcbody]
    exact (hparams.keeps .refers).append ((hbody.stripDirective _).keeps .body)
  have hn' : n ∈ Outline.free given
      (.scope .function (some fs) (outlineAs .refers params' ++ outlineIn .body p.candidate.body)) := by
    simpa [declaredWith, outlineAs, outlineAll, outlineIn, freeAll] using hn
  rcases hfacts.free_scope .function _ (some fs) hn' with h | h
  · exact .inl h
  · exact .inr (.inr (by simpa using h))

theorem converts_defaultFunction {sp fs : Span} {cs cs' : List Ast}
    (h : ConvertsAll given lost caches cs cs') :
    Converts given lost caches (.node .exportDefaultDecl sp [.node .funcExpr fs cs])
      (.node .exportDefaultDecl sp [.node .funcExpr fs cs']) := by
  refine .gives rfl rfl (by simp) rfl (by simp) ?_
  have hexpr : Converts given lost caches (.node .funcExpr fs cs) (.node .funcExpr fs cs') :=
    .node rfl h
  have hkeeps := hexpr.keeps .refers
  rcases h with _ | ⟨hname, _ | ⟨hf, _ | ⟨hc, h⟩⟩⟩
  case cons.cons.nil =>
    simp only [outlineAs]
    rw [declareName, declareName, hname.identName?_eq]
    exact (Keeps.refl _).append (hf.keeps .refers)
  all_goals simpa [outlineAs, outlineAll, isTypeKind, outlineIn] using hkeeps


/-- The names that the statements after a function of a name may mention. -/
def attachable : Ast → List String
  | .node (.funcDecl _) _ [name, f] => name.identName?.toList ++ freeAll bare (outlineAs .refers f)
  | .node .exportDefaultDecl _ [.node .funcExpr _ [name, f]] =>
    name.identName?.toList ++ freeAll bare (outlineAs .refers f)
  | _ => []

/-- A function of a name loses its marker, and what is attached to it mentions its names. -/
theorem converts_declared {name name' f f' : Ast} {n : String}
    (hname : Converts given lost caches name name') (hf : Converts given lost caches f f')
    (hu : ∀ g ∈ functionsOf f, Understood job.table g) (hl : ∀ n ∈ leaks f, n ∈ lost)
    (hn : name'.identName? = some n) (hc : Candidate.ofFunction .declaration (some n) f' = some c)
    (hp : job.prepare c = .ok p) :
    Converts given lost caches f (withBody p.candidate.body f') ∧
      Attached (name.identName?.toList ++ freeAll bare (outlineAs .refers f))
        (metadataStmts n p.metadata) ∧
      ∀ reason, Sealed job.table given lost ⟨p, reason, declaredWith p.candidate.body f'⟩ := by
  obtain ⟨a, g, fs, params, decorators, body, rest, rfl, hrend⟩ :=
    renders_ofFunction hf hu hl (by simp) hc
  rcases converts_function_or hf with ⟨_, _, _, cs, cs', heq, rfl, hcs⟩ | ⟨hne, -⟩
  · cases heq
    rcases hcs with _ | ⟨hparams, _ | ⟨hdecorators, _ | ⟨hbody, hrest⟩⟩⟩
    obtain ⟨_, _, _, _, _, _, _, _, ⟨⟩, -, -, rfl⟩ := Candidate.ofFunction_eq_some hc
    refine ⟨.node rfl (.cons hparams (.cons hdecorators (.cons ?_ hrest))), .single ?_ ?_,
      sealed_declaredWith hparams hbody hrend rfl hp⟩
    · obtain ⟨hcand, -⟩ := Job.prepare_eq_ok hp
      rw [hcand]
      exact hbody.stripDirective _
    · rw [hname.identName?_eq] at hn
      simp [hn]
    · intro m hm
      have hfree := Job.closure_subset hrend.understood hrend.span hp hm
      refine List.mem_append_right _ ?_
      simpa [outlineAs, outlineIn, freeAll, FunctionFacts.free] using .inr hfree
  · exact absurd rfl (hne _ _ _ _)

/-! ### Forms -/

/-- **A function whose parts are converted may be turned**: what takes its place keeps its names, and
the function as it stands in the result is sealed. -/
theorem FormOf.converts {w : Slot} {k : Kind} {s : Span} {cs cs' : List Ast} {form : Form}
    (hform : FormOf w (.node k s cs') form) (hp : form.subject.prepare job = .ok p)
    (h : ConvertsAll given lost (if isRepeated k then [] else caches) cs cs')
    (hr : Ready job.table given lost (.node k s cs)) (cache : Option String) :
    Converts given lost (caches ++ if form.isAccessor then cache.toList else []) (.node k s cs)
        (form.turned p cache) ∧
      Attached (attachable (.node k s cs)) (form.attached p) ∧
      ∀ reason, Sealed job.table given lost ⟨p, reason, form.callable p⟩ := by
  have hexpr (hd : isDefaultFunction (.node k s cs) = false) {c : Candidate}
      (hc : Candidate.ofExpr (.node k s cs') = some c) (hp : job.prepare c = .ok p) :
      Converts given lost (caches ++ []) (.node k s cs) p.wrapper ∧
        Attached (attachable (.node k s cs)) [] ∧
        ∀ reason, Sealed job.table given lost ⟨p, reason, p.candidate.toFunction⟩ := by
    obtain ⟨k, s, cs, f, heq, hk, hb, hrend⟩ := renders_ofExpr (.node hd h) hr hc
    rw [heq] at hb ⊢
    exact ⟨(hrend.wraps hp).converts hk hb, .nil, hrend.sealed hp⟩
  cases hform with
  | expression _ hc => exact hexpr rfl hc hp
  | arrow hc => exact hexpr rfl hc hp
  | method hc =>
    rcases h with _ | ⟨hkey, _ | ⟨hf, _ | _⟩⟩
    obtain ⟨g, hb, hrend⟩ := bears_ofFunction hf (fun g hg =>
      hr.known g (by simp [functionsWithin, functionsOf, functionsOfAll, hg]))
      (hr.child rfl (by simp)).leaks (by simp) _ hc
    refine ⟨.gives rfl rfl (by simp) rfl (by simp) ?_, .nil, hrend.sealed hp⟩
    have := (hkey.keeps .refers).append ((hrend.wraps hp).keeps hb)
    simpa [Form.wrapped, outlineAs, outlineAll, isTypeKind, isRepeated, outlineIn] using this
  | getter hc =>
    obtain ⟨key, type, body, rfl, hrend⟩ := renders_ofGetter h hr hc
    obtain ⟨own, hown⟩ := hrend.known hp
    rcases h with _ | ⟨hkey, _⟩
    exact ⟨converts_getter hkey hr hown (hrend.wraps hp) cache, .nil, hrend.sealed hp⟩
  | setter hc =>
    obtain ⟨key, this, param, body, rfl, hrend⟩ := renders_ofSetter h hr hc
    obtain ⟨own, hown⟩ := hrend.known hp
    rcases h with _ | ⟨hkey, _ | ⟨-, _ | ⟨hparam, _⟩⟩⟩
    exact ⟨converts_setter hkey hparam hr hown (hrend.wraps hp) cache, .nil, hrend.sealed hp⟩
  | privateMethod _ => cases hp
  | constructor => cases hp
  | classMethod _ hkind hc =>
    subst hkind
    rcases h with _ | ⟨hkey, _ | ⟨hf, _ | _⟩⟩
    obtain ⟨g, hb, hrend⟩ := bears_ofFunction hf (fun g hg =>
      hr.known g (by simp [functionsWithin, functionsOf, functionsOfAll, hg]))
      (hr.child rfl (by simp)).leaks (FunctionKind.ofMethod_ne_expression _ _) _ hc
    refine ⟨.gives rfl rfl (by simp) rfl (by simp) ?_, .nil, hrend.sealed hp⟩
    have := (hkey.keeps .refers).append ((hrend.wraps hp).keeps hb)
    simpa [Form.wrapped, outlineAs, outlineAll, isTypeKind, isRepeated, outlineIn] using this
  | classAccessor _ hkind hc =>
    rcases h with _ | ⟨hkey, _ | ⟨hf, _ | _⟩⟩
    obtain ⟨a, b, fs, params, decorators, body, rest, rfl, hrend⟩ :=
      renders_ofFunction hf (fun g hg =>
        hr.known g (by simp [functionsWithin, functionsOf, functionsOfAll, hg]))
        (hr.child rfl (by simp)).leaks (FunctionKind.ofMethod_ne_expression _ _) hc
    obtain ⟨own, hown⟩ := hrend.known hp
    exact ⟨converts_classAccessor hkind hkey hf hr hown (hrend.wraps hp) cache, .nil,
      hrend.sealed hp⟩
  | declaration hn hc =>
    rcases h with _ | ⟨hname, _ | ⟨hf, _ | _⟩⟩
    obtain ⟨hf', hat, hsealed⟩ := converts_declared hname hf (fun g hg =>
      hr.known g (by simp [functionsWithin, functionsOf, functionsOfAll, hg]))
      (hr.child rfl (by simp)).leaks hn hc hp
    refine ⟨.node rfl ?_, hat, hsealed⟩
    simpa [Form.declared, isRepeated] using ConvertsAll.cons hname (.cons hf' .nil)
  | namedDefault hn hc =>
    rcases h with _ | ⟨hfunction, _ | _⟩
    obtain ⟨cs, rfl, hcs⟩ := hfunction.of_node rfl
    rcases hcs with _ | ⟨hname, _ | ⟨hf, _ | _⟩⟩
    obtain ⟨hf', hat, hsealed⟩ := converts_declared hname hf (fun g hg =>
      hr.known g (functionsOf_defaultFunction (by simp) hg))
      (hr.defaultChild (by simp)).leaks hn hc hp
    refine ⟨converts_defaultFunction ?_, hat, hsealed⟩
    simpa [Form.declared, isRepeated] using ConvertsAll.cons hname (.cons hf' .nil)
  | namelessDefault hname' hc =>
    rcases h with _ | ⟨hfunction, _ | _⟩
    obtain ⟨cs, rfl, hcs⟩ := hfunction.of_node rfl
    rcases hcs with _ | ⟨hname, _ | ⟨hf, _ | _⟩⟩
    obtain ⟨g, hb, hrend⟩ := bears_ofFunction hf (fun g hg =>
      hr.known g (functionsOf_defaultFunction (by simp) hg))
      (hr.defaultChild (by simp)).leaks (by simp) _ hc
    refine ⟨.gives rfl rfl (by simp) rfl (by simp) ?_, .nil, hrend.sealed hp⟩
    rename_i name f
    have hnone : name = .absent := by
      rw [hname.isPresent_eq] at hname'
      cases name <;> simp_all [Ast.isPresent, Ast.isAbsent]
    subst hnone
    have hkeeps : Keeps given lost caches _ _ := (hrend.wraps hp).keeps hb
    simpa [Form.wrapped, outlineAs, outlineAll, isTypeKind, declareName, Ast.identName?, declareAll]
      using hkeeps

/-- **A node whose parts are converted keeps its names when it is treated.** -/
theorem treat_converts {w : Slot} {k : Kind} {s : Span} {cs cs' : List Ast} {t' : Ast} {own : Trace}
    {cache : Option String} (ht : treat job w (.node k s cs') cache = (t', own))
    (hstays : Converts given lost caches (.node k s cs) (.node k s cs'))
    (h : ConvertsAll given lost (if isRepeated k then [] else caches) cs cs')
    (hr : Ready job.table given lost (.node k s cs)) :
    Converts given lost (caches ++ own.caches) (.node k s cs) t' ∧
      Attached (attachable (.node k s cs)) own.stmts ∧
      (∀ e, .converted e ∈ own.entries → Sealed job.table given lost e) ∧ own.caches ⊆ cache.toList := by
  unfold treat at ht
  cases hf : form? w (.node k s cs') with
  | none =>
    simp only [hf, Prod.mk.injEq] at ht
    obtain ⟨rfl, rfl⟩ := ht
    exact ⟨by simpa using hstays, .nil, by simp [Trace.entries], by simp⟩
  | some form =>
    simp only [hf] at ht
    rcases Form.treat_cases ht with
      ⟨_, _, rfl, rfl⟩ | ⟨p, hp, ⟨_, _, rfl, rfl⟩ | ⟨_, rfl, rfl⟩ | ⟨_, _, _, rfl, rfl⟩⟩
    · refine ⟨by simpa using hstays, .nil, ?_, by simp⟩
      simp only [Trace.entries]
      split <;> split <;> simp
    · exact ⟨by simpa using hstays, .nil, by simp [Trace.entries], by simp⟩
    · obtain ⟨hconv, hat, hsealed⟩ := (FormOf.of_form? hf).converts hp h hr cache
      refine ⟨hconv, hat, by simpa using hsealed _, ?_⟩
      split <;> simp
    · obtain ⟨hconv, -, hsealed⟩ := (FormOf.of_form? hf).converts hp h hr none
      exact ⟨by simpa using hconv, .nil, by simpa [Trace.entries] using hsealed _, by simp⟩

end Turning

end Worklet
