import Worklet.Proofs.Scope.Language

/-!
# Facts that agree

When two outlines tell the same about names, apart from some names.

Principal results: `Beside.append`, `Beside.scope` — outlines agree part by part;
`Beside.function` — the body of a function may have a scope of its own; `Beside.place` — what was
put outside stands before the rest.
-/

set_option autoImplicit false

namespace Worklet

open Syntax Outline

/-- A scope around declares the name. -/
def Within (around : List (List String)) (n : String) : Prop :=
  ∃ ns ∈ around, n ∈ ns

variable {n : String} {stray : List String} {k : ScopeKind} {f : Option Span}

@[simp] theorem within_cons {ns : List String} {around : List (List String)} :
    Within (ns :: around) n ↔ n ∈ ns ∨ Within around n := by
  simp [Within]

/-- Two functions take the same names, and those from the same scopes. -/
structure SiteAgrees (stray : List String) (s s' : Site) : Prop where
  span : s'.span = s.span
  free : ∀ n ∉ stray, n ∈ s.free ↔ n ∈ s'.free
  around : ∀ n ∉ stray, n ∈ s.free → (Within s.around n ↔ Within s'.around n)

/-- One of the functions agrees. -/
def Found (stray : List String) (s : Site) (sites : List Site) : Prop :=
  ∃ s' ∈ sites, SiteAgrees stray s s'

theorem found_append {s : Site} {l l' : List Site} :
    Found stray s (l ++ l') ↔ Found stray s l ∨ Found stray s l' := by
  simp only [Found, List.mem_append]
  grind

/-- The scopes around agree on what is free in the facts. -/
def Same (stray : List String) (os : List Outline) (around around' : List (List String)) : Prop :=
  ∀ n ∉ stray, n ∈ freeAll bare os → (Within around n ↔ Within around' n)

/-- The same declarations and free names, and for each function of the first outline one of the
second, or one of those put outside. -/
structure Beside (stray : List String) (O os os' : List Outline) : Prop where
  lexical : ∀ n ∉ stray, n ∈ lexicalAll os ↔ n ∈ lexicalAll os'
  hoisted : ∀ n ∉ stray, n ∈ hoistedAll os ↔ n ∈ hoistedAll os'
  free : ∀ n ∉ stray, n ∈ freeAll bare os ↔ n ∈ freeAll bare os'
  outside : ∀ n ∈ factNames O, n ∈ stray
  sites : ∀ around around' away, Same stray os around around' → ∀ s ∈ sitesAll around os,
    Found stray s (sitesAll around' os') ∨ Found stray s (sitesAll away O)

/-- The same declarations, free names and functions. -/
abbrev Agrees (stray : List String) (os os' : List Outline) : Prop :=
  Beside stray [] os os'

namespace Beside

variable {O O₁ O₂ os os' os₁ os₁' os₂ os₂' : List Outline}

theorem notMem_facts (h : ∀ n ∈ factNames os, n ∈ stray) (hn : n ∉ stray) :
    n ∉ freeAll bare os ∧ n ∉ lexicalAll os ∧ n ∉ hoistedAll os := by
  have hnames : n ∉ factNames os := fun hm => hn (h n hm)
  simpa [factNames] using hnames

/-! ### Parts -/

/-- Facts without functions. -/
theorem of_plain (hl : ∀ n ∉ stray, n ∈ lexicalAll os ↔ n ∈ lexicalAll os')
    (hh : ∀ n ∉ stray, n ∈ hoistedAll os ↔ n ∈ hoistedAll os')
    (hf : ∀ n ∉ stray, n ∈ freeAll bare os ↔ n ∈ freeAll bare os')
    (hs : ∀ around, sitesAll around os = []) : Agrees stray os os' where
  lexical := hl
  hoisted := hh
  free := hf
  outside := by simp [factNames, freeAll, hoistedAll]
  sites around _ _ _ s hmem := by simp [hs around] at hmem

/-- Facts without functions whose names do not count. -/
theorem of_stray (h : ∀ n ∈ factNames os, n ∈ stray) (h' : ∀ n ∈ factNames os', n ∈ stray)
    (hs : ∀ around, sitesAll around os = []) : Agrees stray os os' :=
  of_plain (fun n hn => by simp [notMem_facts h hn, notMem_facts h' hn])
    (fun n hn => by simp [notMem_facts h hn, notMem_facts h' hn])
    (fun n hn => by simp [notMem_facts h hn, notMem_facts h' hn]) hs

theorem nil : Agrees stray [] [] :=
  of_plain (fun _ _ => .rfl) (fun _ _ => .rfl) (fun _ _ => .rfl) fun _ => rfl

theorem reference (n : String) : Agrees stray [.reference n] [.reference n] :=
  of_plain (fun _ _ => .rfl) (fun _ _ => .rfl) (fun _ _ => .rfl) fun _ => rfl

theorem declare (n : String) (k : BindingKind) : Agrees stray [.declare n k] [.declare n k] :=
  of_plain (fun _ _ => .rfl) (fun _ _ => .rfl) (fun _ _ => .rfl) fun _ => rfl

/-- **Outlines agree part by part.** -/
theorem append (h₁ : Beside stray O₁ os₁ os₁') (h₂ : Beside stray O₂ os₂ os₂') :
    Beside stray (O₁ ++ O₂) (os₁ ++ os₂) (os₁' ++ os₂') where
  lexical n hn := by
    rw [lexicalAll_append, lexicalAll_append, List.mem_append, List.mem_append, h₁.lexical n hn,
      h₂.lexical n hn]
  hoisted n hn := by
    rw [hoistedAll_append, hoistedAll_append, List.mem_append, List.mem_append, h₁.hoisted n hn,
      h₂.hoisted n hn]
  free n hn := by
    rw [freeAll_append, freeAll_append, List.mem_append, List.mem_append, h₁.free n hn,
      h₂.free n hn]
  outside n hm := by
    by_contra hn
    have hm₁ := notMem_facts h₁.outside hn
    have hm₂ := notMem_facts h₂.outside hn
    simp [factNames, hm₁, hm₂] at hm
  sites around around' away hsame s hs := by
    simp only [sitesAll_append, List.mem_append, found_append] at hs ⊢
    have hsame₁ : Same stray os₁ around around' := fun n hn hf => hsame n hn (by simp [hf])
    have hsame₂ : Same stray os₂ around around' := fun n hn hf => hsame n hn (by simp [hf])
    rcases hs with hs | hs
    · rcases h₁.sites around around' away hsame₁ s hs with h | h
      · exact .inl (.inl h)
      · exact .inr (.inl h)
    · rcases h₂.sites around around' away hsame₂ s hs with h | h
      · exact .inl (.inr h)
      · exact .inr (.inr h)

theorem declared (h : Beside stray O os os') (k : ScopeKind) (hn : n ∉ stray) :
    n ∈ declared k os ↔ n ∈ Outline.declared k os' := by
  rw [mem_declared, mem_declared, h.lexical n hn, h.hoisted n hn]

/-! ### Scopes -/

theorem sitesAll_scope (around : List (List String)) (k : ScopeKind) (f : Option Span)
    (body : List Outline) :
    sitesAll around [.scope k f body] =
      (f.toList.map fun span => ⟨span, k, body, around⟩) ++
        sitesAll (Outline.declared k body :: around) body := by
  simp [sitesAll, Outline.sites]

theorem mem_freeAll_scope {body : List Outline} :
    n ∈ freeAll bare [.scope k f body] ↔
      n ∈ freeAll bare body ∧ n ∉ Outline.declared k body := by
  simp [freeAll, mem_free_scope, bare]

/-- Scopes of one kind agree if they have the same free names and agree inside. -/
theorem opened (hh : ∀ n ∉ stray, n ∈ hoistedAll [.scope k f os] ↔ n ∈ hoistedAll [.scope k f os'])
    (hf : ∀ n ∉ stray, n ∈ freeAll bare [.scope k f os] ↔ n ∈ freeAll bare [.scope k f os'])
    (ho : ∀ n ∈ factNames O, n ∈ stray)
    (hs : ∀ around around' away, Same stray [.scope k f os] around around' →
      ∀ s ∈ sitesAll (Outline.declared k os :: around) os,
        Found stray s (sitesAll (Outline.declared k os' :: around') os') ∨
          Found stray s (sitesAll away O)) :
    Beside stray O [.scope k f os] [.scope k f os'] where
  lexical _ _ := .rfl
  hoisted := hh
  free := hf
  outside := ho
  sites around around' away hsame s hmem := by
    rw [sitesAll_scope, List.mem_append] at hmem
    rw [sitesAll_scope, found_append]
    rcases hmem with hmem | hmem
    · obtain ⟨span, hspan, rfl⟩ := List.mem_map.1 hmem
      obtain rfl : f = some span := by simpa using hspan
      have hfree : ∀ body n, n ∈ Outline.free bare (.scope k (some span) body) ↔
          n ∈ freeAll bare [.scope k (some span) body] := by simp [freeAll]
      refine .inl (.inl ⟨⟨span, k, os', around'⟩, by simp, rfl, fun n hn => ?_, fun n hn hm => ?_⟩)
      · exact (hfree os n).trans ((hf n hn).trans (hfree os' n).symm)
      · exact hsame n hn ((hfree os n).1 hm)
    · rcases hs around around' away hsame s hmem with h | h
      · exact .inl (.inr h)
      · exact .inr h

/-- **Scopes agree if their facts do.** -/
theorem scope (h : Beside stray O os os') (k : ScopeKind) (f : Option Span) :
    Beside stray O [.scope k f os] [.scope k f os'] := by
  refine opened (fun n hn => ?_) (fun n hn => ?_) h.outside fun around around' away hsame s hs => ?_
  · simp only [hoistedAll, Outline.hoisted, List.append_nil]
    split
    · rfl
    · exact h.hoisted n hn
  · rw [mem_freeAll_scope, mem_freeAll_scope, h.free n hn, h.declared k hn]
  · refine h.sites _ _ away (fun n hn hm => ?_) s hs
    have hd := h.declared k hn
    have hw := hsame n hn
    rw [mem_freeAll_scope] at hw
    rw [within_cons, within_cons, hd]
    by_cases hin : n ∈ Outline.declared k os'
    · simp [hin]
    · simp [hin, hw ⟨hm, fun hc => hin (hd.1 hc)⟩]

@[simp] theorem declared_function_scope (f : Option Span) (os body : List Outline) (n : String) :
    n ∈ Outline.declared .function (os ++ [.scope .function f body]) ↔
      n ∈ Outline.declared .function os := by
  simp [mem_declared, hoistedAll, Outline.hoisted, ScopeKind.isFunctionBoundary, Outline.lexical]

variable {P P' X X' : List Outline}

/-- **The body of a function may have a scope of its own**, where the parameters take nothing from
the body. -/
theorem function (hP : Beside stray O P P') (hX : Agrees stray X X')
    (ht : ∀ n ∈ taken P X, n ∈ stray) (f : Option Span) :
    Beside stray O [.scope .function f (P ++ X)]
      [.scope .function f (P' ++ [.scope .function none X'])] := by
  have hkept : ∀ n ∉ stray, n ∈ freeAll bare P → n ∉ Outline.declared .function P →
      n ∉ Outline.declared .function X :=
    fun n hn hf hd hx => hn (ht n (mem_taken.2 ⟨hf, hx, hd⟩))
  refine opened (fun n hn => .rfl) (fun n hn => ?_) hP.outside
    fun around around' away hsame s hs => ?_
  · rw [mem_freeAll_scope, mem_freeAll_scope, declared_function_scope, mem_declared_append,
      freeAll_append, freeAll_append, List.mem_append, List.mem_append, mem_freeAll_scope,
      ← hP.free n hn, ← hX.free n hn, ← hP.declared _ hn, ← hX.declared _ hn]
    have := hkept n hn
    grind
  · have hsame' : ∀ n ∉ stray, (n ∈ freeAll bare P ∨ n ∈ freeAll bare X) →
        n ∉ Outline.declared .function P → n ∉ Outline.declared .function X →
        (Within around n ↔ Within around' n) := fun n hn hf hp hx =>
      hsame n hn (mem_freeAll_scope.2 ⟨by simpa using hf, by simp [mem_declared_append, hp, hx]⟩)
    simp only [sitesAll_append, List.mem_append, found_append] at hs ⊢
    rcases hs with hs | hs
    · have hin : Same stray P (Outline.declared .function (P ++ X) :: around)
          (Outline.declared .function (P' ++ [.scope .function none X']) :: around') := by
        intro n hn hf
        rw [within_cons, within_cons, declared_function_scope, mem_declared_append,
          ← hP.declared _ hn]
        by_cases hd : n ∈ Outline.declared .function P
        · simp [hd]
        · have hx := hkept n hn hf hd
          simp [hd, hx, hsame' n hn (.inl hf) hd hx]
      rcases hP.sites _ _ away hin s hs with h | h
      · exact .inl (.inl h)
      · exact .inr h
    · have hin : Same stray X (Outline.declared .function (P ++ X) :: around)
          (Outline.declared .function X' ::
            Outline.declared .function (P' ++ [.scope .function none X']) :: around') := by
        intro n hn hf
        rw [within_cons, within_cons, within_cons, declared_function_scope, mem_declared_append,
          ← hP.declared _ hn, ← hX.declared _ hn]
        have := hsame' n hn (.inr hf)
        grind
      rcases hX.sites _ _ away hin s hs with h | h
      · exact .inl (.inr (by rw [sitesAll_scope]; simpa using h))
      · exact .inr (by simp [Found, sitesAll] at h)

/-- What was put outside stands before the rest. -/
theorem place (h : Beside stray O os os') : Agrees stray os (O ++ os') where
  lexical n hn := by simp [h.lexical n hn, notMem_facts h.outside hn]
  hoisted n hn := by simp [h.hoisted n hn, notMem_facts h.outside hn]
  free n hn := by simp [h.free n hn, notMem_facts h.outside hn]
  outside := nil.outside
  sites around around' _ hsame s hs := by
    rw [sitesAll_append, found_append]
    rcases h.sites around around' around' hsame s hs with h | h
    · exact .inl (.inr h)
    · exact .inl (.inl h)

/-- Facts whose names do not count may be put outside. -/
theorem moved (h : Agrees stray os os') (hn : ∀ n ∈ factNames os, n ∈ stray) :
    Beside stray os' os [] where
  lexical n hs := by simp [notMem_facts hn hs]
  hoisted n hs := by simp [notMem_facts hn hs, hoistedAll]
  free n hs := by simp [notMem_facts hn hs, freeAll]
  outside n hm := by
    by_contra hs
    simp only [factNames, List.mem_append] at hm
    rw [← h.lexical n hs, ← h.hoisted n hs, ← h.free n hs] at hm
    simp [notMem_facts hn hs] at hm
  sites around _ away _ s hs := by
    have hsame : Same stray os around away := fun n hs hf => absurd hf (notMem_facts hn hs).1
    rcases h.sites around away [] hsame s hs with h | h
    · exact .inr h
    · simp [Found, sitesAll] at h

/-- Facts that declare nothing that counts may have a scope of their own. -/
theorem ownScope (h : Agrees stray os os')
    (hd : ∀ n ∈ lexicalAll os ++ hoistedAll os, n ∈ stray) :
    Agrees stray os [.scope .function none os'] := by
  have hlex : ∀ n ∉ stray, n ∉ lexicalAll os := fun n hs hm => hs (hd n (by simp [hm]))
  have hhoist : ∀ n ∉ stray, n ∉ hoistedAll os := fun n hs hm => hs (hd n (by simp [hm]))
  have hnone : ∀ n ∉ stray, n ∉ Outline.declared .function os' := fun n hs hm => by
    rw [← h.declared _ hs, mem_declared] at hm
    exact hm.elim (hlex n hs) fun hm => hhoist n hs hm.2
  refine ⟨fun n hs => ?_, fun n hs => ?_, fun n hs => ?_, nil.outside,
    fun around around' away hsame s hs => ?_⟩
  · simp [hlex n hs, Outline.lexical]
  · simp [hhoist n hs, hoistedAll, Outline.hoisted, ScopeKind.isFunctionBoundary]
  · rw [mem_freeAll_scope, h.free n hs]
    simp [hnone n hs]
  · rw [sitesAll_scope]
    refine h.sites around _ away (fun n hs hf => ?_) s hs
    simp [hnone n hs, hsame n hs hf]

/-- Facts whose names do not count may be put outside, if only the second outline has them. -/
theorem weaken (h : Agrees stray os os') (hO : ∀ n ∈ factNames O, n ∈ stray) :
    Beside stray O os os' where
  lexical := h.lexical
  hoisted := h.hoisted
  free := h.free
  outside := hO
  sites around around' away hsame s hs := by
    rcases h.sites around around' away hsame s hs with h | h
    · exact .inl h
    · simp [Found, sitesAll] at h

/-- A scope in which no free name counts may be added. -/
theorem added (h : Agrees stray os os') {F : List Outline}
    (hF : ∀ n ∈ freeAll bare [.scope .function none F], n ∈ stray) :
    Agrees stray os (os' ++ [.scope .function none F]) where
  lexical n hn := by simp [h.lexical n hn, Outline.lexical]
  hoisted n hn := by
    simp [h.hoisted n hn, hoistedAll, Outline.hoisted, ScopeKind.isFunctionBoundary]
  free n hn := by
    rw [freeAll_append, List.mem_append, h.free n hn]
    have := fun hm => hn (hF n hm)
    grind
  outside := h.outside
  sites around around' away hsame s hs := by
    rw [sitesAll_append, found_append]
    exact (h.sites around around' away hsame s hs).imp_left .inl

variable {N N' D D' R R' : List Outline}

/-- The decorators of a class may stand outside it, where they take nothing from it. -/
theorem decorated (hN : Agrees stray N N') (hD : Agrees stray D D') (hR : Agrees stray R R')
    (hl : ∀ n ∈ lexicalAll D, n ∈ stray)
    (ht : ∀ n ∈ freeAll bare D, n ∈ Outline.declared .class (N ++ (D ++ R)) → n ∈ stray) :
    Agrees stray [.scope .class none (N ++ (D ++ R))] (D' ++ [.scope .class none (N' ++ R')]) := by
  have hlex : ∀ n ∉ stray, n ∉ lexicalAll D := fun n hs hm => hs (hl n hm)
  have hdecl : ∀ n ∉ stray, n ∈ Outline.declared .class (N ++ (D ++ R)) ↔
      n ∈ Outline.declared .class (N' ++ R') := fun n hs => by
    rw [← (hN.append hR).declared .class hs]
    simp [mem_declared, ScopeKind.isFunctionBoundary, hlex n hs]
  have hout : ∀ n ∉ stray, n ∈ freeAll bare D → n ∉ Outline.declared .class (N' ++ R') :=
    fun n hs hf hd => hs (ht n hf ((hdecl n hs).2 hd))
  refine ⟨fun n hs => ?_, fun n hs => ?_, fun n hs => ?_, nil.outside,
    fun around around' away hsame s hs => ?_⟩
  · simp [Outline.lexical, ← hD.lexical n hs, hlex n hs]
  · simp only [hoistedAll, Outline.hoisted, ScopeKind.isFunctionBoundary, hoistedAll_append,
      List.mem_append, List.append_nil, Bool.false_eq_true, if_false, hN.hoisted n hs,
      hD.hoisted n hs, hR.hoisted n hs]
    grind
  · rw [freeAll_append, List.mem_append, mem_freeAll_scope, mem_freeAll_scope, hdecl n hs]
    simp only [freeAll_append, List.mem_append, ← hN.free n hs, ← hD.free n hs, ← hR.free n hs]
    have := hout n hs
    grind
  · -- The scope of the class binds the same names with and without the decorators in it.
    have hin : Same stray (N ++ R) (Outline.declared .class (N ++ (D ++ R)) :: around)
        (Outline.declared .class (N' ++ R') :: around') := by
      intro n hs hf
      have hw := hsame n hs
      rw [mem_freeAll_scope, hdecl n hs] at hw
      rw [within_cons, within_cons, hdecl n hs]
      simp only [freeAll_append, List.mem_append] at hf hw
      grind
    have hbefore : Same stray D (Outline.declared .class (N ++ (D ++ R)) :: around) around' := by
      intro n hs hf
      have hnot := hout n hs hf
      have hw := hsame n hs
      rw [mem_freeAll_scope, hdecl n hs] at hw
      rw [within_cons, hdecl n hs]
      simp only [freeAll_append, List.mem_append] at hw
      grind
    have hrest := (hN.append hR).sites _ _ away hin s
    have hdec := hD.sites _ _ away hbefore s
    simp only [sitesAll_append, sitesAll_scope, List.mem_append, found_append,
      Option.toList_none, List.map_nil, List.nil_append] at hs hrest hdec ⊢
    grind

end Beside

theorem Agrees.append {os₁ os₁' os₂ os₂' : List Outline} (h₁ : Agrees stray os₁ os₁')
    (h₂ : Agrees stray os₂ os₂') :
    Agrees stray (os₁ ++ os₂) (os₁' ++ os₂') :=
  Beside.append h₁ h₂

end Worklet
