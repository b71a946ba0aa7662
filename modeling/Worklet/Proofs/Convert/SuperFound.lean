import Worklet.Proofs.Convert.Supers

/-!
# What a search for `super` finds when the parts are converted

A function is searched for `super` when its turn comes, and then the functions inside it are converted.
An arrow that is converted has no types, so a `super` in them is no longer found. Any other is.

Principal results: `Becomes.searchKept` — for the trees of a run; `subject?_searchKept` — for the
candidates.
-/

set_option autoImplicit false

namespace Worklet

open Syntax

/-- The parts of a function that its wrapper does not have, as far as they are searched: the types of an
arrow, and the name of a function expression. -/
def dropped : Ast → List Ast
  | .node (.arrow _) _ (_ :: _ :: types) => types
  | .node .funcExpr _ (name :: _) => [name]
  | _ => []

/-- A `super` that the search finds stands in a part that a wrapper would not have. -/
inductive DropsSuper : Ast → Prop
  | here {t u : Ast} : u ∈ dropped t → usesSuper u = true → DropsSuper t
  | part {t u : Ast} : u ∈ searched t → DropsSuper u → DropsSuper t

theorem dropped_subset (t : Ast) : dropped t ⊆ searched t := by
  fun_cases dropped t <;> simp [searched]

variable {t t' : Ast} {ts ts' cs cs' : List Ast} {k : Kind} {kind : FunctionKind}
  {name : Option String} {s : Span}

theorem usesSuper_of_searched {u : Ast} (hu : u ∈ searched t) (h : usesSuper u = true) :
    usesSuper t = true :=
  (usesSuper_iff_searched t).2 (.inr ⟨u, hu, h⟩)

theorem DropsSuper.usesSuper (h : DropsSuper t) : usesSuper t = true := by
  induction h with
  | here hu hs => exact usesSuper_of_searched (dropped_subset _ hu) hs
  | part hu _ ih => exact usesSuper_of_searched hu ih

theorem not_dropsSuper (h : usesSuper t = false) : ¬DropsSuper t := by
  intro hd
  rw [hd.usesSuper] at h
  cases h

theorem Silent.usesSuper_eq (h : Silent t) : usesSuper t = false := by
  rw [Bool.eq_false_iff]
  exact fun hs => h.1 _ (ownSuper_of_usesSuper t hs)

/-- The search finds a `super` in the second tree if and only if it finds one in the first, unless the
first drops it. -/
structure SearchKept (t t' : Ast) : Prop where
  back : usesSuper t' = true → usesSuper t = true
  forth : usesSuper t = true → usesSuper t' = true ∨ DropsSuper t
  drops : DropsSuper t' → DropsSuper t

namespace SearchKept

theorem refl (t : Ast) : SearchKept t t := ⟨id, .inl, id⟩

theorem trans {u v : Ast} (h : SearchKept t u) (h' : SearchKept u v) : SearchKept t v where
  back hs := h.back (h'.back hs)
  forth hs := (h.forth hs).elim (fun hs => (h'.forth hs).imp_right h.drops) .inr
  drops hd := h.drops (h'.drops hd)

theorem of_false (h : usesSuper t = false) (h' : usesSuper t' = false) :
    SearchKept t t' where
  back hs := by rw [h'] at hs; cases hs
  forth hs := by rw [h] at hs; cases hs
  drops hd := absurd hd (not_dropsSuper h')

/-- Two trees, of which each is searched in what the search of the other looks at. -/
theorem of_searched (hw : t.kind? ≠ some .superWord) (hw' : t'.kind? ≠ some .superWord)
    (hback : ∀ u' ∈ searched t', usesSuper u' = false ∨ ∃ u ∈ searched t, SearchKept u u')
    (hforth : ∀ u ∈ searched t, usesSuper u = true → (∃ u' ∈ searched t', SearchKept u u') ∨ DropsSuper t)
    (hdrops : ∀ u' ∈ dropped t', usesSuper u' = true → DropsSuper t) : SearchKept t t' where
  back hs := by
    rcases (usesSuper_iff_searched t').1 hs with ⟨s, cs, rfl⟩ | ⟨u', hu', hs⟩
    · exact absurd rfl hw'
    · rcases hback u' hu' with hf | ⟨u, hu, hkept⟩
      · rw [hf] at hs
        cases hs
      · exact usesSuper_of_searched hu (hkept.back hs)
  forth hs := by
    rcases (usesSuper_iff_searched t).1 hs with ⟨s, cs, rfl⟩ | ⟨u, hu, hs⟩
    · exact absurd rfl hw
    · rcases hforth u hu hs with ⟨u', hu', hkept⟩ | hd
      · exact (hkept.forth hs).imp (usesSuper_of_searched hu') (.part hu)
      · exact .inr hd
  drops hd := by
    cases hd with
    | here hu' hs => exact hdrops _ hu' hs
    | part hu' hd =>
      rcases hback _ hu' with hf | ⟨u, hu, hkept⟩
      · exact absurd hd (not_dropsSuper hf)
      · exact .part hu (hkept.drops hd)

theorem forall₂_searched (k : Kind) (s : Span) (h : List.Forall₂ SearchKept cs cs') :
    List.Forall₂ SearchKept (searched (.node k s cs)) (searched (.node k s cs')) := by
  cases k with
  | class_ abs =>
    rcases h with _ | ⟨h₁, _ | ⟨h₂, _ | ⟨h₃, h⟩⟩⟩
    · exact .nil
    · exact .cons h₁ .nil
    · exact .cons h₁ (.cons h₂ .nil)
    · exact .cons h₃ .nil
  | function _ _ => exact .nil
  | getter => exact .nil
  | setter => exact .nil
  | _ => exact h

theorem forall₂_dropped (k : Kind) (s : Span) (h : List.Forall₂ SearchKept cs cs') :
    List.Forall₂ SearchKept (dropped (.node k s cs)) (dropped (.node k s cs')) := by
  cases k with
  | arrow a =>
    rcases h with _ | ⟨_, _ | ⟨_, h⟩⟩
    · exact .nil
    · exact .nil
    · exact h
  | funcExpr =>
    rcases h with _ | ⟨h₁, h⟩
    · exact .nil
    · exact .cons h₁ .nil
  | _ => exact .nil

theorem list (h : List.Forall₂ SearchKept ts ts') :
    SearchKept (.list ts) (.list ts') :=
  .of_searched (by simp [Ast.kind?]) (by simp [Ast.kind?]) (fun _ hu => .inr (exists_of_forall₂ h hu))
    (fun _ hu _ => .inl (exists_of_forall₂ h.flip hu)) (fun _ hu => nomatch hu)

theorem node (k : Kind) (s : Span) (h : List.Forall₂ SearchKept cs cs') :
    SearchKept (.node k s cs) (.node k s cs') := by
  by_cases hk : k = .superWord
  · subst hk
    refine ⟨fun _ => by rw [usesSuper], fun _ => .inl (by rw [usesSuper]), fun hd => ?_⟩
    cases hd with
    | here hu _ => cases hu
    | part hu hd =>
      obtain ⟨u, hu, hkept⟩ := exists_of_forall₂ h hu
      exact .part hu (hkept.drops hd)
  refine .of_searched (by simpa [Ast.kind?]) (by simpa [Ast.kind?])
    (fun _ hu => .inr (exists_of_forall₂ (forall₂_searched k s h) hu))
    (fun _ hu _ => .inl (exists_of_forall₂ (forall₂_searched k s h).flip hu)) fun u' hu' hs => ?_
  obtain ⟨u, hu, hkept⟩ := exists_of_forall₂ (forall₂_dropped k s h) hu'
  exact .here hu (hkept.back hs)

/-- Statements among which others are put. -/
theorem statements (hk : isStatementList k = true ∨ k = .switchCase) (s : Span) {ss ss' : List Ast}
    (h : Interspersed SearchKept ss ss') : SearchKept (.node k s ss) (.node k s ss') := by
  have hshares := sharesSuper_of_isStatementList hk
  have hsearched : ∀ cs, searched (.node k s cs) = cs := by
    intro cs
    unfold searched
    split <;> simp_all [sharesSuper]
  have hdropped : dropped (.node k s ss') = [] := by
    unfold dropped
    split <;> simp_all [isStatementList]
  have hw : ∀ cs, (Ast.node k s cs).kind? ≠ some .superWord := by
    rintro cs ⟨⟩
    cases hshares
  refine .of_searched (hw _) (hw _) ?_ ?_ (by simp [hdropped])
  · rw [hsearched, hsearched]
    exact fun t' ht' => (h.back t' ht').imp_left fun hput => hput.silent.usesSuper_eq
  · intro u hu _
    rw [hsearched] at hu ⊢
    exact .inl (h.forth u hu)

end SearchKept

/-! ### Forms -/

section Forms

variable {job : Job} {w : Slot} {f : Form} {p : Prepared} {c : Candidate}

theorem usesSuper_wrapper : usesSuper p.wrapper = false := by
  rw [Bool.eq_false_iff]
  exact fun h => not_ownSuper_wrap _ _ _ _ _ (ownSuper_of_usesSuper _ h)

theorem usesSuper_withBody (body t : Ast) : usesSuper (withBody body t) = usesSuper t := by
  fun_cases withBody body t <;> simp [usesSuper]

theorem usesSuper_ofFunction {f : Ast} (h : Candidate.ofFunction kind name f = some c) :
    usesSuper f = false := by
  obtain ⟨_, _, _, _, _, _, _, _, rfl, -⟩ := Candidate.ofFunction_eq_some h
  rw [usesSuper]

theorem SearchKept.withBody {g body : Ast} (h : Candidate.ofFunction kind name g = some c) :
    SearchKept g (withBody body g) :=
  .of_false (usesSuper_ofFunction h) ((usesSuper_withBody body g).trans (usesSuper_ofFunction h))

/-- A function with a key, and what stands under the key in its place. -/
theorem SearchKept.keyed {k' : Kind} {s' : Span} {key g : Ast} {rest : List Ast}
    (hk : k ≠ .superWord) (hk' : k' ≠ .superWord) (hs : searched (.node k s [key, g]) = [key, g])
    (hs' : searched (.node k' s' (key :: rest)) = key :: rest)
    (hd : dropped (.node k' s' (key :: rest)) = []) (hg : usesSuper g = false)
    (hrest : ∀ u ∈ rest, usesSuper u = false) :
    SearchKept (.node k s [key, g]) (.node k' s' (key :: rest)) := by
  refine .of_searched (by simpa [Ast.kind?]) (by simpa [Ast.kind?]) ?_ ?_ (by simp [hd])
  · rw [hs, hs']
    intro u hu
    rcases List.mem_cons.1 hu with rfl | hu
    · exact .inr ⟨u, List.mem_cons_self, .refl u⟩
    · exact .inl (hrest u hu)
  · rw [hs, hs']
    simp only [List.mem_cons, List.not_mem_nil, or_false]
    rintro u (rfl | rfl) hu
    · exact .inl ⟨u, .inl rfl, .refl u⟩
    · rw [hg] at hu
      cases hu

theorem dropsSuper_unparen (t : Ast) : DropsSuper t.unparen ↔ DropsSuper t := by
  fun_induction Ast.unparen t with
  | case1 s e ih =>
    rw [ih]
    refine ⟨.part (by simp [searched]), fun h => ?_⟩
    cases h with
    | here hu _ => cases hu
    | part hu h => rwa [List.mem_singleton.1 hu] at h
  | case2 => rfl

theorem dropsSuper_arrowBody (t : Ast) : DropsSuper (Candidate.arrowBody t) ↔ DropsSuper t := by
  unfold Candidate.arrowBody
  split
  · rfl
  · rw [← dropsSuper_unparen t]
    refine ⟨fun h => ?_, fun h => .part List.mem_cons_self (.part List.mem_cons_self h)⟩
    cases h with
    | here hu _ => cases hu
    | part hu h =>
      rw [List.mem_singleton.1 hu] at h
      cases h with
      | here hu _ => cases hu
      | part hu h => rwa [List.mem_singleton.1 hu] at h

theorem Job.usesSuper_of_prepare (hp : job.prepare c = .ok p) : c.usesSuper = false := by
  unfold Job.prepare at hp
  split at hp
  · cases hp
  split at hp
  · cases hp
  · rename_i hs
    simpa using hs

/-- In an arrow that can be prepared a search finds only what the wrapper would not have. -/
theorem SearchKept.arrow {a : Bool} (hc : Candidate.ofArrow (.node (.arrow a) s cs) = some c)
    (hp : job.prepare c = .ok p) :
    SearchKept (.node (.arrow a) s cs) p.wrapper := by
  have hnone := Job.usesSuper_of_prepare hp
  obtain ⟨_, _, ps, body, types, ⟨⟩, rfl⟩ := Candidate.ofArrow_eq_some hc
  simp only [Candidate.usesSuper, usesSuper_arrowBody, Bool.or_eq_false_iff] at hnone
  refine ⟨fun hs => ?_, fun hs => .inr ?_, fun hd => absurd hd (not_dropsSuper usesSuper_wrapper)⟩
  · rw [usesSuper_wrapper] at hs
    cases hs
  · simp only [usesSuper, usesSuperAny, hnone.1, hnone.2, Bool.false_or, usesSuperAny_iff] at hs
    obtain ⟨u, hu, hs⟩ := hs
    exact .here hu hs

/-- **What takes the place of a function is searched alike.** -/
theorem FormOf.searchKept (hf : FormOf w t f) (hp : f.subject.prepare job = .ok p)
    (cache : Option String) : SearchKept t (f.turned p cache) := by
  have hwrapper := usesSuper_wrapper (p := p)
  cases hf with
  | expression _ hc =>
    have hf := usesSuper_ofFunction hc
    refine ⟨fun hs => ?_, fun hs => .inr (.here List.mem_cons_self ?_),
      fun hd => absurd hd (not_dropsSuper hwrapper)⟩
    · exact absurd (hwrapper.symm.trans hs) (by simp)
    · simpa [usesSuper, usesSuperAny, hf] using hs
  | arrow hc => exact .arrow hc hp
  | declaration _ hc => exact .node _ _ (.cons (.refl _) (.cons (.withBody hc) .nil))
  | method hc =>
    refine .keyed (by simp) (by simp) rfl rfl rfl (usesSuper_ofFunction hc) ?_
    simpa using hwrapper
  | getter _ | setter _ => exact .of_false rfl rfl
  | privateMethod _ => cases hp
  | classMethod _ _ hc =>
    refine .keyed (by simp) (by simp) rfl rfl rfl (usesSuper_ofFunction hc) ?_
    simpa [usesSuper, usesSuperAny] using hwrapper
  | classAccessor _ _ hc => exact .node _ _ (.cons (.refl _) (.cons (.withBody hc) .nil))
  | constructor => cases hp
  | namedDefault _ hc =>
    exact .node _ _ (.cons (.node _ _ (.cons (.refl _) (.cons (.withBody hc) .nil))) .nil)
  | @namelessDefault _ _ name _ _ hname hc =>
    have hf := usesSuper_ofFunction hc
    have habsent : name = .absent := by
      cases name <;> first | rfl | cases hname
    subst habsent
    refine .of_false (by simp [usesSuper, usesSuperAny, hf]) ?_
    change usesSuper (.node .exportDefaultExpr _ [p.wrapper]) = false
    simp [usesSuper, usesSuperAny, hwrapper]

end Forms

/-! ### Converted trees -/

section Converted

variable {job : Job} {w : Slot} {tr : Trace}

theorem compatible_searchKept (job : Job) : Compatible job SearchKept where
  refl := .refl
  trans := .trans
  list := .list
  node k s _ _ := .node k s
  statements s _ _ hk := .statements hk s
  turned := FormOf.searchKept

/-- **A search finds a `super` in a converted tree if and only if it did before**, unless it stood in
what was dropped. -/
theorem Becomes.searchKept (h : Becomes job w t t' tr) : SearchKept t t' :=
  h.related (compatible_searchKept job)

end Converted

/-! ### Candidates -/

namespace Candidate

/-- A `super` of the function stands in a part that a wrapper inside it would not have. -/
def DropsSuper (c : Candidate) : Prop :=
  ∃ t ∈ c.params ++ [c.body], Worklet.DropsSuper t

/-- The second candidate is the first with parts converted, as far as a search for `super` sees. -/
def SearchKept (c c' : Candidate) : Prop :=
  List.Forall₂ Worklet.SearchKept (c.params ++ [c.body]) (c'.params ++ [c'.body])

namespace SearchKept

variable {c c' : Candidate}

theorem back (h : c.SearchKept c') (hs : c'.usesSuper = true) : c.usesSuper = true := by
  rw [usesSuper_eq_true_iff] at hs ⊢
  obtain ⟨t', ht', hs⟩ := hs
  obtain ⟨t, ht, hkept⟩ := exists_of_forall₂ h ht'
  exact ⟨t, ht, hkept.back hs⟩

theorem forth (h : c.SearchKept c') (hs : c.usesSuper = true) :
    c'.usesSuper = true ∨ c.DropsSuper := by
  rw [usesSuper_eq_true_iff] at hs ⊢
  obtain ⟨t, ht, hs⟩ := hs
  obtain ⟨t', ht', hkept⟩ := exists_of_forall₂ h.flip ht
  exact (hkept.forth hs).imp (fun hs => ⟨t', ht', hs⟩) fun hd => ⟨t, ht, hd⟩

end SearchKept

end Candidate

section Candidates

variable {job : Job} {w : Slot} {c c' : Candidate} {tr : Trace}

theorem SearchKept.arrowBody (h : SearchKept t t') :
    SearchKept (Candidate.arrowBody t) (Candidate.arrowBody t') := by
  refine ⟨?_, ?_, ?_⟩
  · simpa only [usesSuper_arrowBody] using h.back
  · simpa only [usesSuper_arrowBody, dropsSuper_arrowBody] using h.forth
  · simpa only [dropsSuper_arrowBody] using h.drops

theorem Candidate.Like.searchKept (h : c.Like id (BecomesSome job) c') : c.SearchKept c' := by
  refine List.rel_append (h.params.imp fun _ _ ⟨_, _, h⟩ => h.searchKept) (.cons ?_ .nil)
  rcases h.body with ⟨_, _, hb⟩ | ⟨b, b', ⟨_, _, hb⟩, hbody, hbody'⟩
  · exact hb.searchKept
  · rw [hbody, hbody']
    exact hb.searchKept.arrowBody

/-- **A candidate that is met with its parts converted** is searched alike. -/
theorem subject?_searchKept
    (h : BecomesAll job (job.config.hooks.childSlot w (.node k s cs)) cs cs' tr)
    (hs : subject? w (.node k s cs) = some (.candidate c))
    (hs' : subject? w (.node k s cs') = some (.candidate c')) : c.SearchKept c' := by
  have hlike := subject?_like h
  rw [hs, hs'] at hlike
  cases hlike with
  | some hlike =>
    cases hlike with
    | candidate hlike => exact hlike.searchKept

end Candidates

end Worklet
