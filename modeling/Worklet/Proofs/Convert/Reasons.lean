import Worklet.Proofs.Convert.Fates

/-!
# Why functions are converted, and in which order

The reason of a conversion is decided by the program as it was read, and a function inside another
is converted before it.

Principal results: `Becomes.accounts` — the functions of a tree account for its conversions;
`transform_reasons` — what a program as it was read says of the reasons and the order of its
conversions.
-/

set_option autoImplicit false

namespace Worklet

open Syntax

/-! ### Reasons of slots -/

/-- The slot makes no function a worklet for a marker. -/
def Slot.Hooked : Slot → Prop
  | .function reason => reason ≠ .directive
  | .arguments detections => ∀ i, detections.lookup i ≠ some (.function .directive)
  | _ => True

section Hooked

variable {hooks : HookRegistry} {w : Slot}

theorem detectArg_ne_directive (name : String) (b : Bool) (i : Nat) (arg : Ast) :
    hooks.detectArg name b i arg ≠ some (.function .directive) := by
  unfold HookRegistry.detectArg
  grind

theorem Slot.Hooked.item (hw : w.Hooked) (i : Nat) : (w.item i).Hooked := by
  unfold Slot.item
  split
  · rename_i detections
    cases hd : detections.lookup i with
    | none => trivial
    | some d =>
      cases d with
      | function reason =>
        rintro rfl
        exact hw i hd
      | objectProperties => trivial
  · trivial

theorem Slot.Hooked.childSlot (hw : w.Hooked) (t : Ast) (i : Nat) :
    (hooks.childSlot w t i).Hooked := by
  unfold HookRegistry.childSlot
  split
  case h_6 s callee args rest =>
    intro i hi
    rw [lookup_detect, Option.bind_eq_some_iff] at hi
    obtain ⟨name, -, hi⟩ := hi
    obtain ⟨arg, -, hi⟩ := Option.bind_eq_some_iff.1 hi
    exact detectArg_ne_directive _ _ _ _ hi
  case h_7 => cases w <;> first | exact hw | trivial
  case h_8 => cases w <;> trivial
  case h_9 value =>
    cases w
    case property => cases hv : isFunctionLiteral value <;> simp [Slot.atValue, hv, Slot.Hooked]
    all_goals trivial
  all_goals trivial

theorem Slot.Hooked.detects (hw : w.Hooked) (t : Ast) : w.detects t ≠ some .directive := by
  unfold Slot.detects
  split
  · exact fun h => hw (Option.some.inj h)
  · exact fun h => hw (Option.some.inj h)
  · simp
  · simp

mutual

/-- No slot of a tree makes a function a worklet for a marker. -/
theorem detected_ne_directive : ∀ (t : Ast) {w : Slot}, w.Hooked →
    ∀ site ∈ functionSites hooks w t, site.detected ≠ some .directive
  | .absent, _, _, _, hs => by
    rw [functionSites] at hs
    cases hs
  | .list ts, _, hw, site, hs => by
    rw [functionSites] at hs
    exact detected_ne_directive_all ts hw.item site hs
  | .node k s cs, w, hw, site, hs => by
    rw [functionSites, List.mem_append] at hs
    rcases hs with hs | hs
    · exact detected_ne_directive_all cs (hw.childSlot _) site hs
    · obtain ⟨subject, -, rfl⟩ := Option.map_eq_some_iff.1 (Option.mem_toList.1 hs)
      exact hw.detects _

theorem detected_ne_directive_all : ∀ (ts : List Ast) {ws : Nat → Slot}, (∀ i, (ws i).Hooked) →
    ∀ site ∈ functionSitesAll hooks ws ts, site.detected ≠ some .directive
  | [], _, _, _, hs => by
    rw [functionSitesAll] at hs
    cases hs
  | t :: ts, _, hw, site, hs => by
    rw [functionSitesAll, List.mem_append] at hs
    rcases hs with hs | hs
    · exact detected_ne_directive t (hw 0) site hs
    · exact detected_ne_directive_all ts (fun i => hw (i + 1)) site hs

end

end Hooked

/-! ### Late entries -/

/-- The slot makes no function a worklet. -/
def Slot.isQuiet : Slot → Bool
  | .plain | .statement | .exported => true
  | _ => false

variable {hooks : HookRegistry} {cache : Option String} {own : Trace} {zs : List (Nat × Conversion)}

section Becomes

variable {job : Job} {w : Slot} {t t' : Ast} {tr : Trace}

theorem isQuiet_childSlot {k : Kind} (hk : k ≠ .call)
    (hw : w.isQuiet = true ∨ isFunctionKind k = true) (s : Span) (cs : List Ast) (i : Nat) :
    (hooks.childSlot w (.node k s cs) i).isQuiet = true := by
  unfold HookRegistry.childSlot
  split
  case h_6 heq =>
    cases heq
    exact absurd rfl hk
  case h_7 heq | h_8 heq | h_9 heq =>
    cases heq
    rcases hw with hw | hw
    · cases w <;> first | rfl | cases hw
    · cases hw
  all_goals rfl

theorem treat_late_eq_nil (h : treat job w t cache = (t', own)) (hw : w.isQuiet = true) :
    own.late = [] := by
  have hd : w.detects t = none := by
    cases w <;> first | rfl | cases hw
  unfold treat at h
  split at h
  · cases h
    rfl
  · rw [hd] at h
    rcases Form.treat_cases h with
      ⟨_, _, _, rfl⟩ | ⟨_, _, ⟨_, _, _, rfl⟩ | ⟨_, _, rfl⟩ | ⟨_, _, h, _⟩⟩
    · rfl
    · rfl
    · rfl
    · cases h

/-- In a slot that makes no function a worklet nothing comes late. -/
theorem Becomes.late_eq_nil (h : Becomes job w t t' tr) (hw : w.isQuiet = true) : tr.late = [] := by
  refine Becomes.induct (P := fun w _ _ tr => w.isQuiet = true → tr.late = [])
    (Q := fun ws _ _ tr => (∀ i, (ws i).isQuiet = true) → tr.late = []) (R := fun _ _ _ => True)
    ?absent ?list ?node ?statements ?switchCase ?nil ?cons ?none ?statement h hw
  case absent => exact fun _ _ => rfl
  case list =>
    intro w ts ts' tr ih hw
    refine ih fun i => ?_
    cases w <;> first | rfl | cases hw
  case node =>
    intro w k s cs cs' t' tr own cache _ _ ht ih hw
    have hown := treat_late_eq_nil ht hw
    by_cases hk : k = .call
    · simp [Trace.append_def, Trace.through, hk, hown]
    · rw [Trace.through_of_ne hk]
      simp [Trace.append_def, ih (isQuiet_childSlot hk (.inl hw) s cs), hown]
  case statements => exact fun _ _ _ _ _ _ _ _ _ _ => rfl
  case switchCase =>
    intro w s test test' ss ss' tr entries _ _ ih _ _
    simp [Trace.append_def, ih rfl]
  case nil => exact fun _ _ => rfl
  case cons =>
    intro ws t t' ts ts' tr tr' _ _ ih ihs hw
    simp [Trace.append_def, ih (hw 0), ihs fun i => hw (i + 1)]
  case none => trivial
  case statement => exact fun _ _ _ _ _ _ _ _ _ _ => trivial

theorem BecomesAll.late_eq_nil : ∀ {ws : Nat → Slot} {ts ts' : List Ast} {tr : Trace},
    BecomesAll job ws ts ts' tr → (∀ i, (ws i).isQuiet = true) → tr.late = []
  | _, _, _, _, .nil, _ => rfl
  | _, _, _, _, .cons h hs rfl, hw => by
    simp [Trace.append_def, h.late_eq_nil (hw 0), hs.late_eq_nil fun i => hw (i + 1)]

/-- The own entries of a node come after those of its parts. -/
theorem entries_node {k : Kind} {s : Span} {cs cs' : List Ast}
    (h : BecomesAll job (job.config.hooks.childSlot w (.node k s cs)) cs cs' tr)
    (ht : treat job w (.node k s cs') cache = (t', own)) :
    (tr.through k ++ own).entries = tr.entries ++ own.entries := by
  have key (hl : (tr.through k).late = []) :
      (tr.through k ++ own).entries = tr.entries ++ own.entries := by
    rw [← Trace.through_entries k tr]
    simp [Trace.entries, Trace.append_def, hl]
  by_cases hk : k = .call
  · exact key (by simp [Trace.through, hk])
  cases hf : isFunctionKind k with
  | true =>
    refine key ?_
    rw [Trace.through_of_ne hk]
    exact h.late_eq_nil (isQuiet_childSlot hk (.inr hf) s cs)
  | false =>
    rw [treat_none (form?_eq_none hf s cs')] at ht
    cases ht
    rw [Trace.append_empty, Trace.through_entries]
    simp [Trace.entries]

end Becomes

/-! ### Functions inside functions -/

/-- Of the functions of a list, in which inner ones come first, one stands inside another. -/
def Inside (sites : List FunctionSite) (j i : Nat) : Prop :=
  ∃ site, sites[i]? = some site ∧ j < i ∧ i ≤ j + site.inner.length

mutual

/-- The functions inside a function come right before it. -/
theorem length_inner_le : ∀ (t : Ast) (w : Slot) {i : Nat}
    {site : FunctionSite}, (functionSites hooks w t)[i]? = some site → site.inner.length ≤ i
  | .absent, _, _, _, hs => by simp [functionSites] at hs
  | .list ts, w, _, _, hs => by
    rw [functionSites] at hs
    exact length_inner_le_all ts w.item hs
  | .node k sp cs, w, i, site, hs => by
    rw [functionSites, List.getElem?_append] at hs
    split at hs
    · exact length_inner_le_all cs _ hs
    · obtain ⟨subject, -, rfl⟩ :=
        Option.map_eq_some_iff.1 (Option.mem_toList.1 (List.mem_of_getElem? hs))
      rw [List.length_map]
      omega

theorem length_inner_le_all : ∀ (ts : List Ast) (ws : Nat → Slot) {i : Nat}
    {site : FunctionSite}, (functionSitesAll hooks ws ts)[i]? = some site → site.inner.length ≤ i
  | [], _, _, _, hs => by simp [functionSitesAll] at hs
  | t :: ts, ws, i, site, hs => by
    rw [functionSitesAll, List.getElem?_append] at hs
    split at hs
    · exact length_inner_le t _ hs
    · have := length_inner_le_all ts _ hs
      omega

end

section Inside

variable {sites sites' : List FunctionSite} {i j : Nat}

theorem inside_left (hi : i < sites.length) : Inside (sites ++ sites') j i ↔ Inside sites j i := by
  unfold Inside
  rw [List.getElem?_append_left hi]

theorem inside_right :
    Inside (sites ++ sites') (sites.length + j) (sites.length + i) ↔ Inside sites' j i := by
  unfold Inside
  rw [List.getElem?_append_right (by omega), Nat.add_sub_cancel_left]
  constructor
  · rintro ⟨site, hs, hlt, hle⟩
    exact ⟨site, hs, by omega, by omega⟩
  · rintro ⟨site, hs, hlt, hle⟩
    exact ⟨site, hs, by omega, by omega⟩

end Inside

/-! ### Accounts -/

/-- Where a converted function stood. -/
def Conversion.span (e : Conversion) : Span :=
  e.prepared.candidate.span

/-- The second of two conversions is of another function, and of none inside the first. -/
def Follows (sites : List FunctionSite) (x y : Nat × Conversion) : Prop :=
  x.1 ≠ y.1 ∧ ¬ Inside sites y.1 x.1

/-- Conversions at their functions: each for the reason its function was asked for, inner ones
first, and what was asked for and is not among them reported. -/
structure Accounts (job : Job) (sites : List FunctionSite) (xs : List (Nat × Conversion))
    (entries : List Entry) : Prop where
  fits : ∀ x ∈ xs, ∃ site, sites[x.1]? = some site ∧ site.span = x.2.span ∧
    site.reason? job.config.marker = some x.2.reason
  order : xs.Pairwise (Follows sites)
  complete : ∀ i site, sites[i]? = some site → (site.reason? job.config.marker).isSome = true →
    i ∈ xs.map Prod.fst ∨ ∃ refusal, .refused ⟨refusal, job.locate site.span⟩ ∈ entries

/-- The conversions further on in a list of functions. -/
def shift (n : Nat) (xs : List (Nat × Conversion)) : List (Nat × Conversion) :=
  xs.map fun x => (n + x.1, x.2)

@[simp] theorem map_snd_shift (n : Nat) (xs : List (Nat × Conversion)) :
    (shift n xs).map Prod.snd = xs.map Prod.snd := by
  simp [shift]

/-- A conversion that holds no other was prepared from the function as it was read. -/
def Prepares (job : Job) (sites : List FunctionSite) (xs : List (Nat × Conversion)) : Prop :=
  ∀ x ∈ xs, ∀ site, sites[x.1]? = some site → (∀ y ∈ xs, ¬ Inside sites y.1 x.1) →
    site.subject.prepare job = .ok x.2.prepared

/-- The functions account for the conversions among the entries. -/
def AccountedBy (job : Job) (sites : List FunctionSite) (entries : List Entry) : Prop :=
  ∃ xs, xs.map Prod.snd = convertedIn entries ∧ Accounts job sites xs entries ∧ Prepares job sites xs

section Accounts

variable {job : Job} {sites sites' : List FunctionSite} {xs xs' late late' : List (Nat × Conversion)}
  {entries entries' all : List Entry}

theorem Accounts.nil : Accounts job [] [] entries :=
  ⟨by simp, .nil, by simp⟩

theorem Accounts.lt_length (h : Accounts job sites xs entries) {x : Nat × Conversion}
    (hx : x ∈ xs) : x.1 < sites.length := by
  obtain ⟨site, hs, -⟩ := h.fits x hx
  exact (List.getElem?_eq_some_iff.1 hs).1

theorem Accounts.order_left (h : Accounts job sites xs entries) (sites' : List FunctionSite) :
    xs.Pairwise (Follows (sites ++ sites')) := by
  refine h.order.imp_of_mem fun {x y} hx _ hxy => ?_
  rw [Follows, inside_left (h.lt_length hx)]
  exact hxy

theorem Accounts.order_right (h : Accounts job sites' xs entries) (sites : List FunctionSite) :
    (shift sites.length xs).Pairwise (Follows (sites ++ sites')) := by
  refine List.pairwise_map.2 (h.order.imp fun {x y} hxy => ?_)
  rw [Follows, inside_right]
  exact ⟨by simpa using hxy.1, hxy.2⟩

/-- A function does not stand inside one before it. -/
theorem follows_shift {x y : Nat × Conversion} (hx : x.1 < sites.length)
    (hy : y ∈ shift sites.length xs) : Follows (sites ++ sites') x y := by
  obtain ⟨z, hz, rfl⟩ := List.mem_map.1 hy
  refine ⟨by simp only; omega, ?_⟩
  rintro ⟨site, -, hlt, -⟩
  simp only at hlt
  omega

/-- A function stands inside none that is further on, unless that holds functions before it. -/
theorem shift_follows {x y : Nat × Conversion}
    (hin : ∀ (i : Nat) (site : FunctionSite), sites'[i]? = some site → site.inner.length ≤ i)
    (hx : x.1 < sites.length) (hy : y ∈ shift sites.length xs) : Follows (sites ++ sites') y x := by
  obtain ⟨z, hz, rfl⟩ := List.mem_map.1 hy
  refine ⟨by simp only; omega, ?_⟩
  rintro ⟨site, hs, hlt, hle⟩
  simp only at hs hlt hle
  rw [List.getElem?_append_right (by omega), Nat.add_sub_cancel_left] at hs
  have := hin _ _ hs
  omega

/-- The conversions of functions and of functions after them, in some order. -/
theorem Accounts.merge (h : Accounts job sites xs entries) (h' : Accounts job sites' xs' entries')
    (hzs : zs.Perm (xs ++ shift sites.length xs'))
    (horder : zs.Pairwise (Follows (sites ++ sites')))
    (hall : ∀ e, e ∈ entries ∨ e ∈ entries' → e ∈ all) :
    Accounts job (sites ++ sites') zs all := by
  refine ⟨?_, horder, ?_⟩
  · intro x hx
    rcases List.mem_append.1 (hzs.mem_iff.1 hx) with hx | hx
    · obtain ⟨site, hs, hfit⟩ := h.fits x hx
      exact ⟨site, by rw [List.getElem?_append_left (h.lt_length hx), hs], hfit⟩
    · obtain ⟨y, hy, rfl⟩ := List.mem_map.1 hx
      obtain ⟨site, hs, hfit⟩ := h'.fits y hy
      refine ⟨site, ?_, hfit⟩
      rw [List.getElem?_append_right (by omega), Nat.add_sub_cancel_left, hs]
  · intro i site hs hasked
    rw [(hzs.map Prod.fst).mem_iff, List.map_append, List.mem_append]
    rw [List.getElem?_append] at hs
    split at hs
    · rcases h.complete i site hs hasked with hmem | ⟨refusal, hmem⟩
      · exact .inl (.inl hmem)
      · exact .inr ⟨refusal, hall _ (.inl hmem)⟩
    · rcases h'.complete _ site hs hasked with hmem | ⟨refusal, hmem⟩
      · obtain ⟨x, hx, hxi⟩ := List.mem_map.1 hmem
        refine .inl (.inr (List.mem_map.2 ⟨(sites.length + x.1, x.2), List.mem_map_of_mem hx, ?_⟩))
        simp only
        omega
      · exact .inr ⟨refusal, hall _ (.inr hmem)⟩

theorem shuffle_perm {α : Type} (a b c d : List α) : (a ++ c ++ (b ++ d)).Perm (a ++ b ++ (c ++ d)) := by
  rw [List.append_assoc, List.append_assoc]
  refine .append_left _ ?_
  rw [← List.append_assoc, ← List.append_assoc]
  exact List.perm_append_comm.append_right _

/-- Conversions of functions come before those of functions around them. -/
theorem Accounts.append (h : Accounts job sites xs entries) (h' : Accounts job sites' xs' entries') :
    Accounts job (sites ++ sites') (xs ++ shift sites.length xs') (entries ++ entries') := by
  refine h.merge h' (.refl _) ?_ fun e he => List.mem_append.2 he
  refine List.pairwise_append.2 ⟨h.order_left _, h'.order_right _, fun x hx y hy => ?_⟩
  exact follows_shift (h.lt_length hx) hy

/-- Conversions of functions, and of functions that stand apart from them, can be shuffled. -/
theorem Accounts.shuffle (h : Accounts job sites (xs ++ late) entries)
    (h' : Accounts job sites' (xs' ++ late') entries')
    (hin : ∀ (i : Nat) (site : FunctionSite), sites'[i]? = some site → site.inner.length ≤ i)
    (hall : ∀ e, e ∈ entries ∨ e ∈ entries' → e ∈ all) :
    Accounts job (sites ++ sites')
      (xs ++ shift sites.length xs' ++ (late ++ shift sites.length late')) all := by
  have hshift : shift sites.length (xs' ++ late') =
      shift sites.length xs' ++ shift sites.length late' := List.map_append
  have hleft := h.order_left sites'
  have hright := h'.order_right sites
  have hbefore : ∀ x ∈ xs ++ late, ∀ y ∈ shift sites.length (xs' ++ late'),
      Follows (sites ++ sites') x y := fun x hx y hy => follows_shift (h.lt_length hx) hy
  have hafter : ∀ x ∈ xs ++ late, ∀ y ∈ shift sites.length (xs' ++ late'),
      Follows (sites ++ sites') y x := fun x hx y hy => shift_follows hin (h.lt_length hx) hy
  rw [hshift] at hright hbefore hafter
  refine h.merge h' ?_ ?_ hall
  · rw [hshift]
    exact shuffle_perm ..
  · simp only [List.pairwise_append, List.mem_append] at hleft hright hbefore hafter ⊢
    obtain ⟨hxs, hlate, hab⟩ := hleft
    obtain ⟨hxs', hlate', hab'⟩ := hright
    refine ⟨⟨hxs, hxs', ?_⟩, ⟨hlate, hlate', ?_⟩, ?_⟩
    · exact fun a ha b hb => hbefore a (.inl ha) b (.inl hb)
    · exact fun a ha b hb => hbefore a (.inr ha) b (.inr hb)
    · rintro a (ha | ha) b (hb | hb)
      · exact hab a ha b hb
      · exact hbefore a (.inl ha) b (.inr hb)
      · exact hafter b (.inr hb) a (.inl ha)
      · exact hab' a ha b hb

theorem AccountedBy.nil : AccountedBy job [] [] :=
  ⟨[], rfl, .nil, fun _ hx => nomatch hx⟩

theorem Prepares.merge (h : Prepares job sites xs) (hlt : ∀ x ∈ xs, x.1 < sites.length)
    (h' : ∀ x ∈ xs', ∀ site, sites'[x.1]? = some site →
      (∀ y ∈ xs ++ shift sites.length xs', ¬ Inside (sites ++ sites') y.1 (sites.length + x.1)) →
      site.subject.prepare job = .ok x.2.prepared)
    (hzs : zs.Perm (xs ++ shift sites.length xs')) :
    Prepares job (sites ++ sites') zs := by
  intro x hx site hs hin
  have hin : ∀ y ∈ xs ++ shift sites.length xs', ¬ Inside (sites ++ sites') y.1 x.1 :=
    fun y hy => hin y (hzs.mem_iff.2 hy)
  rcases List.mem_append.1 (hzs.mem_iff.1 hx) with hx | hx
  · rw [List.getElem?_append_left (hlt x hx)] at hs
    refine h x hx site hs fun y hy => ?_
    rw [← inside_left (hlt x hx)]
    exact hin y (List.mem_append_left _ hy)
  · obtain ⟨z, hz, rfl⟩ := List.mem_map.1 hx
    rw [List.getElem?_append_right (by simp), Nat.add_sub_cancel_left] at hs
    exact h' z hz site hs hin

theorem Prepares.append (h : Prepares job sites xs) (hlt : ∀ x ∈ xs, x.1 < sites.length)
    (h' : Prepares job sites' xs') (hzs : zs.Perm (xs ++ shift sites.length xs')) :
    Prepares job (sites ++ sites') zs := by
  refine h.merge hlt (fun x hx site hs hin => h' x hx site hs fun y hy => ?_) hzs
  rw [← @inside_right sites sites']
  exact hin (sites.length + y.1, y.2) (List.mem_append_right _ (List.mem_map_of_mem hy))

theorem Fits.accounts {site : FunctionSite} {fate : Fate} (h : Fits job site fate)
    (hp : entries.Perm (fate.entries job site)) :
    ∃ xs, xs.map Prod.snd = convertedIn entries ∧ Accounts job [site] xs entries := by
  have hconverted : (convertedIn entries).Perm (convertedIn (fate.entries job site)) :=
    hp.filterMap _
  cases h with
  | ignored hnone =>
    rw [show convertedIn _ = [] from List.perm_nil.1 hconverted]
    refine ⟨[], rfl, by simp, .nil, fun i s hs hasked => ?_⟩
    cases List.mem_singleton.1 (List.mem_of_getElem? hs)
    simp [hnone] at hasked
  | @converted c e hsubject _ _ hspan hreason =>
    rw [show convertedIn _ = [e] from List.perm_singleton.1 hconverted]
    refine ⟨[(0, e)], rfl, ?_, List.pairwise_singleton _ _, ?_⟩
    · intro x hx
      cases List.mem_singleton.1 hx
      refine ⟨site, rfl, ?_, hreason⟩
      rw [FunctionSite.span, hsubject]
      exact hspan.symm
    · intro i s hs _
      have hi := (List.getElem?_eq_some_iff.1 hs).1
      left
      simpa using hi
  | @refused refusal hasked _ =>
    have hnone : convertedIn (Fate.entries job site (.refused refusal)) = [] := by
      simp [Fate.entries, convertedIn]
    rw [hnone, List.perm_nil] at hconverted
    rw [hconverted]
    refine ⟨[], rfl, by simp, .nil, fun i s hs _ => .inr ⟨refusal, ?_⟩⟩
    cases List.mem_singleton.1 (List.mem_of_getElem? hs)
    refine hp.mem_iff.2 (List.mem_replicate.2 ⟨fun hzero => ?_, rfl⟩)
    rw [FunctionSite.asked_eq_zero.1 hzero] at hasked
    cases hasked

end Accounts

section Becomes

variable {job : Job} {w : Slot} {t t' : Ast} {tr : Trace}

theorem Yields.accounts {site : Option FunctionSite} {entries : List Entry}
    (h : Yields job site.toList entries) :
    ∃ xs, xs.map Prod.snd = convertedIn entries ∧ Accounts job site.toList xs entries := by
  obtain ⟨fates, hsites, hfits, hentries⟩ := h
  cases site with
  | none =>
    cases List.map_eq_nil_iff.1 hsites
    rw [List.perm_nil.1 hentries]
    exact ⟨[], rfl, .nil⟩
  | some site =>
    obtain ⟨x, hx, rfl⟩ := List.map_eq_singleton_iff.1 hsites
    subst hx
    refine (hfits x (by simp)).accounts ?_
    simpa using hentries

theorem AccountedBy.both {sites sites' : List FunctionSite} {a b : Trace}
    (h : AccountedBy job sites a.entries) (h' : AccountedBy job sites' b.entries)
    (hin : ∀ (i : Nat) (site : FunctionSite), sites'[i]? = some site → site.inner.length ≤ i) :
    AccountedBy job (sites ++ sites') (a ++ b).entries := by
  obtain ⟨xs, hxs, hacc, hplain⟩ := h
  obtain ⟨xs', hxs', hacc', hplain'⟩ := h'
  rw [Trace.entries, convertedIn_append] at hxs hxs'
  obtain ⟨now, late, rfl, hnow, hlate⟩ := List.map_eq_append_iff.1 hxs
  obtain ⟨now', late', rfl, hnow', hlate'⟩ := List.map_eq_append_iff.1 hxs'
  refine ⟨_, ?_, hacc.shuffle hacc' hin fun e => Trace.mem_entries_append.2, ?_⟩
  · simp [Trace.entries, Trace.append_def, hnow, hnow', hlate, hlate']
  · refine hplain.append (fun x hx => hacc.lt_length hx) hplain' ?_
    rw [show shift sites.length (now' ++ late') = _ from List.map_append]
    exact shuffle_perm ..

theorem prepare_of_treat {e : Conversion} (h : treat job w t cache = (t', own))
    (he : e ∈ convertedIn own.entries) :
    ∃ subject, subject? w t = some subject ∧ subject.prepare job = .ok e.prepared := by
  rw [← subject?_form?]
  unfold treat at h
  split at h
  · cases h
    cases he
  · rename_i f hf
    refine ⟨f.subject, by rw [hf]; rfl, ?_⟩
    rcases Form.treat_cases h with
      ⟨_, _, _, rfl⟩ | ⟨p, hp, ⟨_, _, _, rfl⟩ | ⟨_, _, rfl⟩ | ⟨_, _, _, _, rfl⟩⟩
    · simp only [Trace.entries] at he
      split at he <;> split at he <;> cases show e ∈ [] from he
    · cases he
    · cases List.mem_singleton.1 he
      exact hp
    · cases List.mem_singleton.1 he
      exact hp

theorem accounts_node {k : Kind} {s : Span} {cs cs' : List Ast}
    (hcs : BecomesAll job (job.config.hooks.childSlot w (.node k s cs)) cs cs' tr)
    (ht : treat job w (.node k s cs') cache = (t', own))
    (h : AccountedBy job (functionSitesAll job.config.hooks
      (job.config.hooks.childSlot w (.node k s cs)) cs) tr.entries) :
    AccountedBy job (functionSites job.config.hooks w (.node k s cs)) (tr.through k ++ own).entries := by
  obtain ⟨xs, hxs, hacc, hplain⟩ := h
  obtain ⟨xs', hxs', hacc'⟩ := (treat_yields (subject?_becomes hcs) ht).accounts
  rw [entries_node hcs ht]
  refine ⟨_, by simp [hxs, hxs'], hacc.append hacc', ?_⟩
  refine hplain.merge (fun x hx => hacc.lt_length hx) (fun x hx site hs hin => ?_) (.refl _)
  obtain ⟨subject, hsubject, hsite⟩ :=
    Option.map_eq_some_iff.1 (Option.mem_toList.1 (List.mem_of_getElem? hs))
  have hzero : x.1 = 0 := by
    have := (List.getElem?_eq_some_iff.1 hs).1
    rw [hsubject] at this
    simpa using this
  -- every conversion of the parts is inside the node
  have hnone : xs = [] := by
    refine List.eq_nil_iff_forall_not_mem.2 fun y hy => ?_
    refine hin y (List.mem_append_left _ hy) ⟨site, ?_, ?_, ?_⟩
    · rw [List.getElem?_append_right (by omega), Nat.add_sub_cancel_left, hs]
    · have := hacc.lt_length hy
      omega
    · rw [← hsite, List.length_map]
      omega
  have hsame : cs' = cs := by
    refine hcs.unchanged fun e he => ?_
    have he := mem_convertedIn.2 he
    rw [← hxs, hnone] at he
    cases he
  have he : x.2 ∈ convertedIn own.entries := by
    rw [← hxs']
    exact List.mem_map_of_mem hx
  obtain ⟨subject', hsubject', hp⟩ := prepare_of_treat ht he
  rw [hsame, hsubject] at hsubject'
  cases hsubject'
  subst hsite
  exact hp

/-- **The functions of a tree account for its conversions.** -/
theorem Becomes.accounts (h : Becomes job w t t' tr) :
    AccountedBy job (functionSites job.config.hooks w t) tr.entries :=
  h.gathers .nil accounts_node fun ih ihs => ih.both ihs fun _ _ hs => length_inner_le_all _ _ hs

end Becomes

/-- **The reasons and the order of conversions are decided by the program as it was read.** Each
conversion is of another function of the program. A function that began with the marker is converted
for its marker, and any other for what was detected in the call as it was read. What is asked for
and not converted is reported. A function inside another is converted before it. -/
theorem transform_reasons (config : Config) (p : Program) (hroot : isModule p.module = true) :
    ∃ positions : List Nat,
      List.Forall₂ (fun i e => ∃ site, (functionSites config.hooks .plain p.module)[i]? = some site ∧
          site.span = e.span ∧ (e.reason = .directive ↔ site.isMarked config.marker = true) ∧
          (site.isMarked config.marker = false → site.detected = some e.reason))
        positions (transform config p).conversions ∧
      (∀ i site, (functionSites config.hooks .plain p.module)[i]? = some site →
        (site.reason? config.marker).isSome = true →
        i ∈ positions ∨ ∃ refusal,
          ⟨refusal, (Job.ofProgram config p).locate site.span⟩ ∈ (transform config p).diagnostics) ∧
      positions.Pairwise fun i j =>
        i ≠ j ∧ ¬ Inside (functionSites config.hooks .plain p.module) j i := by
  obtain ⟨module, entries, hb, -, hconverted, hrefused, -⟩ := transform_becomes config hroot
  obtain ⟨xs, hxs, hacc, -⟩ := hb.accounts
  simp only [Trace.entries, List.append_nil] at hxs hacc
  rw [hconverted, hrefused]
  refine ⟨xs.map Prod.fst, ?_, ?_, List.pairwise_map.2 hacc.order⟩
  · rw [← hxs, List.forall₂_map_left_iff, List.forall₂_map_right_iff, List.forall₂_same]
    intro x hx
    obtain ⟨site, hs, hspan, hreason⟩ := hacc.fits x hx
    refine ⟨site, hs, hspan, ?_⟩
    have hne := detected_ne_directive p.module (w := .plain) trivial site (List.mem_of_getElem? hs)
    change site.reason? config.marker = some x.2.reason at hreason
    unfold FunctionSite.reason? at hreason
    cases hm : site.isMarked config.marker with
    | true =>
      rw [hm, if_pos rfl] at hreason
      exact ⟨⟨fun _ => rfl, fun _ => (Option.some.inj hreason).symm⟩, fun h => by cases h⟩
    | false =>
      rw [hm, if_neg (by simp)] at hreason
      refine ⟨⟨fun h => ?_, fun h => by cases h⟩, fun _ => hreason⟩
      rw [h] at hreason
      exact absurd hreason hne
  · intro i site hs hasked
    rcases hacc.complete i site hs hasked with hmem | ⟨refusal, hmem⟩
    · exact .inl hmem
    · exact .inr ⟨refusal, List.mem_filterMap.2 ⟨_, hmem, rfl⟩⟩

/-- The arrow that `sampleHooks` hands to a hook holds a marked one, which is converted before it. -/
theorem transform_reasons_sampleHooks :
    let sites := functionSites Config.standard.hooks .plain sampleHooks.module
    ∃ i j a b, sites[i]? = some a ∧ sites[j]? = some b ∧ a.isMarked Config.standard.marker = true ∧
      b.detected = some .hookArgument ∧ i ≠ j ∧ ¬ Inside sites j i := by
  intro sites
  obtain ⟨positions, hsites, -, horder⟩ := transform_reasons .standard sampleHooks rfl
  have hreasons : (transform .standard sampleHooks).conversions.map (·.reason) =
      [.directive, .hookArgument] := by decide +kernel
  generalize (transform .standard sampleHooks).conversions = es at hsites hreasons
  obtain ⟨e₁, es, rfl, he₁, hreasons⟩ := List.map_eq_cons_iff.1 hreasons
  obtain ⟨e₂, es, rfl, he₂, -⟩ := List.map_eq_cons_iff.1 hreasons
  obtain _ | ⟨⟨a, ha, -, hmarked, -⟩, _ | ⟨⟨b, hb, -, hunmarked, hdetected⟩, -⟩⟩ := hsites
  rw [List.pairwise_cons] at horder
  have hb' : b.isMarked Config.standard.marker = false := by
    rw [he₂] at hunmarked
    simpa using hunmarked
  exact ⟨_, _, a, b, ha, hb, hmarked.1 he₁, he₂ ▸ hdetected hb', horder.1 _ List.mem_cons_self⟩

end Worklet
