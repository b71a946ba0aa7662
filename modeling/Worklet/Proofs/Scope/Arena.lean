import Mathlib.Order.RelClasses
import Worklet.Proofs.Scope.Ancestry
import Worklet.Proofs.Scope.Homes

/-!
# The tree of scopes

Scopes are numbered as they open, and each has the scope around it as its parent. Walks along parents end, and
what they find is the nearest scope of its kind.

Principal result: `ofModule_arena` — the scopes of every module.
-/

set_option autoImplicit false

namespace Worklet

open Syntax Outline

variable {s : Scope} {n : String} {kind : BindingKind} {i j : Nat} {k : ScopeKind} {seated : Bool}

namespace ScopeTable

/-! ### What the pass keeps -/

def kindAt? (t : ScopeTable) (i : Nat) : Option ScopeKind :=
  (t.scope? i).map (·.kind)

theorem kindAt?_eq (t : ScopeTable) (i : Nat) : t.kindAt? i = (t.shape[i]?).map (·.1) := by
  rw [kindAt?, scope?, shape, List.getElem?_map, Option.map_map]
  rfl

/-- What every step of the pass keeps: only the first scope is a module, references stand in scopes,
functions have scopes of functions, and bindings are at home. -/
structure Kept (seated : Bool) (t : ScopeTable) : Prop where
  root : t.kindAt? root = some .module
  inner : ∀ i, 0 < i → t.kindAt? i ≠ some .module
  references : ∀ r ∈ t.references, r.scope < t.scopes.length
  functions : ∀ e ∈ t.functions, t.kindAt? e.2 = some .function
  bindings : ∀ i s, t.scope? i = some s → ∀ b ∈ s.bindings,
    IsHome seated s.kind b.2 ∧ (b.2 = .var → s.kind.isFunctionBoundary = true)

section Steps

variable {t : ScopeTable} {id : Nat}

theorem Kept.empty : Kept seated ScopeTable.empty where
  root := rfl
  inner i hi := by
    cases i with
    | zero => cases hi
    | succ i => nofun
  references := nofun
  functions := nofun
  bindings i s hs b hb := by
    cases i with
    | zero =>
      cases hs
      cases hb
    | succ i => cases hs

theorem Kept.refer (h : t.Kept seated) (hid : id < t.scopes.length) (n : String) :
    (t.refer id n).Kept seated where
  root := h.root
  inner := h.inner
  references r hr := by
    rcases List.mem_append.1 hr with hr | hr
    · exact h.references r hr
    · obtain rfl := List.mem_singleton.1 hr
      exact hid
  functions := h.functions
  bindings := h.bindings

theorem Kept.isBoundary_nearestFunction (h : t.Kept seated) (id : Nat) :
    t.isBoundary (t.nearestFunction id) = true := by
  unfold nearestFunction
  cases hf : (t.chain id).find? t.isBoundary with
  | none =>
    obtain ⟨s, hs, hk⟩ := Option.map_eq_some_iff.1 h.root
    simp [isBoundary, hs, hk, ScopeKind.isFunctionBoundary]
  | some j => exact List.find?_some hf

/-- The scope that binds what is declared in a scope. -/
def homeOf (t : ScopeTable) (id : Nat) (kind : BindingKind) : Nat :=
  if kind.isFunctionScoped then t.nearestFunction id else id

theorem scope?_declare (t : ScopeTable) (id : Nat) (n : String) (kind : BindingKind) (i : Nat) :
    (t.declare id n kind).scope? i =
      (t.scope? i).map fun s => if t.homeOf id kind = i then s.bind n kind else s := by
  change (t.scopes.modify (t.homeOf id kind) fun s => s.bind n kind)[i]? = _
  rw [List.getElem?_modify]
  rfl

theorem mem_bindings_bind {b : String × BindingKind} (h : b ∈ (s.bind n kind).bindings) :
    b ∈ s.bindings ∨ b = (n, kind) := by
  unfold Scope.bind at h
  split at h
  · exact .inl h
  · simpa using h

theorem Kept.declare (h : t.Kept seated) {scope : ScopeKind} (hscope : t.kindAt? id = some scope)
    (n : String) (hhome : IsHome seated scope kind) :
    (t.declare id n kind).Kept seated := by
  have hkind : ∀ i, (t.declare id n kind).kindAt? i = t.kindAt? i := by
    intro i
    rw [kindAt?, kindAt?, scope?_declare, Option.map_map]
    congr 1
    funext s
    rw [Function.comp, apply_ite Scope.kind, bind_kind, ite_self]
  refine ⟨by rw [hkind, h.root], fun i hi => by rw [hkind]; exact h.inner i hi, ?_,
    fun e he => by rw [hkind]; exact h.functions e he, ?_⟩
  · intro r hr
    simpa [ScopeTable.declare] using h.references r hr
  · intro i s' hs' b hb
    rw [scope?_declare] at hs'
    obtain ⟨s, hs, rfl⟩ := Option.map_eq_some_iff.1 hs'
    by_cases hi : t.homeOf id kind = i
    · rw [if_pos hi] at hb ⊢
      rw [bind_kind]
      rcases mem_bindings_bind hb with hb | rfl
      · exact h.bindings i s hs b hb
      -- The new binding: a variable goes to the nearest function, all else stays.
      cases hvar : kind.isFunctionScoped with
      | true =>
        obtain rfl : kind = .var := by cases kind <;> first | rfl | cases hvar
        have hboundary := h.isBoundary_nearestFunction id
        rw [homeOf, if_pos hvar] at hi
        rw [hi, isBoundary, hs, Option.any_some] at hboundary
        exact ⟨⟨by simp, by simp, by simp⟩, fun _ => hboundary⟩
      | false =>
        rw [homeOf, hvar, if_neg Bool.false_ne_true] at hi
        rw [hi, kindAt?, hs, Option.map_some] at hscope
        obtain rfl := Option.some.inj hscope
        refine ⟨hhome, ?_⟩
        rintro rfl
        cases hvar
    · rw [if_neg hi] at hb ⊢
      exact h.bindings i s hs b hb

theorem scope?_openScope (t : ScopeTable) (id : Nat) (k : ScopeKind) (f : Option Span) (i : Nat) :
    (t.openScope id k f).scope? i =
      if i = t.scopes.length then some ⟨k, t.chain id, []⟩ else t.scope? i := by
  simp only [openScope, scope?, List.getElem?_append]
  split
  · rw [if_neg (by omega)]
  · rename_i hge
    split
    · rename_i heq
      simp [heq]
    · rw [List.getElem?_eq_none (by simp; omega), List.getElem?_eq_none (by omega)]

theorem kindAt?_openScope (t : ScopeTable) (id : Nat) (k : ScopeKind) (f : Option Span) (i : Nat) :
    (t.openScope id k f).kindAt? i = if i = t.scopes.length then some k else t.kindAt? i := by
  rw [kindAt?, scope?_openScope]
  split <;> rfl

theorem lt_of_kindAt? (h : t.kindAt? i = some k) : i < t.scopes.length := by
  obtain ⟨s, hs, -⟩ := Option.map_eq_some_iff.1 h
  exact (List.getElem?_eq_some_iff.1 hs).1

theorem Kept.openScope (h : t.Kept seated) (hk : k ≠ .module) {f : Option Span}
    (hf : f.isSome = true → k = .function) : (t.openScope id k f).Kept seated := by
  have hlen : (t.openScope id k f).scopes.length = t.scopes.length + 1 := by
    simp [ScopeTable.openScope]
  have hpos : 0 < t.scopes.length := lt_of_kindAt? h.root
  refine ⟨?_, ?_, ?_, ?_, ?_⟩
  · rw [kindAt?_openScope, if_neg (by unfold ScopeTable.root; omega)]
    exact h.root
  · intro i hi
    rw [kindAt?_openScope]
    split
    · simpa using hk
    · exact h.inner i hi
  · intro r hr
    have := h.references r hr
    omega
  · intro e he
    rw [(openScope_adds t id k f).functions, List.mem_append, List.mem_reverse] at he
    rw [kindAt?_openScope]
    rcases he with he | he
    · unfold functionEntry at he
      split at he
      · rename_i span
        split at he
        · cases he
        · obtain rfl := List.mem_singleton.1 he
          simp [hf rfl]
      · cases he
    · have hold := h.functions e he
      rw [if_neg (by have := lt_of_kindAt? hold; omega), hold]
  · intro i s hs b hb
    rw [scope?_openScope] at hs
    split at hs
    · cases hs
      cases hb
    · exact h.bindings i s hs b hb

end Steps

mutual

theorem Kept.add : ∀ (o : Outline) {t : ScopeTable} {id : Nat} {scope : ScopeKind},
    t.Formed → t.Kept seated → t.kindAt? id = some scope → Homely seated scope o →
    (t.add id o).Kept seated
  | .reference n, _, _, _, _, h, hscope, _ => h.refer (lt_of_kindAt? hscope) n
  | .declare n _, _, _, _, _, h, hscope, ho => h.declare hscope n ho
  | .scope k f body, _, id, _, hformed, h, _, ho => by
    refine Kept.addAll body (hformed.openScope id k f) (h.openScope ho.1 ho.2.1) ?_ ho.2.2
    rw [kindAt?_openScope, if_pos rfl]

theorem Kept.addAll : ∀ (os : List Outline) {t : ScopeTable} {id : Nat} {scope : ScopeKind},
    t.Formed → t.Kept seated → t.kindAt? id = some scope → AllHomely seated scope os →
    (t.addAll id os).Kept seated
  | [], _, _, _, _, h, _, _ => h
  | o :: os, _, _, _, hformed, h, hscope, hos => by
    have hlt := lt_of_kindAt? hscope
    obtain ⟨hadds, hformed'⟩ := add_adds o hformed hlt
    refine Kept.addAll os hformed' (Kept.add o hformed h hscope hos.1) ?_ hos.2
    rw [kindAt?_eq, hadds.shape, List.getElem?_append_left (by simpa using hlt), ← kindAt?_eq, hscope]

end

theorem ofModule_kept (seated : Bool) (module : Ast)
    (h : seated = true → isSeated .program module = true) : (ofModule module).Kept seated :=
  Kept.addAll (outline module) empty_formed Kept.empty rfl (homely_outline seated module h)

/-! ### Walks from scope to parent -/

section Tree

variable {t : ScopeTable}

def parentOf? (t : ScopeTable) (i : Nat) : Option Nat :=
  (t.scope? i).bind Scope.parent?

theorem parentOf?_of_chain {rest : List Nat} (h : t.chain i = i :: j :: rest) :
    t.parentOf? i = some j := by
  unfold chain at h
  split at h
  · rename_i s hs
    rw [parentOf?, hs, Option.bind_some, Scope.parent?, (List.cons.inj h).2, List.head?_cons]
  · cases h

theorem IsTree.chain_eq_cons (ht : t.IsTree) (hs : t.scope? i = some s) :
    t.chain i = i :: ((t.parentOf? i).map t.chain).getD [] ∧
      (i = 0 → t.parentOf? i = none) ∧ (i ≠ 0 → ∃ p < i, t.parentOf? i = some p) := by
  have hlt : i < t.scopes.length := (List.getElem?_eq_some_iff.1 hs).1
  have hchain : t.chain i = i :: s.around := by rw [chain, hs]
  have hparent : t.parentOf? i = s.around.head? := by rw [parentOf?, hs, Option.bind_some, Scope.parent?]
  rcases Nat.eq_zero_or_pos i with rfl | hpos
  · have haround : s.around = [] := by
      rw [ht.root] at hchain
      exact (List.cons.inj hchain).2.symm
    rw [hparent, haround]
    exact ⟨hchain.trans (by rw [haround]; rfl), fun _ => rfl, fun h => (h rfl).elim⟩
  · obtain ⟨p, hp, heq⟩ := ht.parent i hpos hlt
    have haround : s.around = t.chain p := by
      rw [hchain] at heq
      exact (List.cons.inj heq).2
    have hself : (t.chain p).head? = some p := by
      rw [ScopeTable.chain_eq, List.getElem?_eq_getElem (by simp only [length_shape]; omega)]
      rfl
    rw [hparent, haround, hself]
    exact ⟨heq, fun h => by omega, fun _ => ⟨p, hp, rfl⟩⟩

/-- Looking a name up goes from scope to parent. -/
theorem IsTree.resolve_step (ht : t.IsTree) (i : Nat) (n : String) :
    t.resolve i n = (t.scope? i).bind fun s =>
      match s.binding? n with
      | some kind => some ⟨i, kind⟩
      | none => s.parent?.bind fun p => t.resolve p n := by
  cases hs : t.scope? i with
  | none => rw [resolve, chain, hs]; rfl
  | some s =>
    have hchain := (ht.chain_eq_cons hs).1
    have hparent : t.parentOf? i = s.parent? := by rw [parentOf?, hs, Option.bind_some]
    rw [hparent] at hchain
    rw [resolve, hchain, List.findSome?_cons, hs, Option.bind_some, Option.bind_some]
    cases s.binding? n with
    | some kind => rfl
    | none =>
      cases s.parent? with
      | none => rfl
      | some p => rfl

theorem isWithin_eq_true : t.isWithin i j = true ↔ i = j ∨ j ∈ t.chain i := by
  simp [isWithin]

theorem mem_chain_self (hs : t.scope? i = some s) : i ∈ t.chain i := by
  rw [chain, hs]
  exact List.mem_cons_self

/-- Whether a scope lies in another is found out from scope to parent. -/
theorem IsTree.isWithin_step (ht : t.IsTree) (i j : Nat) :
    t.isWithin i j = (i == j || (t.parentOf? i).any fun p => t.isWithin p j) := by
  rw [Bool.eq_iff_iff, isWithin_eq_true, Bool.or_eq_true, beq_iff_eq]
  cases hs : t.scope? i with
  | none =>
    have hparent : t.parentOf? i = none := by rw [parentOf?, hs, Option.bind_none]
    have hchain : t.chain i = [] := by rw [chain, hs]
    simp [hparent, hchain]
  | some s =>
    obtain ⟨hchain, -, hup⟩ := ht.chain_eq_cons hs
    rw [hchain, List.mem_cons]
    cases hp : t.parentOf? i with
    | none => simp [eq_comm]
    | some p =>
      have hlt : i < t.scopes.length := (List.getElem?_eq_some_iff.1 hs).1
      have hpos : i ≠ 0 := by
        rintro rfl
        rw [(ht.chain_eq_cons hs).2.1 rfl] at hp
        cases hp
      obtain ⟨p', hp', heq⟩ := hup hpos
      obtain rfl : p = p' := Option.some.inj (hp.symm.trans heq)
      have hself : p ∈ t.chain p := mem_chain_self (List.getElem?_eq_getElem (by omega))
      simp only [Option.map_some, Option.getD_some, Option.any_some, isWithin_eq_true]
      constructor
      · rintro (rfl | rfl | h)
        · exact .inl rfl
        · exact .inl rfl
        · exact .inr (.inr h)
      · rintro (rfl | rfl | h)
        · exact .inl rfl
        · exact .inr (.inr hself)
        · exact .inr (.inr h)

/-- The nearest function is looked for from scope to parent, and the walk does not run out of scopes. -/
theorem Kept.nearestFunction_step (ht : t.IsTree) (hk : t.Kept seated) (hs : t.scope? i = some s) :
    if s.kind.isFunctionBoundary then t.nearestFunction i = i
    else ∃ p, s.parent? = some p ∧ t.nearestFunction i = t.nearestFunction p := by
  obtain ⟨hchain, -, hup⟩ := ht.chain_eq_cons hs
  have hboundary : t.isBoundary i = s.kind.isFunctionBoundary := by rw [isBoundary, hs, Option.any_some]
  have hparent : t.parentOf? i = s.parent? := by rw [parentOf?, hs, Option.bind_some]
  split
  · rename_i h
    rw [nearestFunction, hchain, List.find?_cons, hboundary, h]
    rfl
  · rename_i h
    have hpos : i ≠ 0 := by
      rintro rfl
      have hroot := hk.root
      rw [kindAt?, ScopeTable.root, hs, Option.map_some] at hroot
      rw [Option.some.inj hroot] at h
      exact h rfl
    obtain ⟨p, -, hp⟩ := hup hpos
    have hinner : s.kind.isFunctionBoundary = false := by simpa using h
    refine ⟨p, hparent.symm.trans hp, ?_⟩
    rw [nearestFunction, hchain, List.find?_cons, hboundary, hinner, hp]
    rfl

/-! ### The order of scopes -/

theorem IsTree.chain_pairwise (ht : t.IsTree) : ∀ i, (t.chain i).Pairwise (· > ·) := by
  intro i
  induction i using Nat.strongRecOn with
  | ind i ih =>
    cases hs : t.scope? i with
    | none =>
      have hchain : t.chain i = [] := by rw [chain, hs]
      rw [hchain]
      exact .nil
    | some s =>
      have hlt : i < t.scopes.length := (List.getElem?_eq_some_iff.1 hs).1
      rcases Nat.eq_zero_or_pos i with rfl | hpos
      · rw [ht.root]
        exact List.pairwise_singleton _ _
      · obtain ⟨p, hp, heq⟩ := ht.parent i hpos hlt
        rw [heq, List.pairwise_cons]
        refine ⟨fun j hj => ?_, ih p hp⟩
        have hfirst : ∃ tail, t.chain p = p :: tail := by
          rw [ScopeTable.chain_eq, List.getElem?_eq_getElem (by simp only [length_shape]; omega)]
          exact ⟨_, rfl⟩
        obtain ⟨tail, htail⟩ := hfirst
        have hdesc := ih p hp
        rw [htail, List.pairwise_cons] at hdesc
        rw [htail, List.mem_cons] at hj
        rcases hj with rfl | hj
        · exact hp
        · have := hdesc.1 j hj
          omega

theorem IsTree.le_of_mem_chain (ht : t.IsTree) (h : j ∈ t.chain i) : j ≤ i := by
  have hdesc := ht.chain_pairwise i
  cases hs : t.scope? i with
  | none =>
    rw [chain, hs] at h
    cases h
  | some s =>
    rw [(ht.chain_eq_cons hs).1] at h hdesc
    rw [List.pairwise_cons] at hdesc
    rcases List.mem_cons.1 h with rfl | h
    · exact Nat.le_refl _
    · exact Nat.le_of_lt (hdesc.1 j h)

theorem IsTree.isPartialOrder (ht : t.IsTree) : IsPartialOrder Nat fun i j => t.isWithin i j = true where
  refl i := isWithin_eq_true.2 (.inl rfl)
  trans i j k hij hjk := by
    rw [isWithin_eq_true] at *
    rcases hij with rfl | hij
    · exact hjk
    · rcases hjk with rfl | hjk
      · exact .inr hij
      · exact .inr (ht.mem_chain_trans hij hjk)
  antisymm i j hij hji := by
    rw [isWithin_eq_true] at *
    rcases hij with rfl | hij
    · rfl
    · rcases hji with rfl | hji
      · rfl
      · exact Nat.le_antisymm (ht.le_of_mem_chain hji) (ht.le_of_mem_chain hij)

/-- Of two scopes around a scope one lies in the other. -/
theorem IsTree.isWithin_or_isWithin (ht : t.IsTree) {k : Nat} (hij : t.isWithin i j = true)
    (hik : t.isWithin i k = true) : t.isWithin j k = true ∨ t.isWithin k j = true := by
  rw [isWithin_eq_true] at hij hik
  rcases hij with rfl | hij
  · exact .inl (isWithin_eq_true.2 hik)
  · rcases hik with rfl | hik
    · exact .inr (isWithin_eq_true.2 (.inr hij))
    · obtain ⟨inner, hsplit, hinner⟩ := ht.chain_split hij
      rw [hsplit] at hik
      rcases List.mem_append.1 hik with hk | hk
      · exact .inr (isWithin_eq_true.2 (.inr (hinner k hk)))
      · exact .inl (isWithin_eq_true.2 (.inr hk))

/-- A scope that binds a name is one of the table. -/
theorem mem_chain_of_bound (h : t.isWithin i j = true) (hb : (t.boundIn j n).isSome = true) :
    j ∈ t.chain i := by
  rcases isWithin_eq_true.1 h with rfl | h
  · cases hs : t.scope? i with
    | none => simp [boundIn, hs] at hb
    | some s => exact mem_chain_self hs
  · exact h

/-- A name denotes the binding of the nearest scope that binds it. -/
theorem IsTree.nearest_of_resolve (ht : t.IsTree) {b : Resolution} (h : t.resolve i n = some b) :
    t.isWithin i b.scope = true ∧ t.boundIn b.scope n = some b.kind ∧
      ∀ j, t.isWithin i j = true → (t.boundIn j n).isSome = true → t.isWithin b.scope j = true := by
  rw [resolve_eq, nearest, List.findSome?_eq_some_iff] at h
  obtain ⟨before, a, after, hsplit, hb, hbefore⟩ := h
  obtain ⟨kind, hkind, rfl⟩ := Option.map_eq_some_iff.1 hb
  have ha : a ∈ t.chain i := hsplit ▸ List.mem_append_right _ List.mem_cons_self
  refine ⟨isWithin_eq_true.2 (.inr ha), hkind, fun j hj hbound => ?_⟩
  have hmem := mem_chain_of_bound hj hbound
  rcases ht.isWithin_or_isWithin (isWithin_eq_true.2 (.inr ha)) hj with h | h
  · exact h
  -- A scope that lies in the one found stands before it in the chain, where nothing is bound.
  · rw [hsplit, List.mem_append, List.mem_cons] at hmem
    rcases hmem with hmem | rfl | hmem
    · rw [Option.map_eq_none_iff.1 (hbefore j hmem)] at hbound
      cases hbound
    · exact h
    · have hdesc := ht.chain_pairwise i
      rw [hsplit, List.pairwise_append, List.pairwise_cons] at hdesc
      have hlt := hdesc.2.1.1 j hmem
      rcases isWithin_eq_true.1 h with rfl | h
      · omega
      · have := ht.le_of_mem_chain h
        omega

theorem IsTree.resolve_eq_some_iff (ht : t.IsTree) (i : Nat) (n : String) (b : Resolution) :
    t.resolve i n = some b ↔
      t.isWithin i b.scope = true ∧ t.boundIn b.scope n = some b.kind ∧
        ∀ j, t.isWithin i j = true → (t.boundIn j n).isSome = true → t.isWithin b.scope j = true := by
  refine ⟨ht.nearest_of_resolve, fun ⟨hwithin, hbound, hnearest⟩ => ?_⟩
  have hsome : (t.boundIn b.scope n).isSome = true := by rw [hbound, Option.isSome_some]
  cases hres : t.resolve i n with
  | none =>
    have hnone := resolve_eq_none.1 hres b.scope (mem_chain_of_bound hwithin hsome)
    rw [hnone] at hsome
    cases hsome
  | some b' =>
    obtain ⟨hwithin', hbound', hnearest'⟩ := ht.nearest_of_resolve hres
    have hscope : b'.scope = b.scope := ht.isPartialOrder.antisymm _ _
      (hnearest' b.scope hwithin hsome) (hnearest b'.scope hwithin' (by rw [hbound', Option.isSome_some]))
    rw [hscope, hbound] at hbound'
    obtain ⟨scope, kind⟩ := b
    obtain ⟨scope', kind'⟩ := b'
    cases hscope
    cases hbound'
    rfl

end Tree

/-- The scopes are a tree with the module at its root; references stand in scopes, functions have scopes of
functions, and variables and caught values are bound where they may. -/
structure Arena (t : ScopeTable) : Prop where
  root : ∃ s, t.scope? root = some s ∧ s.kind = .module ∧ s.parent? = none
  inner : ∀ i s, i ≠ ScopeTable.root → t.scope? i = some s →
    s.kind ≠ .module ∧ ∃ p < i, s.parent? = some p
  references : ∀ r ∈ t.references, r.scope < t.scopes.length
  functions : ∀ span i, (span, i) ∈ t.functions → ∃ s, t.scope? i = some s ∧ s.kind = .function
  vars : ∀ i s n, t.scope? i = some s → (n, .var) ∈ s.bindings → s.kind = .module ∨ s.kind = .function
  caught : ∀ i s n, t.scope? i = some s → (n, .catchParam) ∈ s.bindings → s.kind = .catch

/-- Parameters are bound in functions, and imports in the module. -/
structure BindsAtHome (t : ScopeTable) : Prop where
  params : ∀ i s n, t.scope? i = some s → (n, .param) ∈ s.bindings → s.kind = .function
  imports : ∀ i s n, t.scope? i = some s → (n, .import) ∈ s.bindings → i = root

/-- What is asked about a scope is found out by walking from scope to parent. Lying in a scope is a partial
order in which the scopes around a scope form a chain, and a name denotes the binding of the nearest scope
that binds it. -/
structure Walks (t : ScopeTable) : Prop where
  resolve : ∀ i n, t.resolve i n = (t.scope? i).bind fun s =>
    match s.binding? n with
    | some kind => some ⟨i, kind⟩
    | none => s.parent?.bind fun p => t.resolve p n
  isWithin : ∀ i j, t.isWithin i j = (i == j || (t.parentOf? i).any fun p => t.isWithin p j)
  nearestFunction : ∀ i s, t.scope? i = some s →
    if s.kind.isFunctionBoundary then t.nearestFunction i = i
    else ∃ p, s.parent? = some p ∧ t.nearestFunction i = t.nearestFunction p
  order : IsPartialOrder Nat fun i j => t.isWithin i j = true
  chains : ∀ i j k, t.isWithin i j = true → t.isWithin i k = true →
    t.isWithin j k = true ∨ t.isWithin k j = true
  nearest : ∀ i n b, t.resolve i n = some b ↔
    t.isWithin i b.scope = true ∧ t.boundIn b.scope n = some b.kind ∧
      ∀ j, t.isWithin i j = true → (t.boundIn j n).isSome = true → t.isWithin b.scope j = true

section Module

variable {t : ScopeTable}

theorem Kept.arena (ht : t.IsTree) (h : t.Kept seated) : t.Arena := by
  have hkind {i : Nat} {s : Scope} {k : ScopeKind} (hs : t.scope? i = some s) (hk : t.kindAt? i = some k) :
      s.kind = k := by
    rw [kindAt?, hs, Option.map_some] at hk
    exact Option.some.inj hk
  have hparent {i : Nat} {s : Scope} (hs : t.scope? i = some s) : t.parentOf? i = s.parent? := by
    rw [parentOf?, hs, Option.bind_some]
  refine ⟨?_, ?_, h.references, ?_, ?_, ?_⟩
  · obtain ⟨s, hs, hk⟩ := Option.map_eq_some_iff.1 h.root
    exact ⟨s, hs, hk, (hparent hs).symm.trans ((ht.chain_eq_cons hs).2.1 rfl)⟩
  · intro i s hi hs
    obtain ⟨p, hp, heq⟩ := (ht.chain_eq_cons hs).2.2 hi
    refine ⟨fun hmodule => ?_, p, hp, (hparent hs).symm.trans heq⟩
    exact h.inner i (Nat.pos_of_ne_zero hi) (by rw [kindAt?, hs, Option.map_some, hmodule])
  · intro span i he
    exact Option.map_eq_some_iff.1 (h.functions _ he)
  · intro i s n hs hb
    have hboundary := (h.bindings i s hs _ hb).2 rfl
    cases hk : s.kind with
    | module => exact .inl rfl
    | function => exact .inr rfl
    | _ => rw [hk] at hboundary; cases hboundary
  · intro i s n hs hb
    exact (h.bindings i s hs _ hb).1.caught rfl

theorem Kept.bindsAtHome (h : t.Kept true) : t.BindsAtHome where
  params i s n hs hb := (h.bindings i s hs _ hb).1.param rfl rfl
  imports i s n hs hb := by
    have hmodule := (h.bindings i s hs _ hb).1.imported rfl rfl
    by_contra hi
    exact h.inner i (Nat.pos_of_ne_zero hi) (by rw [kindAt?, hs, Option.map_some, hmodule])

theorem Kept.walks (ht : t.IsTree) (h : t.Kept seated) : t.Walks where
  resolve := ht.resolve_step
  isWithin := ht.isWithin_step
  nearestFunction _ _ hs := h.nearestFunction_step ht hs
  order := ht.isPartialOrder
  chains _ _ _ := ht.isWithin_or_isWithin
  nearest := ht.resolve_eq_some_iff

end Module

end ScopeTable

/-! ### Entering and leaving -/

/-- A step of the pass. -/
inductive Event where
  | refer (name : String)
  | declare (name : String) (kind : BindingKind)
  | enter (kind : ScopeKind) (function : Option Span)
  | leave

mutual

/-- The steps for a fact. -/
def Outline.events : Outline → List Event
  | .reference n => [.refer n]
  | .declare n k => [.declare n k]
  | .scope k f body => .enter k f :: Outline.eventsAll body ++ [.leave]

def Outline.eventsAll : List Outline → List Event
  | [] => []
  | o :: os => Outline.events o ++ Outline.eventsAll os

end

/-- The pass at work: the table so far and the scope it is in. -/
structure Cursor where
  table : ScopeTable
  current : Nat

namespace Cursor

/-- One step. Leaving goes back to the parent. -/
def step (c : Cursor) : Event → Cursor
  | .refer n => { c with table := c.table.refer c.current n }
  | .declare n k => { c with table := c.table.declare c.current n k }
  | .enter k f => ⟨c.table.openScope c.current k f, c.table.scopes.length⟩
  | .leave => { c with current := (c.table.parentOf? c.current).getD ScopeTable.root }

/-- Some steps. -/
def run (c : Cursor) (es : List Event) : Cursor :=
  es.foldl step c

/-- The start of the pass. -/
def start : Cursor := ⟨.empty, ScopeTable.root⟩

theorem run_append (c : Cursor) (es es' : List Event) : c.run (es ++ es') = (c.run es).run es' :=
  List.foldl_append

mutual

/-- The steps for a fact add it to the table and come back to the scope where they began. -/
theorem run_events : ∀ (o : Outline) {t : ScopeTable} {id : Nat}, t.Formed → id < t.scopes.length →
    (⟨t, id⟩ : Cursor).run (events o) = ⟨t.add id o, id⟩
  | .reference _, _, _, _, _ => rfl
  | .declare _ _, _, _, _, _ => rfl
  | .scope k f body, t, id, ht, hid => by
    have hopen := ScopeTable.openScope_adds t id k f
    have hlen : (t.openScope id k f).scopes.length = t.scopes.length + 1 := hopen.length
    have hlt : t.scopes.length < (t.openScope id k f).scopes.length := by omega
    have hbody := run_eventsAll body (ht.openScope id k f) hlt
    obtain ⟨hadds, -⟩ := ScopeTable.addAll_adds body (ht.openScope id k f) hlt
    have hchain : ((t.openScope id k f).addAll t.scopes.length body).chain t.scopes.length =
        t.scopes.length :: t.chain id := by
      rw [hadds.chain_eq hlt, ScopeTable.chain_openScope]
    have hparent : ((t.openScope id k f).addAll t.scopes.length body).parentOf? t.scopes.length = some id := by
      obtain ⟨s, hs⟩ : ∃ s, t.scope? id = some s := ⟨_, List.getElem?_eq_getElem hid⟩
      rw [ScopeTable.chain.eq_1 t id, hs] at hchain
      exact ScopeTable.parentOf?_of_chain hchain
    rw [events, List.cons_append, run, List.foldl_cons]
    change Cursor.run ⟨t.openScope id k f, t.scopes.length⟩ (eventsAll body ++ [.leave]) = _
    rw [run_append, hbody]
    change (⟨_, (ScopeTable.parentOf? _ _).getD _⟩ : Cursor) = _
    rw [hparent]
    rfl

theorem run_eventsAll : ∀ (os : List Outline) {t : ScopeTable} {id : Nat}, t.Formed →
    id < t.scopes.length → (⟨t, id⟩ : Cursor).run (eventsAll os) = ⟨t.addAll id os, id⟩
  | [], _, _, _, _ => rfl
  | o :: os, t, id, ht, hid => by
    obtain ⟨hadds, hformed⟩ := ScopeTable.add_adds o ht hid
    have hlt : id < (t.add id o).scopes.length := by
      have := hadds.length
      omega
    rw [eventsAll, run_append, run_events o ht hid, run_eventsAll os hformed hlt]
    rfl

end

end Cursor

/-- **The scopes of a module are a tree**, numbered so that parents come first, with declarations where
they belong; questions about scopes are answered by walks from scope to parent; and the pass that builds
the table is, after every node, in the scope where it was before. Parameters are bound in functions and
imports in the module if the nodes of the module stand where they may. -/
theorem ofModule_arena (module : Ast) :
    (ScopeTable.ofModule module).Arena ∧ (ScopeTable.ofModule module).Walks ∧
      (isSeated .program module = true → (ScopeTable.ofModule module).BindsAtHome) ∧
      (Cursor.start.run (eventsAll (outline module))).table = ScopeTable.ofModule module ∧
      ∀ (naming : Naming) (node : Ast) (c : Cursor), c.table.Formed →
        c.current < c.table.scopes.length →
        (c.run (eventsAll (outlineAs naming node))).current = c.current := by
  have htree := ScopeTable.ofOutline_isTree (outline module)
  have hkept := ScopeTable.ofModule_kept false module nofun
  refine ⟨hkept.arena htree, hkept.walks htree,
    fun hs => (ScopeTable.ofModule_kept true module fun _ => hs).bindsAtHome, ?_, ?_⟩
  · rw [Cursor.start, Cursor.run_eventsAll _ ScopeTable.empty_formed ScopeTable.root_lt]
    rfl
  · rintro naming node ⟨t, id⟩ hformed hlt
    rw [Cursor.run_eventsAll _ hformed hlt]

/-- `import a from "m"; function f(x) { try {} catch (e) { var y; } }` -/
def sampleScopes : Ast :=
  made (.module none)
    [made (.importDecl false) [.list [made .importDefault [madeIdent "a"]], madeString "m", .absent],
      made (.funcDecl false)
        [madeIdent "f",
          madeFunction false false [madeParam (madeBinding "x")]
            (madeBlock
              [made .tryStmt
                [madeBlock [],
                  made .catchClause [madeBinding "e", madeBlock [madeVar .var "y" .absent]], .absent]])]]

theorem ofModule_sampleScopes :
    isSeated .program sampleScopes = true ∧
      (ScopeTable.ofModule sampleScopes).scopes.map (fun s => (s.kind, s.bindings)) =
        [(.module, [("a", .import), ("f", .function)]), (.function, [("x", .param), ("y", .var)]),
          (.block, []), (.catch, [("e", .catchParam)]), (.block, [])] ∧
      (ScopeTable.ofModule sampleScopes).BindsAtHome :=
  ⟨by decide, by decide, (ofModule_arena sampleScopes).2.2.1 (by decide)⟩

end Worklet
