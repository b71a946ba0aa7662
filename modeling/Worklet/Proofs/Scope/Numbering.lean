import Worklet.Proofs.Scope.Names

/-!
# The numbering of an outline

A scope table is built by one pass that numbers scopes as they open. Here the numbers are read off
the outline: facts stand in a scope `id`, whose nearest function is `home`, and the first scope
that they open has the number `next`.

* `Outline.mentions`, `Outline.bindings`, `Outline.openings`, `Outline.functionIds` — references,
  bindings, scopes and functions with their numbers.

Principal result: `ScopeTable.addAll_adds` — the pass adds exactly the numbered facts.
-/

set_option autoImplicit false

namespace Worklet

open Syntax

namespace Outline

mutual

/-- How many scopes a fact opens. -/
def scopeCount : Outline → Nat
  | .reference _ => 0
  | .declare _ _ => 0
  | .scope _ _ body => scopeCountAll body + 1

def scopeCountAll : List Outline → Nat
  | [] => 0
  | o :: os => scopeCount o + scopeCountAll os

end

mutual

/-- The references of a fact by the numbers of their scopes. -/
def mentions (id next : Nat) : Outline → List Reference
  | .reference n => [⟨n, id⟩]
  | .declare _ _ => []
  | .scope _ _ body => mentionsAll next (next + 1) body

def mentionsAll (id next : Nat) : List Outline → List Reference
  | [] => []
  | o :: os => mentions id next o ++ mentionsAll id (next + scopeCount o) os

end

/-- The nearest function inside a scope that opens with number `next`. -/
def homeIn (k : ScopeKind) (home next : Nat) : Nat :=
  if k.isFunctionBoundary then next else home

/-- A declared name by the number of the scope that binds it. -/
structure Binding where
  scope : Nat
  name : String
  kind : BindingKind

mutual

def bindings (id home next : Nat) : Outline → List Binding
  | .reference _ => []
  | .declare n k => [⟨if k.isFunctionScoped then home else id, n, k⟩]
  | .scope k _ body => bindingsAll next (homeIn k home next) (next + 1) body

def bindingsAll (id home next : Nat) : List Outline → List Binding
  | [] => []
  | o :: os => bindings id home next o ++ bindingsAll id home (next + scopeCount o) os

end

mutual

def openings (chain : List Nat) (next : Nat) : Outline → List (ScopeKind × List Nat)
  | .reference _ => []
  | .declare _ _ => []
  | .scope k _ body => (k, chain) :: openingsAll (next :: chain) (next + 1) body

def openingsAll (chain : List Nat) (next : Nat) : List Outline → List (ScopeKind × List Nat)
  | [] => []
  | o :: os => openings chain next o ++ openingsAll chain (next + scopeCount o) os

end

/-- A function that was read, with the number of its scope. -/
def functionEntry (f : Option Span) (next : Nat) : List (Span × Nat) :=
  match f with
  | some span => if span.isMade then [] else [(span, next)]
  | none => []

mutual

/-- The functions of a fact with the numbers of their scopes. -/
def functionIds (next : Nat) : Outline → List (Span × Nat)
  | .reference _ => []
  | .declare _ _ => []
  | .scope _ f body => functionEntry f next ++ functionIdsAll (next + 1) body

def functionIdsAll (next : Nat) : List Outline → List (Span × Nat)
  | [] => []
  | o :: os => functionIds next o ++ functionIdsAll (next + scopeCount o) os

end

mutual

theorem length_openings (chain : List Nat) :
    ∀ (next : Nat) (o : Outline), (openings chain next o).length = scopeCount o
  | _, .reference _ => rfl
  | _, .declare _ _ => rfl
  | next, .scope _ _ body => by
    simp [openings, scopeCount, length_openingsAll (next :: chain) (next + 1) body]

theorem length_openingsAll (chain : List Nat) :
    ∀ (next : Nat) (os : List Outline), (openingsAll chain next os).length = scopeCountAll os
  | _, [] => rfl
  | next, o :: os => by
    simp [openingsAll, scopeCountAll, length_openings chain next o,
      length_openingsAll chain (next + scopeCount o) os]

end

/-- How the first of some bindings binds a name in a scope. -/
def lookup (bs : List Binding) (j : Nat) (n : String) : Option BindingKind :=
  (bs.find? fun b => b.scope == j && b.name == n).map (·.kind)

theorem lookup_append (bs bs' : List Binding) (j : Nat) (n : String) :
    lookup (bs ++ bs') j n = (lookup bs j n).or (lookup bs' j n) := by
  unfold lookup
  rw [List.find?_append]
  cases bs.find? (fun b => b.scope == j && b.name == n) <;> simp

theorem lookup_isSome {bs : List Binding} {j : Nat} {n : String} :
    (lookup bs j n).isSome = true ↔ ∃ k, ⟨j, n, k⟩ ∈ bs := by
  unfold lookup
  rw [Option.isSome_map, List.find?_isSome]
  constructor
  · rintro ⟨⟨j', n', k⟩, hmem, hb⟩
    simp only [Bool.and_eq_true, beq_iff_eq] at hb
    obtain ⟨rfl, rfl⟩ := hb
    exact ⟨k, hmem⟩
  · rintro ⟨k, hmem⟩
    exact ⟨_, hmem, by simp⟩

end Outline

namespace ScopeTable

open Outline

variable {bs : List Binding} {t : ScopeTable} {op : List (ScopeKind × List Nat)}
  {rs : List Reference} {fs : List (Span × Nat)}

/-- The kinds of a table's scopes and the scopes around each. -/
def shape (t : ScopeTable) : List (ScopeKind × List Nat) :=
  t.scopes.map fun s => (s.kind, s.around)

/-- How a scope of the table binds a name. -/
def boundIn (t : ScopeTable) (j : Nat) (n : String) : Option BindingKind :=
  (t.scope? j).bind fun s => s.binding? n

@[simp] theorem length_shape (t : ScopeTable) : t.shape.length = t.scopes.length := by
  simp [shape]

theorem chain_eq (t : ScopeTable) (id : Nat) :
    t.chain id = match t.shape[id]? with
      | some (_, around) => id :: around
      | none => [] := by
  unfold chain scope? shape
  rw [List.getElem?_map]
  cases t.scopes[id]? <;> rfl

theorem isBoundary_eq (t : ScopeTable) (id : Nat) :
    t.isBoundary id = (t.shape[id]?).any fun s => s.1.isFunctionBoundary := by
  unfold isBoundary scope? shape
  rw [List.getElem?_map]
  cases t.scopes[id]? <;> rfl

/-- A table whose scopes lie in scopes of smaller numbers. -/
def Formed (t : ScopeTable) : Prop :=
  0 < t.scopes.length ∧
    ∀ (i : Nat) (k : ScopeKind) (around : List Nat), t.shape[i]? = some (k, around) →
      ∀ j ∈ around, j < i

theorem Formed.chain_le (ht : t.Formed) {id j : Nat} (hj : j ∈ t.chain id) :
    j ≤ id ∧ id < t.scopes.length := by
  rw [chain_eq] at hj
  cases hs : t.shape[id]? with
  | none => simp [hs] at hj
  | some s =>
    obtain ⟨k, around⟩ := s
    have hlt : id < t.scopes.length := by
      have := (List.getElem?_eq_some_iff.1 hs).1
      simpa using this
    simp only [hs, List.mem_cons] at hj
    rcases hj with rfl | hj
    · exact ⟨Nat.le_refl _, hlt⟩
    · exact ⟨Nat.le_of_lt (ht.2 id k around hs j hj), hlt⟩

/-- What a pass adds to a table. -/
structure Adds (t t' : ScopeTable) (opened : List (ScopeKind × List Nat)) (refs : List Reference)
    (funs : List (Span × Nat)) (bound : List Binding) : Prop where
  shape : t'.shape = t.shape ++ opened
  references : t'.references = t.references ++ refs
  functions : t'.functions = funs.reverse ++ t.functions
  boundIn : ∀ j n, t'.boundIn j n = (t.boundIn j n).or (lookup bound j n)

theorem Adds.trans {t' t'' : ScopeTable} {op' : List (ScopeKind × List Nat)} {rs' : List Reference}
    {fs' : List (Span × Nat)} {bs' : List Binding} (h : Adds t t' op rs fs bs)
    (h' : Adds t' t'' op' rs' fs' bs') :
    Adds t t'' (op ++ op') (rs ++ rs') (fs ++ fs') (bs ++ bs') where
  shape := by rw [h'.shape, h.shape, List.append_assoc]
  references := by rw [h'.references, h.references, List.append_assoc]
  functions := by rw [h'.functions, h.functions, List.reverse_append, List.append_assoc]
  boundIn j n := by
    rw [h'.boundIn, h.boundIn, lookup_append, Option.or_assoc]

theorem Adds.length {t' : ScopeTable} (h : Adds t t' op rs fs bs) :
    t'.scopes.length = t.scopes.length + op.length := by
  have := congrArg List.length h.shape
  simpa using this

theorem Adds.chain_eq {t' : ScopeTable} (h : Adds t t' op rs fs bs) {id : Nat}
    (hid : id < t.scopes.length) : t'.chain id = t.chain id := by
  rw [ScopeTable.chain_eq, ScopeTable.chain_eq, h.shape,
    List.getElem?_append_left (by simpa using hid)]

theorem Adds.nearestFunction_eq {t' : ScopeTable} (ht : t.Formed) (h : Adds t t' op rs fs bs)
    {id : Nat} (hid : id < t.scopes.length) :
    t'.nearestFunction id = t.nearestFunction id := by
  unfold nearestFunction
  rw [h.chain_eq hid]
  have hb : ∀ j ∈ t.chain id, t'.isBoundary j = t.isBoundary j := by
    intro j hj
    have hlt : j < t.scopes.length := by
      have := ht.chain_le hj
      omega
    rw [isBoundary_eq, isBoundary_eq, h.shape, List.getElem?_append_left (by simpa using hlt)]
  have hfind : ∀ l : List Nat, (∀ j ∈ l, t'.isBoundary j = t.isBoundary j) →
      l.find? t'.isBoundary = l.find? t.isBoundary := by
    intro l hl
    induction l with
    | nil => rfl
    | cons j l ih =>
      simp only [List.find?_cons, hl j List.mem_cons_self]
      rw [ih fun i hi => hl i (List.mem_cons_of_mem _ hi)]
  rw [hfind _ hb]

theorem nearestFunction_lt (ht : t.Formed) (id : Nat) :
    t.nearestFunction id < t.scopes.length := by
  unfold nearestFunction
  cases hf : (t.chain id).find? t.isBoundary with
  | none => exact ht.1
  | some j =>
    have := ht.chain_le (List.mem_of_find?_eq_some hf)
    simp only [Option.getD_some]
    omega

/-! ### The steps of the pass -/

theorem Formed.openScope (ht : t.Formed) (id : Nat) (k : ScopeKind) (f : Option Span) :
    (t.openScope id k f).Formed := by
  refine ⟨by simp [ScopeTable.openScope], ?_⟩
  intro i k' around hs j hj
  simp only [ScopeTable.openScope, shape, List.map_append, List.map_cons, List.map_nil] at hs
  rw [List.getElem?_append] at hs
  split at hs
  · exact ht.2 i k' around hs j hj
  · rename_i hge
    have hi : i = t.scopes.length := by
      have := (List.getElem?_eq_some_iff.1 hs).1
      simp only [List.length_map] at hge this
      simp at this
      omega
    subst hi
    simp only [List.length_map, Nat.sub_self, List.getElem?_cons_zero, Option.some.injEq,
      Prod.mk.injEq] at hs
    rw [← hs.2] at hj
    have := ht.chain_le hj
    omega

theorem Adds.formed {t' : ScopeTable} (h : Adds t t' op rs fs bs) (hf : t.Formed)
    (hop : ∀ i k around, op[i]? = some (k, around) → ∀ j ∈ around, j < t.scopes.length + i) :
    t'.Formed := by
  refine ⟨by have := h.length; have := hf.1; omega, ?_⟩
  intro i k around hs j hj
  rw [h.shape, List.getElem?_append] at hs
  split at hs
  · exact hf.2 i k around hs j hj
  · rename_i hge
    have := hop _ k around hs j hj
    simp only [length_shape] at hge this
    omega

theorem refer_adds (t : ScopeTable) (id : Nat) (n : String) :
    Adds t (t.refer id n) [] [⟨n, id⟩] [] [] where
  shape := by simp [shape, refer]
  references := rfl
  functions := by simp [refer]
  boundIn j m := by simp [boundIn, scope?, refer, lookup]

@[simp] theorem bind_kind (s : Scope) (n : String) (k : BindingKind) :
    (s.bind n k).kind = s.kind := by
  unfold Scope.bind
  split <;> rfl

@[simp] theorem bind_around (s : Scope) (n : String) (k : BindingKind) :
    (s.bind n k).around = s.around := by
  unfold Scope.bind
  split <;> rfl

theorem binding?_bind (s : Scope) (n m : String) (k : BindingKind) :
    (s.bind n k).binding? m = (s.binding? m).or (if n = m then some k else none) := by
  unfold Scope.bind
  by_cases hb : (s.binding? n).isSome = true
  · rw [if_pos hb]
    by_cases hn : n = m
    · subst hn
      obtain ⟨k', hk'⟩ := Option.isSome_iff_exists.1 hb
      simp [hk']
    · simp [hn]
  · rw [if_neg hb]
    simp only [Scope.binding?, List.find?_append]
    cases s.bindings.find? (fun b => b.1 == m) with
    | some b => simp
    | none => by_cases hn : n = m <;> simp [hn]

theorem declare_adds (ht : t.Formed) {id : Nat} (hid : id < t.scopes.length) (n : String)
    (k : BindingKind) :
    Adds t (t.declare id n k) [] [] []
      [⟨if k.isFunctionScoped then t.nearestFunction id else id, n, k⟩] where
  shape := by
    simp only [shape, declare, List.append_nil]
    apply List.ext_getElem?
    intro i
    simp only [List.getElem?_map, List.getElem?_modify, Option.map_eq_map, Option.map_map]
    congr 1
    funext s
    simp only [Function.comp_apply]
    generalize (if k.isFunctionScoped = true then t.nearestFunction id else id) = home
    by_cases hi : home = i <;> simp [hi]
  references := by simp [declare]
  functions := by simp [declare]
  boundIn j m := by
    generalize hh : (if k.isFunctionScoped then t.nearestFunction id else id) = home
    have hlt : home < t.scopes.length := by
      have := nearestFunction_lt ht id
      split at hh <;> omega
    have hl : lookup [⟨home, n, k⟩] j m = if home = j ∧ n = m then some k else none := by
      by_cases hj : home = j <;> by_cases hn : n = m <;> simp [lookup, hj, hn]
    simp only [boundIn, scope?, declare, hh, List.getElem?_modify, Option.map_eq_map, hl]
    by_cases hj : home = j
    · subst hj
      rw [List.getElem?_eq_getElem hlt]
      simp [binding?_bind]
    · simp [hj]

theorem openScope_adds (t : ScopeTable) (id : Nat) (k : ScopeKind) (f : Option Span) :
    Adds t (t.openScope id k f) [(k, t.chain id)] [] (functionEntry f t.scopes.length) [] where
  shape := by simp [shape, openScope]
  references := by simp [openScope]
  functions := by
    cases f with
    | none => simp [openScope, functionEntry]
    | some span =>
      by_cases hm : span.isMade = true <;> simp [openScope, functionEntry, hm]
  boundIn j n := by
    simp only [boundIn, scope?, openScope, lookup, List.find?_nil, Option.map_none, Option.or_none]
    rw [List.getElem?_append]
    split
    · rfl
    · rename_i hge
      have hnone : t.scopes[j]? = none := List.getElem?_eq_none (by omega)
      rw [hnone]
      cases j - t.scopes.length with
      | zero => simp [Scope.binding?]
      | succ i => simp

theorem chain_openScope (t : ScopeTable) (id : Nat) (k : ScopeKind) (f : Option Span) :
    (t.openScope id k f).chain t.scopes.length = t.scopes.length :: t.chain id := by
  rw [chain_eq, (openScope_adds t id k f).shape, List.getElem?_append_right (by simp)]
  simp

theorem nearestFunction_openScope (ht : t.Formed) {id : Nat} (hid : id < t.scopes.length)
    (k : ScopeKind) (f : Option Span) :
    (t.openScope id k f).nearestFunction t.scopes.length =
      homeIn k (t.nearestFunction id) t.scopes.length := by
  have hadds := openScope_adds t id k f
  have hb : (t.openScope id k f).isBoundary t.scopes.length = k.isFunctionBoundary := by
    rw [isBoundary_eq, hadds.shape, List.getElem?_append_right (by simp)]
    simp
  have hold := hadds.nearestFunction_eq ht hid
  unfold nearestFunction at hold ⊢
  rw [hadds.chain_eq hid] at hold
  rw [chain_openScope, List.find?_cons, hb]
  unfold homeIn
  cases k.isFunctionBoundary with
  | true => rfl
  | false => simpa using hold

/-! ### The pass -/

mutual

/-- Adding a fact adds what the fact says, with the numbers that the table is about to give. -/
theorem add_adds : ∀ (o : Outline) {t : ScopeTable} {id : Nat}, t.Formed → id < t.scopes.length →
    Adds t (t.add id o) (openings (t.chain id) t.scopes.length o)
      (mentions id t.scopes.length o) (functionIds t.scopes.length o)
      (bindings id (t.nearestFunction id) t.scopes.length o) ∧ (t.add id o).Formed
  | .reference n, t, id, ht, _ => by
    have h := refer_adds t id n
    exact ⟨h, h.formed ht (by simp)⟩
  | .declare n k, t, id, ht, hid => by
    have h := declare_adds ht hid n k
    exact ⟨h, h.formed ht (by simp)⟩
  | .scope k f body, t, id, ht, hid => by
    have hopen := openScope_adds t id k f
    have hlen : (t.openScope id k f).scopes.length = t.scopes.length + 1 := hopen.length
    have hlt : t.scopes.length < (t.openScope id k f).scopes.length := by omega
    obtain ⟨hbody, hformed⟩ := addAll_adds body (ht.openScope id k f) hlt
    rw [chain_openScope, nearestFunction_openScope ht hid, hlen] at hbody
    exact ⟨hopen.trans hbody, hformed⟩

/-- **The pass adds exactly the numbered facts.** -/
theorem addAll_adds : ∀ (os : List Outline) {t : ScopeTable} {id : Nat}, t.Formed →
    id < t.scopes.length →
    Adds t (t.addAll id os) (openingsAll (t.chain id) t.scopes.length os)
      (mentionsAll id t.scopes.length os) (functionIdsAll t.scopes.length os)
      (bindingsAll id (t.nearestFunction id) t.scopes.length os) ∧ (t.addAll id os).Formed
  | [], t, id, ht, _ => by
    refine ⟨⟨by simp [openingsAll, addAll], by simp [mentionsAll, addAll],
      by simp [functionIdsAll, addAll], fun j n => ?_⟩, ht⟩
    simp [bindingsAll, lookup, addAll]
  | o :: os, t, id, ht, hid => by
    obtain ⟨ho, hformed⟩ := add_adds o ht hid
    have hlen : (t.add id o).scopes.length = t.scopes.length + scopeCount o := by
      rw [ho.length, length_openings]
    have hlt : id < (t.add id o).scopes.length := by omega
    obtain ⟨hos, hformed'⟩ := addAll_adds os hformed hlt
    rw [ho.chain_eq hid, ho.nearestFunction_eq ht hid, hlen] at hos
    exact ⟨ho.trans hos, hformed'⟩

end

theorem empty_formed : ScopeTable.empty.Formed := by
  refine ⟨by simp [ScopeTable.empty], ?_⟩
  intro i k around hs j hj
  cases i with
  | zero =>
    simp only [shape, ScopeTable.empty, List.map_cons, List.map_nil, List.getElem?_cons_zero,
      Option.some.injEq, Prod.mk.injEq] at hs
    rw [← hs.2] at hj
    cases hj
  | succ i => simp [shape, ScopeTable.empty] at hs

theorem root_lt : root < ScopeTable.empty.scopes.length := by
  simp [root, ScopeTable.empty]

/-- The table of an outline is the outline numbered from the module on. -/
theorem addAll_empty (os : List Outline) :
    Adds ScopeTable.empty (ScopeTable.empty.addAll root os) (openingsAll [0] 1 os)
      (mentionsAll 0 1 os) (functionIdsAll 1 os) (bindingsAll 0 0 1 os) :=
  (addAll_adds os empty_formed root_lt).1

end ScopeTable

end Worklet
