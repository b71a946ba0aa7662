import Mathlib.Data.List.Forall2
import Mathlib.Data.List.Nodup
import Worklet.Closure
import Worklet.Proofs.Scope.Placement

/-!
# Captures of a function

What a table captures for a function, said without the table: the free names of the function that
a scope around it declares.

Principal results: `ScopeTable.captures_of_mem_sites` — every function of an outline has a scope
in the table of the outline, and its captures are those of its place;
`ScopeTable.mem_freeAll_of_resolve_eq_none` — a reference that resolves to nothing is free.
-/

set_option autoImplicit false

namespace Worklet

open Syntax Outline

/-- Each name once, where it is first mentioned. -/
def firstMentions (names : List String) : List String :=
  names.foldl (fun seen n => if seen.contains n then seen else seen ++ [n]) []

theorem mem_foldl_firstMentions (names seen : List String) (n : String) :
    n ∈ names.foldl (fun seen n => if seen.contains n then seen else seen ++ [n]) seen ↔
      n ∈ seen ∨ n ∈ names := by
  induction names generalizing seen with
  | nil => simp
  | cons m names ih =>
    rw [List.foldl_cons, ih]
    by_cases hm : seen.contains m = true
    · rw [if_pos hm]
      have : m ∈ seen := by simpa using hm
      grind
    · rw [if_neg hm]
      grind

variable {n : String} {t : ScopeTable} {id j : Nat} {k : ScopeKind} {body : List Outline}
  {r : Reference} {span : Span}

theorem mem_firstMentions {names : List String} :
    n ∈ firstMentions names ↔ n ∈ names := by
  unfold firstMentions
  rw [mem_foldl_firstMentions]
  simp

namespace ScopeTable

/-- The captured names are those of the references that capture, each once. -/
theorem names_captureFrom (t : ScopeTable) (own : Nat) (ownName : Option String) :
    (captureFrom t own ownName).names =
      firstMentions ((t.references.filter fun r => (captured? t own ownName r).isSome).map
        (·.name)) := by
  rw [captureFrom, firstMentions]
  change _ = List.foldl _ Closure.empty.names _
  generalize Closure.empty = c
  generalize t.references = rs
  induction rs generalizing c with
  | nil => rfl
  | cons r rs ih =>
    rw [List.foldl_cons, ih]
    cases hr : captured? t own ownName r with
    | none => simp [hr]
    | some b =>
      have hc : (c.insert r.name b).names =
          if c.names.contains r.name then c.names else c.names ++ [r.name] := by
        unfold Closure.insert
        split <;> simp [Closure.names]
      simp only [List.filter_cons, hr, Option.isSome_some, if_true, List.map_cons,
        List.foldl_cons, hc]

/-- The first of some scopes that binds a name, and as what. -/
def nearest (t : ScopeTable) (n : String) (ids : List Nat) : Option Resolution :=
  ids.findSome? fun i => (t.boundIn i n).map fun kind => ⟨i, kind⟩

theorem resolve_eq (t : ScopeTable) (id : Nat) (n : String) :
    t.resolve id n = t.nearest n (t.chain id) :=
  rfl

theorem nearest_append (ids ids' : List Nat) :
    t.nearest n (ids ++ ids') = (t.nearest n ids).or (t.nearest n ids') :=
  List.findSome?_append

theorem nearest_cases (t : ScopeTable) (n : String) (ids : List Nat) :
    (∃ j ∈ ids, ∃ kind, t.nearest n ids = some ⟨j, kind⟩ ∧
      (ids.any fun j => (t.boundIn j n).isSome) = true) ∨
      t.nearest n ids = none ∧ (ids.any fun j => (t.boundIn j n).isSome) = false := by
  cases h : t.nearest n ids with
  | some b =>
    obtain ⟨j, hj, hb⟩ := List.exists_of_findSome?_eq_some h
    obtain ⟨kind, hkind, rfl⟩ := Option.map_eq_some_iff.1 hb
    exact .inl ⟨j, hj, kind, rfl, List.any_eq_true.2 ⟨j, hj, by simp [hkind]⟩⟩
  | none =>
    refine .inr ⟨rfl, List.any_eq_false.2 fun j hj => ?_⟩
    simpa using List.findSome?_eq_none_iff.1 h j hj

theorem resolve_eq_none :
    t.resolve id n = none ↔ ∀ j ∈ t.chain id, (t.boundIn j n).isSome = false := by
  rw [resolve_eq, nearest, List.findSome?_eq_none_iff]
  refine forall₂_congr fun j _ => ?_
  cases t.boundIn j n <;> simp

theorem isWithin_of_mem (h : j ∈ t.chain id) :
    t.isWithin id j = true := by
  simp [isWithin, h]

theorem isWithin_eq_false (hne : id ≠ j) (h : j ∉ t.chain id) :
    t.isWithin id j = false := by
  simp [isWithin, hne, h]

variable {home next : Nat}

/-- A reference in a function captures if no scope of the function binds its name, a scope around
the function does, and the name is not the function's own. -/
theorem captured?_isSome (ht : t.Formed) {f : Option Span}
    (h : Placed t id home next [.scope k f body]) (ownName : Option String)
    (hr : r ∈ mentionsAll next (next + 1) body) :
    (captured? t next ownName r).isSome =
      (t.unbound (fun _ => []) next r &&
        ((t.chain id).any (fun j => (t.boundIn j r.name).isSome) && ownName != some r.name)) := by
  obtain ⟨inner, hin, hrange⟩ := h.inside.toLaid.chain_mention hr
  rw [h.toLaid.chain_next] at hin
  have hwithin : t.isWithin r.scope next = true := isWithin_of_mem (by simp [hin])
  -- the scopes of the function on the way from the reference outwards
  have hsplit : t.chain r.scope = (inner ++ [next]) ++ t.chain id := by simp [hin]
  have hinside : ∀ j ∈ inner ++ [next], t.isWithin j next = true := by
    intro j hj
    rcases List.mem_append.1 hj with hj | hj
    · obtain ⟨inner', hin', -⟩ := h.inside.toLaid.chain_facts body j (hrange j hj).1 (hrange j hj).2
      exact isWithin_of_mem (by rw [hin', h.toLaid.chain_next]; simp)
    · simp only [List.mem_singleton] at hj
      simp [isWithin, hj]
  have houtside : ∀ j ∈ t.chain id, t.isWithin j next = false := by
    intro j hj
    have hlt := h.chain_lt j hj
    exact isWithin_eq_false (by omega) fun hmem => by
      have := (ht.chain_le hmem).1
      omega
  have hunbound : t.unbound (fun _ => []) next r =
      !(inner ++ [next]).any fun j => (t.boundIn j r.name).isSome := by
    unfold unbound
    rw [hsplit, List.all_append, List.not_any_eq_all_not]
    have h1 : ((t.chain id).all fun j => decide (j < next) ||
        !((t.boundIn j r.name).isSome || ([] : List String).contains r.name)) = true := by
      rw [List.all_eq_true]
      intro j hj
      simp [h.chain_lt j hj]
    rw [h1, Bool.and_true, Bool.eq_iff_iff, List.all_eq_true, List.all_eq_true]
    refine forall₂_congr fun j hj => ?_
    have hge : ¬ j < next := by
      rcases List.mem_append.1 hj with hj | hj
      · have := hrange j hj
        omega
      · simp only [List.mem_singleton] at hj
        omega
    simp [hge]
  rw [hunbound]
  unfold captured?
  rw [hwithin]
  by_cases hown : (ownName != some r.name) = true
  · simp only [hown, Bool.and_self, if_true, Bool.and_true]
    rw [resolve_eq, hsplit, nearest_append]
    rcases nearest_cases t r.name (inner ++ [next]) with ⟨j, hj, kind, hfind, hany⟩ | ⟨hfind, hany⟩
    · rw [hfind, hany]
      simp [hinside j hj]
    · rw [hfind, hany, Option.none_or]
      rcases nearest_cases t r.name (t.chain id) with ⟨j, hj, kind, hfind, hany⟩ | ⟨hfind, hany⟩
      · simp [hfind, hany, houtside j hj]
      · simp [hfind, hany]
  · simp only [Bool.not_eq_true] at hown
    simp [hown]

/-- The numbers of scopes and the names that each binds. -/
def Named (t : ScopeTable) (ids : List Nat) (names : List (List String)) : Prop :=
  List.Forall₂ (fun j ns => ∀ n, (t.boundIn j n).isSome = true ↔ n ∈ ns) ids names

theorem Named.any_eq {ids : List Nat} {names : List (List String)} (h : Named t ids names)
    (n : String) :
    (ids.any fun j => (t.boundIn j n).isSome) = names.any fun ns => ns.contains n := by
  unfold Named at h
  induction h with
  | nil => rfl
  | @cons j ns ids names hj _ ih =>
    have hb : (t.boundIn j n).isSome = ns.contains n := by
      rw [Bool.eq_iff_iff, hj n]
      simp
    simp only [List.any_cons, hb, ih]

/-- What a table says of a function that stands in the outline at a place. -/
structure Captures (t : ScopeTable) (own : Nat) (s : Site) : Prop where
  /-- The captured names are the free names that a scope around declares. -/
  names : ∀ ownName, (captureFrom t own ownName).names =
    firstMentions (s.free.filter fun n =>
      (s.around.any fun ns => ns.contains n) && ownName != some n)
  /-- A free name that no scope around declares is mentioned in the function and resolves to
  nothing. -/
  global : ∀ n ∈ s.free, (s.around.any fun ns => ns.contains n) = false →
    ∃ r ∈ t.references, r.name = n ∧ t.isWithin r.scope own = true ∧ t.resolve r.scope n = none

theorem captures_scope (ht : t.Formed) (h : Placed t id home next [.scope k (some span) body])
    {around : List (List String)} (hn : Named t (t.chain id) around) :
    Captures t next ⟨span, k, body, around⟩ := by
  have hfree : (Site.mk span k body around).free =
      ((mentionsAll next (next + 1) body).filter (t.unbound (fun _ => []) next)).map
        (·.name) := by
    have := h.free_eq bare (fun _ => []) _ (by intro e _; rfl)
    simpa [Site.free, mentions] using this
  obtain ⟨before, after, href, hout⟩ := h.isolated
  have hbelow : ∀ r ∈ before ++ after, ∀ ownName, captured? t next ownName r = none := by
    intro r hr ownName
    have hmem := hout r hr next (Nat.le_refl _)
      (by simp only [scopeCountAll_singleton, scopeCount]; omega)
    have hscope : r.scope ≠ next := by
      rintro heq
      rw [heq, h.toLaid.chain_next] at hmem
      simp at hmem
    simp [captured?, isWithin_eq_false hscope hmem]
  constructor
  · intro ownName
    rw [names_captureFrom, href]
    simp only [mentionsAll, mentions, List.append_nil, List.filter_append]
    have hbefore : (before.filter fun r => (captured? t next ownName r).isSome) = [] :=
      List.filter_eq_nil_iff.2 fun r hr => by
        simp [hbelow r (List.mem_append_left _ hr) ownName]
    have hafter : (after.filter fun r => (captured? t next ownName r).isSome) = [] :=
      List.filter_eq_nil_iff.2 fun r hr => by
        simp [hbelow r (List.mem_append_right _ hr) ownName]
    rw [hbefore, hafter, List.nil_append, List.append_nil, hfree, List.filter_map,
      List.filter_filter]
    congr 2
    apply List.filter_congr
    intro r hr
    rw [captured?_isSome ht h ownName hr, hn.any_eq, Bool.and_comm]
    rfl
  · intro n hmem hany
    rw [hfree, List.mem_map] at hmem
    obtain ⟨r, hr, rfl⟩ := hmem
    obtain ⟨hr, hunb⟩ := List.mem_filter.1 hr
    obtain ⟨inner, hin, hrange⟩ := h.inside.toLaid.chain_mention hr
    rw [h.toLaid.chain_next] at hin
    refine ⟨r, ?_, rfl, isWithin_of_mem (by simp [hin]), ?_⟩
    · rw [href]
      simp [mentionsAll, mentions, hr]
    · rw [resolve_eq_none]
      intro j hj
      have hunb' := (List.all_eq_true.1 hunb) j hj
      rw [hin, List.mem_append, List.mem_cons] at hj
      rcases hj with hj | rfl | hj
      · have := hrange j hj
        have hge : ¬ j < next := by omega
        simpa [hge] using hunb'
      · simpa using hunb'
      · rw [← hn.any_eq, List.any_eq_false] at hany
        simpa using hany j hj

mutual

/-- A number that the pass gives to a function of a fact has the captures of the function's
place. -/
theorem captures_functionIds (ht : t.Formed) : ∀ (o : Outline) {id home next : Nat}
    {around : List (List String)}, Placed t id home next [o] → Named t (t.chain id) around →
    ∀ e ∈ functionIds next o, ∃ s ∈ sites around o, s.span = e.1 ∧ Captures t e.2 s
  | .reference _, _, _, _, _, _, _, e, he => by cases he
  | .declare _ _, _, _, _, _, _, _, e, he => by cases he
  | .scope k f body, id, home, next, around, h, hn, e, he => by
    simp only [functionIds, List.mem_append] at he
    rcases he with he | he
    · obtain ⟨span, rfl, rfl⟩ : ∃ span, f = some span ∧ e = (span, next) := by
        cases f with
        | none => simp [functionEntry] at he
        | some span =>
          refine ⟨span, rfl, ?_⟩
          unfold functionEntry at he
          split at he <;> simp_all
      exact ⟨⟨span, k, body, around⟩, by simp [sites], rfl, captures_scope ht h hn⟩
    · have hinner : Named t (t.chain next) (declared k body :: around) := by
        rw [h.toLaid.chain_next]
        exact .cons (fun n => h.bound_scope n) hn
      obtain ⟨s, hs, hspan, hc⟩ := captures_functionIdsAll ht body h.inside hinner e he
      exact ⟨s, List.mem_append_right _ hs, hspan, hc⟩

theorem captures_functionIdsAll (ht : t.Formed) : ∀ (os : List Outline) {id home next : Nat}
    {around : List (List String)}, Placed t id home next os → Named t (t.chain id) around →
    ∀ e ∈ functionIdsAll next os, ∃ s ∈ sitesAll around os, s.span = e.1 ∧ Captures t e.2 s
  | [], _, _, _, _, _, _, e, he => by cases he
  | o :: os, id, home, next, around, h, hn, e, he => by
    simp only [functionIdsAll, List.mem_append] at he
    rcases he with he | he
    · obtain ⟨s, hs, hspan, hc⟩ := captures_functionIds ht o h.head hn e he
      exact ⟨s, List.mem_append_left _ hs, hspan, hc⟩
    · obtain ⟨s, hs, hspan, hc⟩ := captures_functionIdsAll ht os h.tail hn e he
      exact ⟨s, List.mem_append_right _ hs, hspan, hc⟩

end

/-! ### The table of an outline -/

/-- The table of facts that stand in a module. -/
def ofOutline (os : List Outline) : ScopeTable :=
  ScopeTable.empty.addAll root os

theorem ofModule_eq (module : Ast) : ofModule module = ofOutline (outline module) := rfl

theorem ofOutline_formed (os : List Outline) : (ofOutline os).Formed :=
  (addAll_adds os empty_formed root_lt).2

theorem chain_root (os : List Outline) : (ofOutline os).chain 0 = [0] := by
  have h := (addAll_empty os).chain_eq root_lt
  exact h

theorem boundIn_empty (j : Nat) (n : String) : ScopeTable.empty.boundIn j n = none := by
  cases j with
  | zero => rfl
  | succ j => rfl

theorem placed_root (os : List Outline) : Placed (ofOutline os) 0 0 1 os where
  id_mem := by rw [chain_root]; simp
  chain_lt j hj := by
    rw [chain_root] at hj
    simp only [List.mem_singleton] at hj
    omega
  shape i hi := by
    have h := (addAll_empty os).shape
    rw [chain_root]
    unfold ofOutline
    rw [h, List.getElem?_append_right (by simp [ScopeTable.empty])]
    simp [ScopeTable.empty]
  home_lt := Nat.zero_lt_one
  bound j n _ _ := by
    have h := (addAll_empty os).boundIn j n
    rw [boundIn_empty] at h
    exact h
  isolated := by
    have h := (addAll_empty os).references
    exact ⟨[], [], by simpa [ofOutline, ScopeTable.empty] using h, by simp⟩

theorem named_root (os : List Outline) :
    Named (ofOutline os) ((ofOutline os).chain 0) [declared .module os] := by
  rw [chain_root]
  refine .cons (fun n => ?_) .nil
  have h := (addAll_empty os).boundIn 0 n
  rw [boundIn_empty] at h
  unfold ofOutline
  rw [h, Option.none_or, lookup_isSome, mem_bindingsAll os n Nat.zero_lt_one, mem_declared]
  simp [ScopeKind.isFunctionBoundary]

/-- The functions of a module with the names of the scopes around them. -/
def moduleSites (os : List Outline) : List Site :=
  sitesAll [declared .module os] os

mutual

theorem map_fst_functionIds : ∀ (o : Outline) (next : Nat) (around : List (List String)),
    (functionIds next o).map (·.1) = ((sites around o).map (·.span)).filter fun s => !s.isMade
  | .reference _, _, _ => rfl
  | .declare _ _, _, _ => rfl
  | .scope k f body, next, around => by
    have ih := map_fst_functionIdsAll body (next + 1) (declared k body :: around)
    cases f with
    | none => simpa [functionIds, sites, functionEntry] using ih
    | some span =>
      by_cases hm : span.isMade = true <;>
        simp [functionIds, sites, functionEntry, hm, ih]

theorem map_fst_functionIdsAll : ∀ (os : List Outline) (next : Nat) (around : List (List String)),
    (functionIdsAll next os).map (·.1) =
      ((sitesAll around os).map (·.span)).filter fun s => !s.isMade
  | [], _, _ => rfl
  | o :: os, next, around => by
    simp [functionIdsAll, sitesAll, map_fst_functionIds o next around,
      map_fst_functionIdsAll os (next + scopeCount o) around]

end

/-- A span has a scope exactly if it is that of a function which was read. -/
theorem functionScope?_isSome (os : List Outline) (span : Span) :
    ((ofOutline os).functionScope? span).isSome = true ↔
      span.isMade = false ∧ ∃ s ∈ moduleSites os, s.span = span := by
  have hf := (addAll_empty os).functions
  have hkeys := map_fst_functionIdsAll os 1 [declared .module os]
  have hmem : (∃ own, (span, own) ∈ functionIdsAll 1 os) ↔
      span ∈ (functionIdsAll 1 os).map (·.1) := by
    simp
  have hiff : ((ofOutline os).functionScope? span).isSome = true ↔
      ∃ own, (span, own) ∈ functionIdsAll 1 os := by
    unfold functionScope? ofOutline
    rw [hf, Option.isSome_map, List.find?_isSome]
    simp only [ScopeTable.empty, List.append_nil, List.mem_reverse, beq_iff_eq]
    constructor
    · rintro ⟨⟨s, own⟩, hin, rfl⟩
      exact ⟨own, hin⟩
    · rintro ⟨own, hin⟩
      exact ⟨_, hin, rfl⟩
  rw [hiff, hmem, hkeys, List.mem_filter]
  simp only [List.mem_map, Bool.not_eq_true', moduleSites]
  exact and_comm

/-- A scope that is found for a span has the captures of a function with that span. -/
theorem captures_of_functionScope? (os : List Outline) {own : Nat}
    (h : (ofOutline os).functionScope? span = some own) :
    ∃ s ∈ moduleSites os, s.span = span ∧ Captures (ofOutline os) own s := by
  have hf := (addAll_empty os).functions
  unfold functionScope? at h
  obtain ⟨e, he, rfl⟩ := Option.map_eq_some_iff.1 h
  have hspan : e.1 = span := by simpa using List.find?_some he
  have hmem : e ∈ functionIdsAll 1 os := by
    have := List.mem_of_find?_eq_some he
    unfold ofOutline at this
    rw [hf] at this
    simpa [ScopeTable.empty] using this
  rw [← hspan]
  exact captures_functionIdsAll (ofOutline_formed os) os (placed_root os) (named_root os) e hmem

/-- **Every function of an outline has a scope in its table, with the captures of its place**, if
no other function has its span. -/
theorem captures_of_mem_sites (os : List Outline)
    (hd : ((moduleSites os).map (·.span)).Nodup) {s : Site} (hs : s ∈ moduleSites os)
    (hm : s.span.isMade = false) :
    ∃ own, (ofOutline os).functionScope? s.span = some own ∧ Captures (ofOutline os) own s := by
  obtain ⟨own, hown⟩ :=
    Option.isSome_iff_exists.1 ((functionScope?_isSome os s.span).2 ⟨hm, s, hs, rfl⟩)
  obtain ⟨s', hs', hspan, hc⟩ := captures_of_functionScope? os hown
  have heq : s' = s := List.inj_on_of_nodup_map hd hs' hs hspan
  exact ⟨own, hown, heq ▸ hc⟩

/-! ### References that resolve to nothing -/

mutual

theorem map_fst_spanIds : ∀ (o : Outline) (next : Nat),
    (spanIds next o).map (·.1) = List.range' next (scopeCount o)
  | .reference _, _ => rfl
  | .declare _ _, _ => rfl
  | .scope k f body, next => by
    simp [spanIds, scopeCount, map_fst_spanIdsAll body (next + 1),
      List.range'_succ]

theorem map_fst_spanIdsAll : ∀ (os : List Outline) (next : Nat),
    (spanIdsAll next os).map (·.1) = List.range' next (scopeCountAll os)
  | [], _ => rfl
  | o :: os, next => by
    simp [spanIdsAll, scopeCountAll, map_fst_spanIds o next,
      map_fst_spanIdsAll os (next + scopeCount o)]

end

mutual

theorem functionIds_eq : ∀ (o : Outline) (next : Nat),
    functionIds next o = (spanIds next o).flatMap fun e => functionEntry e.2 e.1
  | .reference _, _ => rfl
  | .declare _ _, _ => rfl
  | .scope k f body, next => by simp [functionIds, spanIds, functionIdsAll_eq body (next + 1)]

/-- The functions with a scope are those among the scopes that were read. -/
theorem functionIdsAll_eq : ∀ (os : List Outline) (next : Nat),
    functionIdsAll next os = (spanIdsAll next os).flatMap fun e => functionEntry e.2 e.1
  | [], _ => rfl
  | o :: os, next => by
    simp [functionIdsAll, spanIdsAll, functionIds_eq o next,
      functionIdsAll_eq os (next + scopeCount o)]

end

/-- The names given to a scope of an outline. -/
def givenTo (given : Option Span → List String) (os : List Outline) (j : Nat) : List String :=
  (((spanIdsAll 1 os).find? fun e => e.1 == j).map fun e => given e.2).getD []

theorem mem_givenTo {given : Option Span → List String} {os : List Outline}
    (h : n ∈ givenTo given os j) :
    ∃ e ∈ spanIdsAll 1 os, e.1 = j ∧ n ∈ given e.2 := by
  unfold givenTo at h
  cases hfind : (spanIdsAll 1 os).find? fun e => e.1 == j with
  | none => simp [hfind] at h
  | some e =>
    rw [hfind] at h
    exact ⟨e, List.mem_of_find?_eq_some hfind, by simpa using List.find?_some hfind, h⟩

/-- **A reference that resolves to nothing is free**, or stands in a function that is given its
name. Names are given to functions that were read. -/
theorem mem_freeAll_of_resolve_eq_none (os : List Outline) (given : Option Span → List String)
    (hg : ∀ f, ∀ n ∈ given f, ∃ span, f = some span ∧ span.isMade = false)
    (hr : r ∈ (ofOutline os).references) (h : (ofOutline os).resolve r.scope r.name = none) :
    r.name ∈ freeAll given os ∨ ∃ e ∈ (ofOutline os).functions,
      (ofOutline os).isWithin r.scope e.2 = true ∧ r.name ∈ given (some e.1) := by
  have hnodup : ((spanIdsAll 1 os).map (·.1)).Nodup := by
    rw [map_fst_spanIdsAll]
    exact List.nodup_range'
  have hgiven : ∀ e ∈ spanIdsAll 1 os, givenTo given os e.1 = given e.2 := by
    intro e he
    unfold givenTo
    cases hfind : (spanIdsAll 1 os).find? fun e' => e'.1 == e.1 with
    | none => exact absurd (List.find?_eq_none.1 hfind e he) (by simp)
    | some e' =>
      have heq : e'.1 = e.1 := by simpa using List.find?_some hfind
      rw [List.inj_on_of_nodup_map hnodup (List.mem_of_find?_eq_some hfind) he heq]
      rfl
  have hfree := (placed_root os).freeAll_eq given (givenTo given os) os hgiven
  have hmem : r ∈ mentionsAll 0 1 os := by
    have := (addAll_empty os).references
    unfold ofOutline at hr
    rw [this] at hr
    simpa [ScopeTable.empty] using hr
  cases hu : (ofOutline os).unbound (givenTo given os) 1 r with
  | true =>
    refine .inl ?_
    rw [hfree, List.mem_map]
    exact ⟨r, List.mem_filter.2 ⟨hmem, hu⟩, rfl⟩
  | false =>
    obtain ⟨j, hj, hbad⟩ := List.all_eq_false.1 hu
    have hnone := resolve_eq_none.1 h j hj
    have hn : r.name ∈ givenTo given os j := by
      simp only [hnone, Bool.false_or, Bool.or_eq_true, decide_eq_true_eq, Bool.not_eq_true',
        not_or] at hbad
      simpa using hbad.2
    obtain ⟨e, he, hjn⟩ := mem_givenTo hn
    obtain ⟨span, hspan, hm⟩ := hg e.2 _ hjn.2
    refine .inr ⟨(span, j), ?_, isWithin_of_mem hj, hspan ▸ hjn.2⟩
    have hid : (j, some span) ∈ spanIdsAll 1 os := by
      rw [← hspan, ← hjn.1]
      exact he
    have hf := (addAll_empty os).functions
    unfold ofOutline
    rw [hf, functionIdsAll_eq]
    simp only [ScopeTable.empty, List.append_nil, List.mem_reverse, List.mem_flatMap]
    exact ⟨_, hid, by simp [functionEntry, hm]⟩

end ScopeTable

end Worklet
