import Worklet.Proofs.Scope.Numbering

/-!
# Facts in a table

Where the facts of an outline are found in the finished table of the whole.

* `ScopeTable.Placed.cons`, `ScopeTable.Placed.scope` — from facts to their parts.
* `ScopeTable.Placed.freeAll_eq` — the free names are those of the references that no scope
  between the reference and the facts binds.
-/

set_option autoImplicit false

namespace Worklet

open Syntax

namespace Outline

/-! ### Ranges of numbers -/

theorem scopeCountAll_cons (o : Outline) (os : List Outline) :
    scopeCountAll (o :: os) = scopeCount o + scopeCountAll os := rfl

theorem scopeCountAll_singleton (o : Outline) : scopeCountAll [o] = scopeCount o := rfl

mutual

/-- A reference stands in the scope of its facts or in one that they open. -/
theorem mentions_scope : ∀ (o : Outline) {id next : Nat} {r : Reference}, r ∈ mentions id next o →
    r.scope = id ∨ next ≤ r.scope ∧ r.scope < next + scopeCount o
  | .reference n, id, next, r, h => by
    simp only [mentions, List.mem_singleton] at h
    exact .inl (by rw [h])
  | .declare _ _, _, _, _, h => by cases h
  | .scope _ _ body, id, next, r, h => by
    have := mentionsAll_scope body h
    simp only [scopeCount]
    omega

theorem mentionsAll_scope : ∀ (os : List Outline) {id next : Nat} {r : Reference},
    r ∈ mentionsAll id next os → r.scope = id ∨ next ≤ r.scope ∧ r.scope < next + scopeCountAll os
  | [], _, _, _, h => by cases h
  | o :: os, id, next, r, h => by
    simp only [mentionsAll, List.mem_append] at h
    rw [scopeCountAll_cons]
    rcases h with h | h
    · have := mentions_scope o h
      omega
    · have := mentionsAll_scope os h
      omega

end

mutual

/-- A binding belongs to the scope of its facts, to the function around, or to a scope that the
facts open. -/
theorem bindings_scope : ∀ (o : Outline) {id home next : Nat} {b : Binding},
    b ∈ bindings id home next o →
    b.scope = id ∨ b.scope = home ∨ next ≤ b.scope ∧ b.scope < next + scopeCount o
  | .reference _, _, _, _, _, h => by cases h
  | .declare n k, id, home, next, b, h => by
    simp only [bindings, List.mem_singleton] at h
    subst h
    cases k.isFunctionScoped with
    | true => exact .inr (.inl rfl)
    | false => exact .inl rfl
  | .scope k _ body, id, home, next, b, h => by
    have := bindingsAll_scope body h
    simp only [scopeCount, homeIn] at this ⊢
    split at this <;> omega

theorem bindingsAll_scope : ∀ (os : List Outline) {id home next : Nat} {b : Binding},
    b ∈ bindingsAll id home next os →
    b.scope = id ∨ b.scope = home ∨ next ≤ b.scope ∧ b.scope < next + scopeCountAll os
  | [], _, _, _, _, h => by cases h
  | o :: os, id, home, next, b, h => by
    simp only [bindingsAll, List.mem_append] at h
    rw [scopeCountAll_cons]
    rcases h with h | h
    · have := bindings_scope o h
      omega
    · have := bindingsAll_scope os h
      omega

end

theorem lookup_eq_none {bs : List Binding} {j : Nat} (h : ∀ b ∈ bs, b.scope ≠ j) (n : String) :
    lookup bs j n = none := by
  unfold lookup
  rw [Option.map_eq_none_iff, List.find?_eq_none]
  intro b hb
  simp [h b hb]

/-! ### The bindings of one scope -/

mutual

theorem mem_bindings : ∀ (o : Outline) {id home next j : Nat} (n : String), j < next →
    ((∃ k, ⟨j, n, k⟩ ∈ bindings id home next o) ↔
      j = id ∧ n ∈ lexical o ∨ j = home ∧ n ∈ hoisted o)
  | .reference _, _, _, _, _, _, _ => by simp [bindings, lexical, hoisted]
  | .declare m k, id, home, next, j, n, _ => by
    cases hk : k.isFunctionScoped <;> simp [bindings, lexical, hoisted, hk]
  | .scope k _ body, id, home, next, j, n, hj => by
    have hbody := @mem_bindingsAll body next (homeIn k home next) (next + 1) j n (by omega)
    have hne : j ≠ next := by omega
    simp only [bindings, lexical, hoisted, hbody, hne, false_and, false_or, List.not_mem_nil,
      and_false]
    unfold homeIn
    cases k.isFunctionBoundary <;> simp [hne]

/-- What facts bind in a scope around them: some names in their own, the hoisted ones in the one of
the function. -/
theorem mem_bindingsAll : ∀ (os : List Outline) {id home next j : Nat} (n : String), j < next →
    ((∃ k, ⟨j, n, k⟩ ∈ bindingsAll id home next os) ↔
      j = id ∧ n ∈ lexicalAll os ∨ j = home ∧ n ∈ hoistedAll os)
  | [], _, _, _, _, _, _ => by simp [bindingsAll, hoistedAll]
  | o :: os, id, home, next, j, n, hj => by
    have ho := @mem_bindings o id home next j n hj
    have hos := @mem_bindingsAll os id home (next + scopeCount o) j n
      (Nat.lt_of_lt_of_le hj (Nat.le_add_right _ _))
    simp only [bindingsAll, List.mem_append, exists_or, ho, hos, lexicalAll_cons, hoistedAll]
    grind

end

theorem mem_bindingsAll_scope (k : ScopeKind) (body : List Outline) {home next : Nat} (n : String)
    (hh : home < next) :
    (∃ k', ⟨next, n, k'⟩ ∈ bindingsAll next (homeIn k home next) (next + 1) body) ↔
      n ∈ declared k body := by
  rw [mem_bindingsAll body n (Nat.lt_succ_self next), mem_declared]
  unfold homeIn
  cases k.isFunctionBoundary with
  | true => simp
  | false => simp [Nat.ne_of_gt hh]

mutual

/-- The scopes that a fact opens, with the spans of functions. -/
def spanIds (next : Nat) : Outline → List (Nat × Option Span)
  | .reference _ => []
  | .declare _ _ => []
  | .scope _ f body => (next, f) :: spanIdsAll (next + 1) body

def spanIdsAll (next : Nat) : List Outline → List (Nat × Option Span)
  | [] => []
  | o :: os => spanIds next o ++ spanIdsAll (next + scopeCount o) os

end

end Outline

variable {k : ScopeKind} {f : Option Span} {body : List Outline}

namespace ScopeTable

open Outline

/-- The scopes that facts open in the scope `id` are in the table, numbered from `next`. -/
structure Laid (t : ScopeTable) (id next : Nat) (os : List Outline) : Prop where
  id_mem : id ∈ t.chain id
  chain_lt : ∀ j ∈ t.chain id, j < next
  shape : ∀ i, i < scopeCountAll os → t.shape[next + i]? = (openingsAll (t.chain id) next os)[i]?

variable {t : ScopeTable} {id home next : Nat} {o : Outline} {os : List Outline}

theorem Laid.head (h : Laid t id next (o :: os)) : Laid t id next [o] where
  id_mem := h.id_mem
  chain_lt := h.chain_lt
  shape i hi := by
    rw [scopeCountAll_singleton] at hi
    rw [h.shape i (by rw [scopeCountAll_cons]; omega)]
    simp only [openingsAll, List.append_nil]
    rw [List.getElem?_append_left (by rw [length_openings]; exact hi)]

theorem Laid.tail (h : Laid t id next (o :: os)) : Laid t id (next + scopeCount o) os where
  id_mem := h.id_mem
  chain_lt j hj := by
    have := h.chain_lt j hj
    omega
  shape i hi := by
    have := h.shape (scopeCount o + i) (by rw [scopeCountAll_cons]; omega)
    rw [Nat.add_assoc, this]
    simp only [openingsAll]
    rw [List.getElem?_append_right (by rw [length_openings]; omega), length_openings,
      Nat.add_sub_cancel_left]

/-- The scope of a fact lies directly in the scope where the fact stands. -/
theorem Laid.chain_next (h : Laid t id next [.scope k f body]) :
    t.chain next = next :: t.chain id := by
  have := h.shape 0 (by simp [scopeCountAll, scopeCount])
  rw [chain_eq]
  simp only [Nat.add_zero, openingsAll, openings, List.cons_append,
    List.getElem?_cons_zero] at this
  rw [this]

theorem Laid.inside (h : Laid t id next [.scope k f body]) : Laid t next (next + 1) body where
  id_mem := by rw [h.chain_next]; simp
  chain_lt j hj := by
    rw [h.chain_next] at hj
    rcases List.mem_cons.1 hj with rfl | hj
    · omega
    · have := h.chain_lt j hj
      omega
  shape i hi := by
    have := h.shape (i + 1) (by simp [scopeCountAll, scopeCount]; omega)
    simp only [openingsAll, openings, List.append_nil, List.getElem?_cons_succ] at this
    rw [show next + 1 + i = next + (i + 1) by omega, this, h.chain_next]

mutual

/-- The scopes around a scope that a fact opens: some of the fact, then those around the fact. -/
theorem Laid.chain_fact : ∀ (o : Outline) {id next : Nat}, Laid t id next [o] →
    ∀ j, next ≤ j → j < next + scopeCount o →
    ∃ inner, t.chain j = inner ++ t.chain id ∧ j ∈ inner ∧
      ∀ i ∈ inner, next ≤ i ∧ i < next + scopeCount o
  | .reference _, _, _, _, j, _, h => by
    simp only [scopeCount] at h
    omega
  | .declare _ _, _, _, _, j, _, h => by
    simp only [scopeCount] at h
    omega
  | .scope k f body, id, next, hl, j, hlo, hhi => by
    have hc := hl.chain_next
    simp only [scopeCount] at hhi ⊢
    rcases Nat.lt_or_ge next j with hlt | hge
    · obtain ⟨inner, hin, hj, hrange⟩ := Laid.chain_facts body hl.inside j hlt (by omega)
      refine ⟨inner ++ [next], by rw [hin, hc]; simp, by simp [hj], ?_⟩
      intro i hi
      rcases List.mem_append.1 hi with hi | hi
      · have := hrange i hi
        omega
      · simp only [List.mem_singleton] at hi
        omega
    · obtain rfl : j = next := by omega
      refine ⟨[j], hc, by simp, ?_⟩
      intro i hi
      simp only [List.mem_singleton] at hi
      omega

theorem Laid.chain_facts : ∀ (os : List Outline) {id next : Nat}, Laid t id next os →
    ∀ j, next ≤ j → j < next + scopeCountAll os →
    ∃ inner, t.chain j = inner ++ t.chain id ∧ j ∈ inner ∧
      ∀ i ∈ inner, next ≤ i ∧ i < next + scopeCountAll os
  | [], _, _, _, j, _, h => by
    simp only [scopeCountAll] at h
    omega
  | o :: os, id, next, hl, j, hlo, hhi => by
    rw [scopeCountAll_cons] at hhi ⊢
    rcases Nat.lt_or_ge j (next + scopeCount o) with hlt | hge
    · obtain ⟨inner, hin, hj, hrange⟩ := Laid.chain_fact o hl.head j hlo hlt
      refine ⟨inner, hin, hj, fun i hi => ?_⟩
      have := hrange i hi
      omega
    · obtain ⟨inner, hin, hj, hrange⟩ := Laid.chain_facts os hl.tail j hge (by omega)
      refine ⟨inner, hin, hj, fun i hi => ?_⟩
      have := hrange i hi
      omega

end

/-- The scopes around a reference: some that the facts open, then those around the facts. -/
theorem Laid.chain_mention (h : Laid t id next os) {r : Reference}
    (hr : r ∈ mentionsAll id next os) :
    ∃ inner, t.chain r.scope = inner ++ t.chain id ∧
      ∀ i ∈ inner, next ≤ i ∧ i < next + scopeCountAll os := by
  rcases mentionsAll_scope os hr with heq | ⟨hlo, hhi⟩
  · exact ⟨[], by rw [heq]; rfl, by simp⟩
  · obtain ⟨inner, hin, -, hrange⟩ := h.chain_facts os r.scope hlo hhi
    exact ⟨inner, hin, hrange⟩

/-- Facts that stand in a table: in the scope `id`, whose nearest function is `home`, with scopes
numbered from `next`. Other references of the table lie in none of these scopes. -/
structure Placed (t : ScopeTable) (id home next : Nat) (os : List Outline) : Prop
    extends Laid t id next os where
  home_lt : home < next
  bound : ∀ j n, next ≤ j → j < next + scopeCountAll os →
    t.boundIn j n = lookup (bindingsAll id home next os) j n
  isolated : ∃ before after, t.references = before ++ mentionsAll id next os ++ after ∧
    ∀ r ∈ before ++ after, ∀ j, next ≤ j → j < next + scopeCountAll os → j ∉ t.chain r.scope

theorem Laid.id_lt (h : Laid t id next os) : id < next :=
  h.chain_lt id h.id_mem

theorem Placed.head (h : Placed t id home next (o :: os)) : Placed t id home next [o] where
  toLaid := h.toLaid.head
  home_lt := h.home_lt
  bound j n hlo hhi := by
    rw [scopeCountAll_singleton] at hhi
    rw [h.bound j n hlo (by rw [scopeCountAll_cons]; omega)]
    simp only [bindingsAll, List.append_nil]
    -- the facts that follow bind in other scopes
    have hrest : ∀ b ∈ bindingsAll id home (next + scopeCount o) os, b.scope ≠ j := by
      intro b hb
      have := bindingsAll_scope os hb
      have := h.id_lt
      have := h.home_lt
      omega
    simp [lookup_append, lookup_eq_none hrest]
  isolated := by
    obtain ⟨before, after, heq, hout⟩ := h.isolated
    refine ⟨before, mentionsAll id (next + scopeCount o) os ++ after, ?_, ?_⟩
    · rw [heq]
      simp [mentionsAll]
    · intro r hr j hlo hhi
      rw [scopeCountAll_singleton] at hhi
      simp only [List.mem_append] at hr
      rcases hr with hr | hr | hr
      · exact hout r (by simp [hr]) j hlo (by rw [scopeCountAll_cons]; omega)
      · obtain ⟨inner, hin, hrange⟩ := h.toLaid.tail.chain_mention hr
        rw [hin, List.mem_append]
        rintro (hj | hj)
        · have := hrange j hj
          omega
        · have := h.chain_lt j hj
          omega
      · exact hout r (by simp [hr]) j hlo (by rw [scopeCountAll_cons]; omega)

theorem Placed.tail (h : Placed t id home next (o :: os)) :
    Placed t id home (next + scopeCount o) os where
  toLaid := h.toLaid.tail
  home_lt := by
    have := h.home_lt
    omega
  bound j n hlo hhi := by
    rw [h.bound j n (by omega) (by rw [scopeCountAll_cons]; omega)]
    simp only [bindingsAll]
    have hfirst : ∀ b ∈ bindings id home next o, b.scope ≠ j := by
      intro b hb
      have := bindings_scope o hb
      have := h.id_lt
      have := h.home_lt
      omega
    simp [lookup_append, lookup_eq_none hfirst]
  isolated := by
    obtain ⟨before, after, heq, hout⟩ := h.isolated
    refine ⟨before ++ mentions id next o, after, ?_, ?_⟩
    · rw [heq]
      simp [mentionsAll]
    · intro r hr j hlo hhi
      simp only [List.mem_append] at hr
      rcases hr with (hr | hr) | hr
      · exact hout r (by simp [hr]) j (by omega) (by rw [scopeCountAll_cons]; omega)
      · obtain ⟨inner, hin, hrange⟩ := h.toLaid.head.chain_mention (r := r)
          (by simpa [mentionsAll] using hr)
        rw [scopeCountAll_singleton] at hrange
        rw [hin, List.mem_append]
        rintro (hj | hj)
        · have := hrange j hj
          omega
        · have := h.chain_lt j hj
          omega
      · exact hout r (by simp [hr]) j (by omega) (by rw [scopeCountAll_cons]; omega)

theorem Placed.inside (h : Placed t id home next [.scope k f body]) :
    Placed t next (homeIn k home next) (next + 1) body where
  toLaid := h.toLaid.inside
  home_lt := by
    have := h.home_lt
    unfold homeIn
    split <;> omega
  bound j n hlo hhi := by
    rw [h.bound j n (by omega) (by simp only [scopeCountAll_singleton, scopeCount]; omega)]
    simp [bindingsAll, bindings]
  isolated := by
    obtain ⟨before, after, heq, hout⟩ := h.isolated
    refine ⟨before, after, by simpa [mentionsAll, mentions] using heq, ?_⟩
    intro r hr j hlo hhi
    exact hout r hr j (by omega) (by simp only [scopeCountAll_singleton, scopeCount]; omega)

theorem Placed.bound_scope (h : Placed t id home next [.scope k f body]) (n : String) :
    (t.boundIn next n).isSome = true ↔ n ∈ declared k body := by
  rw [h.bound next n (Nat.le_refl _) (by simp only [scopeCountAll_singleton, scopeCount]; omega),
    lookup_isSome]
  simp only [bindingsAll, bindings, List.append_nil]
  exact mem_bindingsAll_scope k body n h.home_lt

/-! ### Free names -/

/-- No scope around the reference with a number from `lo` on binds its name or is given it. -/
def unbound (t : ScopeTable) (given : Nat → List String) (lo : Nat) (r : Reference) : Bool :=
  (t.chain r.scope).all fun j =>
    j < lo || !((t.boundIn j r.name).isSome || (given j).contains r.name)

/-- Around a reference of facts, numbers from `next` on are those of the facts' scopes. -/
theorem Laid.unbound_eq (h : Laid t id next os) (given : Nat → List String) {r : Reference}
    (hr : r ∈ mentionsAll id next os) {lo : Nat} (hlo : lo ≤ next) (hid : ∀ j ∈ t.chain id, j < lo) :
    t.unbound given lo r = t.unbound given next r := by
  obtain ⟨inner, hin, hrange⟩ := h.chain_mention hr
  unfold unbound
  rw [hin, List.all_append, List.all_append]
  congr 1
  · rw [Bool.eq_iff_iff, List.all_eq_true, List.all_eq_true]
    refine forall₂_congr fun j hj => ?_
    have hj' := hrange j hj
    have h1 : ¬ j < lo := by omega
    have h2 : ¬ j < next := by omega
    simp [h1, h2]
  · rw [Bool.eq_iff_iff, List.all_eq_true, List.all_eq_true]
    refine forall₂_congr fun j hj => ?_
    have h1 := hid j hj
    have h2 : j < next := by omega
    simp [h1, h2]

mutual

/-- The free names of a fact are those of its references that no scope of the fact binds. -/
theorem Placed.free_eq (given : Option Span → List String) (givenTo : Nat → List String) :
    ∀ (o : Outline) {id home next : Nat}, Placed t id home next [o] →
      (∀ e ∈ spanIds next o, givenTo e.1 = given e.2) →
      free given o =
        ((mentions id next o).filter (t.unbound givenTo next)).map (·.name)
  | .reference n, id, home, next, h, _ => by
    have hu : t.unbound givenTo next ⟨n, id⟩ = true := by
      unfold unbound
      rw [List.all_eq_true]
      intro j hj
      simp [h.chain_lt j hj]
    simp [free, mentions, hu]
  | .declare _ _, _, _, _, _, _ => rfl
  | .scope k f body, id, home, next, h, hg => by
    have ih := Placed.freeAll_eq given givenTo body h.inside
      fun e he => hg e (List.mem_cons_of_mem _ he)
    have hnext : givenTo next = given f := hg (next, f) List.mem_cons_self
    simp only [free, ih, mentions, List.filter_map, List.filter_filter]
    congr 1
    apply List.filter_congr
    intro r hr
    obtain ⟨inner, hin, hrange⟩ := h.inside.toLaid.chain_mention hr
    -- the scope itself is the only number from `next` on that is not from `next + 1` on
    have hbound : (t.boundIn next r.name).isSome = (declared k body).contains r.name := by
      rw [Bool.eq_iff_iff, h.bound_scope]
      simp
    have hstep : t.unbound givenTo next r =
        (t.unbound givenTo (next + 1) r &&
          !((t.boundIn next r.name).isSome || (givenTo next).contains r.name)) := by
      unfold unbound
      rw [hin, h.toLaid.chain_next]
      simp only [List.all_append, List.all_cons, Nat.lt_irrefl, decide_false, Bool.false_or,
        Nat.lt_succ_self, decide_true, Bool.true_or, Bool.true_and]
      have hinner : (inner.all fun j => decide (j < next) ||
            !((t.boundIn j r.name).isSome || (givenTo j).contains r.name)) =
          (inner.all fun j => decide (j < next + 1) ||
            !((t.boundIn j r.name).isSome || (givenTo j).contains r.name)) := by
        rw [Bool.eq_iff_iff, List.all_eq_true, List.all_eq_true]
        refine forall₂_congr fun j hj => ?_
        have := hrange j hj
        have h1 : ¬ j < next := by omega
        have h2 : ¬ j < next + 1 := by omega
        simp [h1, h2]
      have hchain : ∀ lo, next ≤ lo → ((t.chain id).all fun j => decide (j < lo) ||
            !((t.boundIn j r.name).isSome || (givenTo j).contains r.name)) = true := by
        intro lo hlo
        rw [List.all_eq_true]
        intro j hj
        have := h.chain_lt j hj
        have h1 : j < lo := by omega
        simp [h1]
      rw [hinner, hchain next (Nat.le_refl _), hchain (next + 1) (Nat.le_succ _)]
      simp
    simp only [Function.comp_apply]
    rw [hstep, hbound, hnext, Bool.and_comm]

/-- **The free names of facts are those of their references that no scope of the facts binds.** -/
theorem Placed.freeAll_eq (given : Option Span → List String) (givenTo : Nat → List String) :
    ∀ (os : List Outline) {id home next : Nat}, Placed t id home next os →
      (∀ e ∈ spanIdsAll next os, givenTo e.1 = given e.2) →
      freeAll given os =
        ((mentionsAll id next os).filter (t.unbound givenTo next)).map (·.name)
  | [], _, _, _, _, _ => rfl
  | o :: os, id, home, next, h, hg => by
    have ho := Placed.free_eq given givenTo o h.head
      fun e he => hg e (List.mem_append_left _ he)
    have hos := Placed.freeAll_eq given givenTo os h.tail
      fun e he => hg e (List.mem_append_right _ he)
    simp only [freeAll, mentionsAll, List.filter_append, List.map_append, ho, hos]
    congr 2
    apply List.filter_congr
    intro r hr
    exact (h.tail.toLaid.unbound_eq givenTo hr (Nat.le_add_right _ _) h.chain_lt).symm

end

end ScopeTable

end Worklet
