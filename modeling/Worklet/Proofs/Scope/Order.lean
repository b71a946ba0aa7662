import Worklet.Proofs.Scope.Ancestry
import Worklet.Proofs.Scope.Places
import Worklet.Proofs.Syntax.Programs

/-!
# The order of references

The references of a program, and with them the names of closures, come in the order of the text. The
exceptions are mentions in parts that a node twists.

Principal results: `Scoping.placed_pairwise` — mentions follow the text in a tree whose words do;
`references_follow_text` — references and closures of every program do.
-/

set_option autoImplicit false

namespace Worklet

open Syntax Outline

namespace Scoping

open Item Rule

/-- A mention comes before another one, which stands before it. -/
inductive Swapped : Role → Ast → String × Nat → String × Nat → Prop
  | here {m : Role} {t a b : Ast} {x y : String × Nat} (h : (a, b) ∈ twists t)
      (hx : x ∈ plain.placed .refers a) (hy : y ∈ plain.placed .refers b) : Swapped m t x y
  | part {m m' : Role} {t u : Ast} {x y : String × Nat} (h : .part m' u ∈ (plain.rule m t).items)
      (hxy : Swapped m' u x y) : Swapped m t x y

theorem lt_of_sublist {l l₁ l₂ : List Nat} (hl : l.Pairwise (· < ·)) (h : (l₁ ++ l₂).Sublist l)
    {a b : Nat} (ha : a ∈ l₁) (hb : b ∈ l₂) : a < b :=
  (List.pairwise_append.1 (hl.sublist h)).2.2 a ha b hb

theorem Swapped.lt {m : Role} {t : Ast} {x y : String × Nat} (h : Swapped m t x y)
    (ht : (marks t).Pairwise (· < ·)) : y.2 < x.2 := by
  induction h with
  | here h hx hy =>
    exact lt_of_sublist ht (twist_sublist h) (mem_marks_of_placed hy) (mem_marks_of_placed hx)
  | part h _ ih => exact ih (ht.sublist (part_sublist h))

/-- Of two mentions the first one stands first, or the node twists the parts that they are in. -/
def InTurn (t : Ast) (x y : String × Nat) : Prop :=
  x.2 < y.2 ∨ ∃ p ∈ twists t, x ∈ plain.placed .refers p.1 ∧ y ∈ plain.placed .refers p.2

/-- The parts of a node meet in the order of the text, but for those that the node twists. -/
def Meet (t u v : Ast) : Prop :=
  ∀ x ∈ plain.placed .refers u, ∀ y ∈ plain.placed .refers v, InTurn t x y

section

variable {t : Ast} (ht : (marks t).Pairwise (· < ·))

include ht in
theorem meet_of_sublist {u v : Ast} (h : (marks u ++ marks v).Sublist (marks t)) : Meet t u v :=
  fun _ hx _ hy => .inl (lt_of_sublist ht h (mem_marks_of_placed hx) (mem_marks_of_placed hy))

theorem meet_of_twist {u v : Ast} (h : (u, v) ∈ twists t) : Meet t u v :=
  fun _ hx _ hy => .inr ⟨_, h, hx, hy⟩

theorem pairwise_placedBy_parts {cs : List Ast} (h : cs.Pairwise (Meet t)) :
    (parts .refers cs).Pairwise fun i j =>
      ∀ x ∈ plain.placedBy t i, ∀ y ∈ plain.placedBy t j, InTurn t x y := by
  unfold parts
  rw [List.pairwise_map]
  exact h

include ht in
/-- A member's key and value stand before its annotation, and its decorators before them. -/
theorem pairwise_meet_property {key value ann ds : Ast}
    (hmarks : marks t = marks ds ++ marks key ++ marks value ++ marks ann)
    (htwists : twists t = [(key, ds), (value, ds), (ann, ds)]) :
    [key, value, ann, ds].Pairwise (Meet t) := by
  have hds : ∀ u ∈ [key, value, ann], Meet t u ds := fun u hu =>
    meet_of_twist (by rw [htwists]; simpa using hu)
  have hkv : Meet t key value := meet_of_sublist ht (by rw [hmarks]; grind)
  have hka : Meet t key ann := meet_of_sublist ht (by rw [hmarks]; grind)
  have hva : Meet t value ann := meet_of_sublist ht (by rw [hmarks]; grind)
  simp only [List.pairwise_cons, List.mem_cons, List.not_mem_nil, or_false]
  grind

theorem mem_itemMarks_of_placedBy {t : Ast} {i : Item} {x : String × Nat}
    (hx : x ∈ plain.placedBy t i) : x.2 ∈ itemMarks t i := by
  cases i with
  | mention n =>
    obtain rfl := List.mem_singleton.1 hx
    exact List.mem_singleton_self _
  | declare n b => cases hx
  | part m u => exact mem_marks_of_placed hx

include ht in
/-- The key of a method stands after its decorators and before its parameters. -/
theorem meet_method {s : Span} {isAsync isGenerator : Bool} {key ps ds body : Ast} {rest : List Ast}
    (hmarks : marks t = marks ds ++ marks key ++ marks ps ++ marks body)
    (htwists : twists t = [(key, ds)]) :
    Meet t key (.node (.function isAsync isGenerator) s (ps :: ds :: body :: rest)) := by
  intro x hx y hy
  have hx' := mem_marks_of_placed hx
  rw [placed_rule, List.mem_flatMap] at hy
  obtain ⟨i, hi, hy⟩ := hy
  change i ∈ [.part .refers ds, .part .refers ps, ofBody body] at hi
  simp only [List.mem_cons, List.not_mem_nil, or_false] at hi
  rcases hi with rfl | rfl | rfl
  · exact .inr ⟨(key, ds), by rw [htwists]; exact List.mem_singleton_self _, hx, hy⟩
  · refine .inl (lt_of_sublist ht ?_ hx' (mem_itemMarks_of_placedBy hy))
    rw [hmarks, itemMarks_part]
    grind
  · refine .inl (lt_of_sublist ht ?_ hx' (mem_itemMarks_of_placedBy hy))
    rw [hmarks, itemMarks_ofBody]
    grind

include ht in
/-- The class that a class extends stands before the members, and is visited after them. -/
theorem pairwise_meet_class {ds ms base : Ast} {rest : List Ast}
    (hmarks : marks t = marks ds ++ marks base ++ marks ms ++ marksAll rest)
    (htwists : twists t = [(ms, base)]) : (ds :: ms :: base :: rest).Pairwise (Meet t) := by
  have hbase : Meet t ms base := meet_of_twist (by rw [htwists]; exact List.mem_singleton_self _)
  have hds : Meet t ds ms := meet_of_sublist ht (by rw [hmarks]; grind)
  have hds' : Meet t ds base := meet_of_sublist ht (by rw [hmarks]; grind)
  have hrest : ∀ u ∈ [ds, ms, base], ∀ v ∈ rest, Meet t u v := fun u hu v hv => by
    have := sublist_marksAll hv
    refine meet_of_sublist ht ?_
    rw [hmarks]
    refine List.Sublist.append ?_ this
    simp only [List.mem_cons, List.not_mem_nil, or_false] at hu
    grind
  have hall : rest.Pairwise (Meet t) := (pairwise_marksAll rest).imp fun h =>
    meet_of_sublist ht (h.trans (by rw [hmarks]; exact List.sublist_append_right _ _))
  simp only [List.pairwise_cons, List.mem_cons]
  grind

include ht in
/-- Of two mentions in different items of a node the first one stands first, or the node twists. -/
theorem items_pairwise (m : Role) :
    (plain.rule m t).items.Pairwise fun i j =>
      ∀ x ∈ plain.placedBy t i, ∀ y ∈ plain.placedBy t j, InTurn t x y := by
  by_cases htwist : twists t = []
  · obtain ⟨naming, heq⟩ := items_plain m t
    rw [heq]
    refine (List.pairwise_flatMap.1 (ht.sublist (items_sublist htwist))).2.imp fun h => ?_
    intro x hx y hy
    exact .inl (h _ (mem_itemMarks_of_placedBy hx) _ (mem_itemMarks_of_placedBy hy))
  revert htwist
  fun_cases twists t with
  | case1 isAbstract s ds ms base rest =>
    intro _
    rw [items_of_parts fun _ => rfl]
    exact pairwise_placedBy_parts (pairwise_meet_class ht rfl rfl)
  | case2 s test body =>
    intro _
    rw [items_of_parts fun _ => rfl]
    refine pairwise_placedBy_parts (List.pairwise_pair.2 (meet_of_twist ?_))
    exact List.mem_singleton_self _
  | case3 k mods s key isAsync isGenerator s' ps ds body rest =>
    intro _
    rw [items_of_parts fun _ => rfl]
    exact pairwise_placedBy_parts (List.pairwise_pair.2 (meet_method ht rfl rfl))
  | case4 mods s key value ann ds =>
    intro _
    rw [items_of_parts fun _ => rfl]
    exact pairwise_placedBy_parts (pairwise_meet_property ht rfl rfl)
  | case5 mods s key value ann ds =>
    intro _
    rw [items_of_parts fun _ => rfl]
    exact pairwise_placedBy_parts (pairwise_meet_property ht rfl rfl)
  | case6 => exact fun h => absurd rfl h

end

/-- **Mentions stand in the order of the text but for those that a node twists.** -/
theorem placed_pairwise (m : Role) {t : Ast} (ht : (marks t).Pairwise (· < ·)) :
    (plain.placed m t).Pairwise fun x y => x.2 < y.2 ∨ Swapped m t x y := by
  refine plain.rule_induction (P := fun m t => (marks t).Pairwise (· < ·) →
    (plain.placed m t).Pairwise fun x y => x.2 < y.2 ∨ Swapped m t x y)
    (fun m t ih ht => ?_) m t ht
  rw [placed_rule, List.pairwise_flatMap]
  refine ⟨?_, (items_pairwise ht m).imp fun h x hx y hy => ?_⟩
  · rintro (n | ⟨n, b⟩ | ⟨m', u⟩) hi
    · exact List.pairwise_singleton _ _
    · exact .nil
    · exact (ih m' u hi (ht.sublist (part_sublist hi))).imp fun h => h.imp_right (.part hi)
  · obtain hlt | ⟨⟨a, b⟩, hp, hx', hy'⟩ := h x hx y hy
    · exact .inl hlt
    · exact .inr (.here hp hx' hy')

end Scoping

/-! ### Parsed programs -/

def mentionsOf (module : Ast) : List (String × Nat) :=
  Scoping.plain.placed .refers module

/-- The mentions stand at different places, the first one first unless a node of the module twists
them. -/
def ByText (module : Ast) (x y : String × Nat) : Prop :=
  x.2 ≠ y.2 ∧ (y.2 < x.2 ↔ Scoping.Swapped .refers module x y)

/-- The reference of a number captures a name for a function. -/
def ScopeTable.CapturesAt (t : ScopeTable) (own : Nat) (ownName : Option String) (n : String)
    (i : Nat) : Prop :=
  ∃ r b, t.references[i]? = some r ∧ r.name = n ∧ captured? t own ownName r = some b

/-- References and closures of a module follow the text but for mentions that are swapped. -/
structure FollowsText (module : Ast) : Prop where
  /-- The references are the mentions, which are identifiers of the module. -/
  references : (ScopeTable.ofModule module).references.map (·.name) = (mentionsOf module).map (·.1)
  idents : ∀ x ∈ mentionsOf module, x ∈ identsIn module
  ordered : (mentionsOf module).Pairwise (ByText module)
  /-- A closure has the captured names, each by its first captured reference. -/
  closures : ∀ (c : Candidate) (own : Nat),
    (ScopeTable.ofModule module).functionScope? c.span = some own →
    ∃ closure, capture (ScopeTable.ofModule module) c = .ok closure ∧
      (∀ n, n ∈ closure.names ↔ ∃ i, (ScopeTable.ofModule module).CapturesAt own c.ownName? n i) ∧
      closure.names.Pairwise fun m n => ∃ i x, (mentionsOf module)[i]? = some x ∧
        (ScopeTable.ofModule module).CapturesAt own c.ownName? m i ∧
        ∀ j y, (mentionsOf module)[j]? = some y →
          (ScopeTable.ofModule module).CapturesAt own c.ownName? n j → i < j ∧ ByText module x y

theorem map_name_references_mentionsOf (module : Ast) :
    (ScopeTable.ofModule module).references.map (·.name) = (mentionsOf module).map (·.1) := by
  have hadds := (ScopeTable.addAll_empty (outline module)).references
  have hfacts : Scoping.plain.facts .refers module = outline module :=
    Scoping.facts_plain .refers module
  have hrefs : (ScopeTable.ofModule module).references = mentionsAll 0 1 (outline module) := hadds
  rw [hrefs, ← hfacts]
  exact Scoping.plain.map_name_mentionsAll .refers module 0 1

theorem mentionsOf_follows {module : Ast} (h : (marks module).Pairwise (· < ·)) :
    (mentionsOf module).Pairwise (ByText module) := by
  refine (Scoping.placed_pairwise .refers h).imp fun {x y} hxy => ?_
  by_cases hs : Scoping.Swapped .refers module x y
  · have hlt := hs.lt h
    exact ⟨by omega, iff_of_true hlt hs⟩
  · have hlt := hxy.resolve_right hs
    exact ⟨by omega, iff_of_false (by omega) hs⟩

theorem mem_names_captureFrom {t : ScopeTable} {own : Nat} {ownName : Option String} {n : String} :
    n ∈ (captureFrom t own ownName).names ↔ ∃ i, t.CapturesAt own ownName n i := by
  have hgathers := captureFrom_gathers t own ownName
  constructor
  · intro hn
    obtain ⟨⟨m, b⟩, hmem, rfl⟩ := List.mem_map.1 hn
    obtain ⟨r, hr, hname, hb⟩ := hgathers.sound m b hmem
    obtain ⟨i, hi⟩ := List.getElem?_of_mem hr
    exact ⟨i, r, b, hi, hname, hb⟩
  · rintro ⟨i, r, b, hi, rfl, hb⟩
    exact hgathers.complete r (List.mem_of_getElem? hi) b hb

theorem names_captureFrom_follow {module : Ast} (h : (mentionsOf module).Pairwise (ByText module))
    (own : Nat) (ownName : Option String) :
    (captureFrom (ScopeTable.ofModule module) own ownName).names.Pairwise fun m n =>
      ∃ i x, (mentionsOf module)[i]? = some x ∧
        (ScopeTable.ofModule module).CapturesAt own ownName m i ∧
        ∀ j y, (mentionsOf module)[j]? = some y →
          (ScopeTable.ofModule module).CapturesAt own ownName n j → i < j ∧ ByText module x y := by
  have hlength : (ScopeTable.ofModule module).references.length = (mentionsOf module).length := by
    simpa using congrArg List.length (map_name_references_mentionsOf module)
  refine (captureFrom_gathers _ own ownName).ordered.imp ?_
  rintro m n ⟨i, r, b, hi, hm, hb, hbefore⟩
  have hlt : i < (mentionsOf module).length := by
    rw [← hlength]
    exact (List.getElem?_eq_some_iff.1 hi).1
  refine ⟨i, _, List.getElem?_eq_getElem hlt, ⟨r, b, hi, hm, hb⟩, ?_⟩
  rintro j y hy ⟨r', b', hj, hn, hb'⟩
  have hij := hbefore j r' b' hj hn hb'
  obtain ⟨hj', rfl⟩ := List.getElem?_eq_some_iff.1 hy
  exact ⟨hij, List.pairwise_iff_getElem.1 h i j hlt hj' hij⟩

/-- **References are recorded in the order of the text**, and so are the names of closures, but for
mentions that a class, a loop with its test at the end or a decorated member twists. -/
theorem references_follow_text {filename source : String} {p : Program}
    (h : Program.parse filename source = .ok p) : FollowsText p.module := by
  have hordered := mentionsOf_follows (marks_module_ordered h)
  refine ⟨map_name_references_mentionsOf p.module, fun x => Scoping.mem_identsIn_of_placed, hordered,
    fun c own hown => ?_⟩
  have hcapture : capture (ScopeTable.ofModule p.module) c =
      .ok (captureFrom (ScopeTable.ofModule p.module) own c.ownName?) := by
    simp only [capture, hown]
  exact ⟨_, hcapture, fun _ => mem_names_captureFrom, names_captureFrom_follow hordered own _⟩

/-- A class that extends a constant and uses another one in a member. -/
def sampleExtends : String :=
  "const B = 1, c = 2; function f() \x7b class A extends B \x7b x = c; \x7d \x7d"

/-- In the sample `c` is captured before `B`, which stands before it. -/
theorem references_follow_sampleExtends : ∃ p, Program.parse "a.js" sampleExtends = .ok p ∧
    ((ScopeTable.ofModule p.module).functions.map (·.2) = [1] ∧
      (captureFrom (ScopeTable.ofModule p.module) 1 (some "f")).names = ["c", "B"]) ∧
    FollowsText p.module := by
  have heval : (Program.parse "a.js" sampleExtends).toOption.any (fun p =>
      (ScopeTable.ofModule p.module).functions.map (·.2) = [1] ∧
        (captureFrom (ScopeTable.ofModule p.module) 1 (some "f")).names = ["c", "B"]) = true := by
    decide +kernel
  cases hp : Program.parse "a.js" sampleExtends with
  | error e =>
    rw [hp] at heval
    cases heval
  | ok p =>
    rw [hp] at heval
    exact ⟨p, rfl, of_decide_eq_true heval, references_follow_text hp⟩

end Worklet
