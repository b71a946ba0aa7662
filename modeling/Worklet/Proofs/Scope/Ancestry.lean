import Mathlib.Data.List.Induction
import Worklet.Proofs.Scope.Capture

/-!
# Scopes as a tree

The chain of a scope is the scope and the chain of the scope around it. All that a function refers to
and does not bind is therefore looked up from one place, the scope around the function, and a capture
may be kept by its name alone.

Principal results: `ScopeTable.ofOutline_isTree` — the table of an outline is a tree;
`ScopeTable.Escapes.resolve_parent` — what escapes from a scope is what the scope around it knows;
`capture_escaping` — a closure holds exactly what escapes, and a closure around it as well.
-/

set_option autoImplicit false

namespace Worklet

open Syntax Outline

variable {t : ScopeTable} {own : Nat} {r : Reference} {b : Resolution}

namespace ScopeTable

/-- Every scope but the module's lies directly in a scope of a smaller number. -/
structure IsTree (t : ScopeTable) : Prop where
  root : t.chain 0 = [0]
  parent : ∀ i, 0 < i → i < t.scopes.length → ∃ p < i, t.chain i = i :: t.chain p
  functions : ∀ e ∈ t.functions, 0 < e.2 ∧ e.2 < t.scopes.length

/-! ### The pass builds a tree -/

theorem chain_eq_nil {i : Nat} (h : t.scopes.length ≤ i) : t.chain i = [] := by
  rw [chain_eq, List.getElem?_eq_none (by simpa using h)]

/-- Facts that open no scope and name no function leave the tree as it is. -/
theorem IsTree.adds {t' : ScopeTable} {rs : List Reference} {bs : List Binding} (ht : t.IsTree)
    (h : Adds t t' [] rs [] bs) : t'.IsTree := by
  have hshape : t'.shape = t.shape := by simpa using h.shape
  have hchain : ∀ i, t'.chain i = t.chain i := fun i => by rw [chain_eq, chain_eq, hshape]
  have hlen : t'.scopes.length = t.scopes.length := by simpa using h.length
  have hfun : t'.functions = t.functions := by simpa using h.functions
  refine ⟨by rw [hchain, ht.root], fun i hi hlt => ?_, by rw [hfun, hlen]; exact ht.functions⟩
  obtain ⟨p, hp, heq⟩ := ht.parent i hi (hlen ▸ hlt)
  exact ⟨p, hp, by rw [hchain, hchain, heq]⟩

theorem IsTree.openScope (hf : t.Formed) (ht : t.IsTree) {id : Nat} (hid : id < t.scopes.length)
    (k : ScopeKind) (f : Option Span) : (t.openScope id k f).IsTree := by
  have hadds := openScope_adds t id k f
  have hlen : (t.openScope id k f).scopes.length = t.scopes.length + 1 := hadds.length
  refine ⟨by rw [hadds.chain_eq hf.1, ht.root], fun i hi hlt => ?_, fun e he => ?_⟩
  · rcases Nat.lt_or_ge i t.scopes.length with hold | hnew
    · obtain ⟨p, hp, heq⟩ := ht.parent i hi hold
      exact ⟨p, hp, by rw [hadds.chain_eq hold, hadds.chain_eq (by omega), heq]⟩
    · obtain rfl : i = t.scopes.length := by omega
      exact ⟨id, hid, by rw [chain_openScope, hadds.chain_eq hid]⟩
  · rw [hadds.functions, List.mem_append, List.mem_reverse] at he
    rcases he with he | he
    · have : e.2 = t.scopes.length := by
        unfold functionEntry at he
        grind
      have := hf.1
      omega
    · have := ht.functions e he
      omega

mutual

theorem IsTree.add : ∀ (o : Outline) {t : ScopeTable} {id : Nat}, t.Formed → t.IsTree →
    id < t.scopes.length → (t.add id o).IsTree
  | .reference n, t, id, _, ht, _ => ht.adds (refer_adds t id n)
  | .declare n k, _, _, hf, ht, hid => ht.adds (declare_adds hf hid n k)
  | .scope k f body, t, id, hf, ht, hid => by
    have hlen : (t.openScope id k f).scopes.length = t.scopes.length + 1 :=
      (openScope_adds t id k f).length
    exact IsTree.addAll body (hf.openScope id k f) (ht.openScope hf hid k f) (by omega)

theorem IsTree.addAll : ∀ (os : List Outline) {t : ScopeTable} {id : Nat}, t.Formed → t.IsTree →
    id < t.scopes.length → (t.addAll id os).IsTree
  | [], _, _, _, ht, _ => ht
  | o :: os, t, id, hf, ht, hid => by
    obtain ⟨hadds, hf'⟩ := add_adds o hf hid
    have hlt : id < (t.add id o).scopes.length := by
      have := hadds.length
      omega
    exact IsTree.addAll os hf' (IsTree.add o hf ht hid) hlt

end

/-- **The table of an outline is a tree.** -/
theorem ofOutline_isTree (os : List Outline) : (ofOutline os).IsTree := by
  refine IsTree.addAll os empty_formed ⟨rfl, fun i hi hlt => ?_, fun e he => by cases he⟩ root_lt
  simp only [ScopeTable.empty, List.length_singleton] at hlt
  omega

/-! ### Chains of a tree -/

/-- A scope on a chain ends the chain with its own. What comes before it lies in the scope. -/
theorem IsTree.chain_split (ht : t.IsTree) : ∀ {i : Nat}, own ∈ t.chain i →
    ∃ inner, t.chain i = inner ++ t.chain own ∧ ∀ j ∈ inner, own ∈ t.chain j := by
  intro i
  induction i using Nat.strongRecOn with
  | ind i ih =>
    intro hmem
    by_cases hown : own = i
    · exact ⟨[], by simp [hown], by simp⟩
    · -- a chain with a second scope on it is that of a scope with a parent
      have hlt : i < t.scopes.length := by
        by_contra hge
        rw [chain_eq_nil (by omega)] at hmem
        cases hmem
      have hpos : 0 < i := by
        rcases Nat.eq_zero_or_pos i with rfl | hpos
        · rw [ht.root, List.mem_singleton] at hmem
          exact absurd hmem hown
        · exact hpos
      obtain ⟨p, hp, heq⟩ := ht.parent i hpos hlt
      have hmem' : own ∈ t.chain p := by
        rw [heq, List.mem_cons] at hmem
        exact hmem.resolve_left hown
      obtain ⟨inner, hsplit, hinner⟩ := ih p hp hmem'
      refine ⟨i :: inner, by rw [heq, hsplit, List.cons_append], ?_⟩
      rintro j (_ | ⟨_, hj⟩)
      · exact hmem
      · exact hinner j hj

theorem IsTree.mem_chain_trans (ht : t.IsTree) {i j k : Nat} (hij : j ∈ t.chain i)
    (hjk : k ∈ t.chain j) : k ∈ t.chain i := by
  obtain ⟨inner, hsplit, -⟩ := ht.chain_split hij
  rw [hsplit]
  exact List.mem_append_right _ hjk

theorem isWithin_iff {i : Nat} (h : own < t.scopes.length) :
    t.isWithin i own = true ↔ own ∈ t.chain i := by
  have hself : own ∈ t.chain own := by
    rw [chain_eq, List.getElem?_eq_getElem (by simpa using h)]
    exact List.mem_cons_self
  simp only [isWithin, Bool.or_eq_true, beq_iff_eq, List.contains_iff_mem]
  constructor
  · rintro (rfl | hmem)
    · exact hself
    · exact hmem
  · exact .inr

theorem IsTree.functionScope? (ht : t.IsTree) {span : Span} (h : t.functionScope? span = some own) :
    own < t.scopes.length ∧
      ∃ p, (t.scope? own).bind Scope.parent? = some p ∧ t.chain own = own :: t.chain p := by
  obtain ⟨e, he, rfl⟩ := Option.map_eq_some_iff.1 h
  obtain ⟨hpos, hlt⟩ := ht.functions e (List.mem_of_find?_eq_some he)
  obtain ⟨p, hp, heq⟩ := ht.parent e.2 hpos hlt
  have hself : t.chain p = p :: (t.chain p).tail := by
    rw [chain_eq, List.getElem?_eq_getElem (by simp only [length_shape]; omega)]
    rfl
  refine ⟨hlt, p, ?_, heq⟩
  have hscope : t.scope? e.2 = some t.scopes[e.2] := List.getElem?_eq_getElem hlt
  have haround : t.scopes[e.2].around = t.chain p := by
    simpa [chain, hscope] using heq
  rw [hscope, Option.bind_some, Scope.parent?, haround, hself, List.head?_cons]

/-! ### What escapes from a scope -/

/-- The reference stands inside the scope and denotes a binding outside it. -/
def Escapes (t : ScopeTable) (own : Nat) (r : Reference) (b : Resolution) : Prop :=
  t.isWithin r.scope own = true ∧ t.resolve r.scope r.name = some b ∧
    t.isWithin b.scope own = false

/-- The first name escapes from the scope before the second one does. -/
def EscapesBefore (t : ScopeTable) (own : Nat) (m n : String) : Prop :=
  ∃ (i : Nat) (r : Reference) (b : Resolution), t.references[i]? = some r ∧ r.name = m ∧
    t.Escapes own r b ∧ ∀ (j : Nat) (r' : Reference) (b' : Resolution),
      t.references[j]? = some r' → r'.name = n → t.Escapes own r' b' → i < j

theorem captured?_eq_some {ownName : Option String} :
    captured? t own ownName r = some b ↔ t.Escapes own r b ∧ ownName ≠ some r.name := by
  unfold captured? Escapes
  by_cases hw : t.isWithin r.scope own = true <;> by_cases hn : ownName = some r.name <;>
    simp [hw, hn, Option.filter_eq_some_iff]

/-- **What escapes from a scope is what the scope around it knows**, and the scope itself does not
bind it. -/
theorem Escapes.resolve_parent (ht : t.IsTree) {p : Nat} (hlt : own < t.scopes.length)
    (hchain : t.chain own = own :: t.chain p) (h : t.Escapes own r b) :
    t.resolve p r.name = some b ∧ t.boundIn own r.name = none := by
  obtain ⟨hwithin, hres, hout⟩ := h
  obtain ⟨inner, hsplit, hinner⟩ := ht.chain_split ((isWithin_iff hlt).1 hwithin)
  rw [resolve_eq, hsplit, hchain, List.append_cons, nearest_append] at hres
  rcases nearest_cases t r.name (inner ++ [own]) with ⟨j, hj, kind, hfind, -⟩ | ⟨hfind, hany⟩
  · -- a scope of the function that bound the name would lie in the function
    rw [hfind, Option.some_or, Option.some.injEq] at hres
    subst hres
    have hin : own ∈ t.chain j := by
      rcases List.mem_append.1 hj with hj | hj
      · exact hinner j hj
      · rw [List.mem_singleton.1 hj, hchain]
        exact List.mem_cons_self
    rw [(isWithin_iff hlt).2 hin] at hout
    cases hout
  · rw [hfind, Option.none_or] at hres
    exact ⟨hres, by simpa using List.any_eq_false.1 hany own (by simp)⟩

/-- What escapes from a scope and is bound outside a scope around it escapes from that one too. -/
theorem Escapes.outward (ht : t.IsTree) {own' : Nat} (hlt : own < t.scopes.length)
    (hlt' : own' < t.scopes.length) (hw : t.isWithin own own' = true) (h : t.Escapes own r b)
    (hout : t.isWithin b.scope own' = false) :
    t.Escapes own' r b :=
  ⟨(isWithin_iff hlt').2 (ht.mem_chain_trans ((isWithin_iff hlt).1 h.1) ((isWithin_iff hlt').1 hw)),
    h.2.1, hout⟩

end ScopeTable

/-! ### What a closure gathers -/

/-- Among the references the first name is captured before the second one is. -/
def CapturesBefore (captures : Reference → Option Resolution) (rs : List Reference)
    (m n : String) : Prop :=
  ∃ (i : Nat) (r : Reference) (b : Resolution), rs[i]? = some r ∧ r.name = m ∧
    captures r = some b ∧ ∀ (j : Nat) (r' : Reference) (b' : Resolution),
      rs[j]? = some r' → r'.name = n → captures r' = some b' → i < j

/-- A closure that holds what references capture, each name where it is captured first. -/
structure Gathers (captures : Reference → Option Resolution) (rs : List Reference) (c : Closure) :
    Prop where
  sound : ∀ n b, (n, b) ∈ c.entries → ∃ r ∈ rs, r.name = n ∧ captures r = some b
  complete : ∀ r ∈ rs, ∀ b, captures r = some b → r.name ∈ c.names
  ordered : c.names.Pairwise (CapturesBefore captures rs)

namespace Gathers

variable {captures : Reference → Option Resolution} {rs : List Reference} {c : Closure}

theorem empty : Gathers captures [] .empty :=
  ⟨by simp [Closure.empty], by simp, by simp [Closure.empty, Closure.names]⟩

theorem getElem?_concat {r' : Reference} {j : Nat} (h : (rs ++ [r])[j]? = some r') :
    rs[j]? = some r' ∨ j = rs.length ∧ r' = r := by
  rcases Nat.lt_or_ge j rs.length with hj | hj
  · rw [List.getElem?_append_left hj] at h
    exact .inl h
  · rw [List.getElem?_append_right hj, List.getElem?_singleton] at h
    split at h
    · exact .inr ⟨by omega, by simpa using h.symm⟩
    · cases h

/-- A reference more keeps the order of the names that are there. -/
theorem ordered_concat (h : Gathers captures rs c) (r : Reference) :
    c.names.Pairwise (CapturesBefore captures (rs ++ [r])) := by
  refine h.ordered.imp ?_
  rintro m n ⟨i, r₁, b, hi, hname, hb, hbefore⟩
  have hlt := (List.getElem?_eq_some_iff.1 hi).1
  refine ⟨i, r₁, b, by rw [List.getElem?_append_left hlt, hi], hname, hb, fun j r' b' hj hn hb' => ?_⟩
  rcases getElem?_concat hj with hj | ⟨rfl, rfl⟩
  · exact hbefore j r' b' hj hn hb'
  · exact hlt

theorem skip (h : Gathers captures rs c) (hr : captures r = none) :
    Gathers captures (rs ++ [r]) c := by
  refine ⟨fun n b hmem => ?_, fun r' hr' b hb => ?_, h.ordered_concat r⟩
  · obtain ⟨r', hr', heq⟩ := h.sound n b hmem
    exact ⟨r', List.mem_append_left _ hr', heq⟩
  · rcases List.mem_append.1 hr' with hr' | hr'
    · exact h.complete r' hr' b hb
    · rw [List.mem_singleton.1 hr', hr] at hb
      cases hb

theorem insert (h : Gathers captures rs c) (hr : captures r = some b) :
    Gathers captures (rs ++ [r]) (c.insert r.name b) := by
  unfold Closure.insert
  by_cases hseen : r.name ∈ c.names
  · rw [if_pos (by simpa using hseen)]
    refine ⟨fun n b hmem => ?_, fun r' hr' b' hb' => ?_, h.ordered_concat r⟩
    · obtain ⟨r', hr', heq⟩ := h.sound n b hmem
      exact ⟨r', List.mem_append_left _ hr', heq⟩
    · rcases List.mem_append.1 hr' with hr' | hr'
      · exact h.complete r' hr' b' hb'
      · rw [List.mem_singleton.1 hr']
        exact hseen
  · rw [if_neg (by simpa using hseen)]
    have hnames : (⟨c.entries ++ [(r.name, b)]⟩ : Closure).names = c.names ++ [r.name] := by
      simp [Closure.names]
    refine ⟨fun n b' hmem => ?_, fun r' hr' b' hb' => ?_, ?_⟩
    · rcases List.mem_append.1 hmem with hmem | hmem
      · obtain ⟨r', hr', heq⟩ := h.sound n b' hmem
        exact ⟨r', List.mem_append_left _ hr', heq⟩
      · obtain ⟨rfl, rfl⟩ : n = r.name ∧ b' = b := by simpa using hmem
        exact ⟨r, by simp, rfl, hr⟩
    · rw [hnames]
      rcases List.mem_append.1 hr' with hr' | hr'
      · exact List.mem_append_left _ (h.complete r' hr' b' hb')
      · rw [List.mem_singleton.1 hr']
        simp
    · rw [hnames, List.pairwise_append]
      refine ⟨h.ordered_concat r, List.pairwise_singleton _ _, fun m hm n hn => ?_⟩
      rw [List.mem_singleton.1 hn]
      -- a name that is there was captured before; the new one was captured nowhere
      obtain ⟨⟨m', b₁⟩, hmem, rfl⟩ := List.mem_map.1 hm
      obtain ⟨r₁, hr₁, hname, hb₁⟩ := h.sound m' b₁ hmem
      obtain ⟨i, hi, heq⟩ := List.getElem_of_mem hr₁
      refine ⟨i, r₁, b₁, by rw [List.getElem?_append_left hi, List.getElem?_eq_getElem hi, heq],
        hname, hb₁, fun j r' b' hj hn' hb' => ?_⟩
      rcases getElem?_concat hj with hj | ⟨rfl, -⟩
      · exact absurd (hn' ▸ h.complete r' (List.mem_of_getElem? hj) b' hb') hseen
      · exact hi

theorem nodup (h : Gathers captures rs c) : c.names.Nodup := by
  refine h.ordered.imp ?_
  rintro m n ⟨i, r, b, hi, hname, hb, hbefore⟩ rfl
  exact Nat.lt_irrefl i (hbefore i r b hi hname hb)

end Gathers

theorem captureFrom_gathers (t : ScopeTable) (own : Nat) (ownName : Option String) :
    Gathers (captured? t own ownName) t.references (captureFrom t own ownName) := by
  unfold captureFrom
  induction t.references using List.reverseRecOn with
  | nil => exact .empty
  | append_singleton rs r ih =>
    rw [List.foldl_append, List.foldl_cons, List.foldl_nil]
    cases hr : captured? t own ownName r with
    | none => exact ih.skip hr
    | some b => exact ih.insert hr

/-- An entry of a closure is a binding that escapes under that name. -/
theorem mem_entries_captureFrom (ht : t.IsTree) {p : Nat} (hlt : own < t.scopes.length)
    (hchain : t.chain own = own :: t.chain p) (ownName : Option String) (n : String)
    (b : Resolution) :
    (n, b) ∈ (captureFrom t own ownName).entries ↔
      ownName ≠ some n ∧ ∃ r ∈ t.references, r.name = n ∧ t.Escapes own r b := by
  have hgathers := captureFrom_gathers t own ownName
  constructor
  · intro hmem
    obtain ⟨r, hr, rfl, hb⟩ := hgathers.sound n b hmem
    obtain ⟨hesc, hown⟩ := ScopeTable.captured?_eq_some.1 hb
    exact ⟨hown, r, hr, rfl, hesc⟩
  · rintro ⟨hown, r, hr, rfl, hesc⟩
    have hname := hgathers.complete r hr b (ScopeTable.captured?_eq_some.2 ⟨hesc, hown⟩)
    obtain ⟨⟨m, b'⟩, hmem, rfl⟩ := List.mem_map.1 hname
    -- the entry under the name may come from another reference, which knows the same binding
    obtain ⟨r', -, hname', hb'⟩ := hgathers.sound _ b' hmem
    have hfirst := (hesc.resolve_parent ht hlt hchain).1
    have hother := ((ScopeTable.captured?_eq_some.1 hb').1.resolve_parent ht hlt hchain).1
    rw [hname', hfirst, Option.some.injEq] at hother
    rw [hother]
    exact hmem

/-- **A closure holds exactly what escapes from its function.** All references to a name that escape
from the function denote one binding, the one that the scope around the function knows, and the
function's scope does not bind the name. The closure has each such name once, with that binding, in
the order in which the names first escape. What escapes from a function and from one around it is in
both closures. -/
theorem capture_escaping (module : Ast) :
    let t := ScopeTable.ofModule module
    (∀ (c : Candidate) (own : Nat), t.functionScope? c.span = some own →
      ∃ p closure, (t.scope? own).bind Scope.parent? = some p ∧ capture t c = .ok closure ∧
        (∀ r ∈ t.references, ∀ b, t.Escapes own r b →
          t.resolve p r.name = some b ∧ t.boundIn own r.name = none) ∧
        (∀ n b, (n, b) ∈ closure.entries ↔
          c.ownName? ≠ some n ∧ ∃ r ∈ t.references, r.name = n ∧ t.Escapes own r b) ∧
        closure.names.Nodup ∧ closure.names.Pairwise (t.EscapesBefore own)) ∧
    ∀ (c₁ c₂ : Candidate) (own₁ own₂ : Nat) (closure₁ closure₂ : Closure),
      t.functionScope? c₁.span = some own₁ → t.functionScope? c₂.span = some own₂ →
      t.isWithin own₁ own₂ = true → capture t c₁ = .ok closure₁ → capture t c₂ = .ok closure₂ →
      ∀ e ∈ closure₁.entries, t.isWithin e.2.scope own₂ = false → c₂.ownName? ≠ some e.1 →
        e ∈ closure₂.entries := by
  intro t
  have ht : t.IsTree := ScopeTable.ofOutline_isTree (outline module)
  have hcapture : ∀ (c : Candidate) (own : Nat), t.functionScope? c.span = some own →
      capture t c = .ok (captureFrom t own c.ownName?) := fun c own h => by simp only [capture, h]
  refine ⟨fun c own h => ?_, fun c₁ c₂ own₁ own₂ cl₁ cl₂ h₁ h₂ hw hc₁ hc₂ e he hout hname => ?_⟩
  · obtain ⟨hlt, p, hp, hchain⟩ := ht.functionScope? h
    have hgathers := captureFrom_gathers t own c.ownName?
    refine ⟨p, _, hp, hcapture c own h, fun r _ b hesc => hesc.resolve_parent ht hlt hchain,
      mem_entries_captureFrom ht hlt hchain c.ownName?, hgathers.nodup, ?_⟩
    -- the order among captured references is that among escaping ones, own names apart
    refine hgathers.ordered.imp_of_mem ?_
    rintro m n - hn ⟨i, r, b, hi, hm, hb, hbefore⟩
    obtain ⟨⟨n, b₂⟩, hmem, rfl⟩ := List.mem_map.1 hn
    have hown := ((mem_entries_captureFrom ht hlt hchain c.ownName? n b₂).1 hmem).1
    refine ⟨i, r, b, hi, hm, (ScopeTable.captured?_eq_some.1 hb).1, fun j r' b' hj hn' hesc => ?_⟩
    exact hbefore j r' b' hj hn' (ScopeTable.captured?_eq_some.2 ⟨hesc, by rw [hn']; exact hown⟩)
  · obtain ⟨hlt₁, p₁, -, hchain₁⟩ := ht.functionScope? h₁
    obtain ⟨hlt₂, p₂, -, hchain₂⟩ := ht.functionScope? h₂
    obtain rfl : captureFrom t own₁ c₁.ownName? = cl₁ := by simpa [hcapture c₁ own₁ h₁] using hc₁
    obtain rfl : captureFrom t own₂ c₂.ownName? = cl₂ := by simpa [hcapture c₂ own₂ h₂] using hc₂
    obtain ⟨-, r, hr, hrn, hesc⟩ := (mem_entries_captureFrom ht hlt₁ hchain₁ _ e.1 e.2).1 he
    exact (mem_entries_captureFrom ht hlt₂ hchain₂ _ e.1 e.2).2
      ⟨hname, r, hr, hrn, hesc.outward ht hlt₁ hlt₂ hw hout⟩

/-- `const a = 1; function f(b) { return () => [a, b, a, g]; }` -/
def sampleInner : Ast :=
  made (.module none)
    [made (.varDecl .const false) [made (.declarator false) [madeBinding "a", madeNumber 1]],
     made (.funcDecl false) [madeIdent "f",
       .node (.function false false) ⟨14, 60⟩
         [.list [madeParam (madeBinding "b")], .list [],
          made .block [madeReturn
            (.node (.arrow false) ⟨36, 56⟩
              [.list [],
               made .array [madeIdent "a", madeIdent "b", madeIdent "a", madeIdent "g"],
               .absent, .absent])],
          .absent, .absent]]]

/-- The arrow of `sampleInner`. -/
def sampleArrow : Candidate :=
  { kind := .arrow, name := none, params := [], body := .absent, span := ⟨36, 56⟩
    isAsync := false, isGenerator := false }

/-- The function around the arrow of `sampleInner`. -/
def sampleOuter : Candidate :=
  { kind := .declaration, name := some "f", params := [], body := .absent, span := ⟨14, 60⟩
    isAsync := false, isGenerator := false }

theorem capture_escaping_sampleInner :
    let t := ScopeTable.ofModule sampleInner
    (∃ closure, capture t sampleArrow = .ok closure ∧
      closure.entries = [("a", ⟨0, .const⟩), ("b", ⟨1, .param⟩)] ∧
      closure.names.Pairwise (t.EscapesBefore 2)) ∧
    ∃ closure, capture t sampleOuter = .ok closure ∧ ("a", ⟨0, .const⟩) ∈ closure.entries := by
  intro t
  obtain ⟨hexact, hnested⟩ := capture_escaping sampleInner
  obtain ⟨p, closure, -, hc, -, -, -, hbefore⟩ := hexact sampleArrow 2 (by rfl)
  obtain rfl : captureFrom t 2 none = closure := Except.ok.inj hc
  refine ⟨⟨_, hc, by decide, hbefore⟩, _, rfl, ?_⟩
  exact hnested sampleArrow sampleOuter 2 1 _ _ (by rfl) (by rfl) (by decide) hc rfl
    ("a", ⟨0, .const⟩) (by decide) (by decide) (by decide)

end Worklet
