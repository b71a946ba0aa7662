import Worklet.Proofs.Convert.Caches

/-!
# Whose `super` it is

A function that mentions the `super` of its own object or class cannot be moved elsewhere. Functions,
accessors and the values of a class's members have a `super` of their own; the keys and decorators of
members, and what a class extends, have that of the code around.

Principal results: `ownSuper_iff` — `usesSuper` finds the `super` of what stands around a tree, if no
overlooked part hides it; `Becomes.keepsSuper` — converting brings no `super` to light;
`ownsSuper_iff_usesSuper` — what this means for candidates and for the functions in wrappers.
-/

set_option autoImplicit false

namespace Worklet

open Syntax

/-- Where a piece stands: among code, or as a member of a class. -/
inductive Standing where
  | code
  | member
  deriving DecidableEq, Repr

/-- The parts of a tree in which `super` is that of what stands around the tree. A function has its
own in its parameters and its body, a class in the values of its fields and in static blocks. -/
def superParts : Standing → Ast → List (Standing × Ast)
  | _, .absent => []
  | m, .list ts => ts.map (m, ·)
  | .member, .node (.constructor _ _) _ cs => (cs.take 1).map (.code, ·)
  | .member, .node (.classProp _) _ cs => (cs.eraseIdx 1).map (.code, ·)
  | .member, .node (.accessorProp _) _ cs => (cs.eraseIdx 1).map (.code, ·)
  | .member, .node .staticBlock _ _ => []
  | _, .node (.function _ _) _ cs => ((cs.drop 1).eraseIdx 1).map (.code, ·)
  | _, .node .getter _ cs => (cs.take 2).map (.code, ·)
  | _, .node .setter _ cs => (cs.take 1).map (.code, ·)
  | _, .node (.class_ _) _ (ds :: ms :: base :: rest) =>
    (.code, base) :: (.code, ds) :: (.member, ms) :: rest.map (.code, ·)
  | _, .node _ _ cs => cs.map (.code, ·)

/-- The parts in which `super` is that of what stands around, but in which it is not looked for: the
decorators and types of a function, the keys of accessors, and all of a class but what it extends. -/
def overlooked : Ast → List (Standing × Ast)
  | .node (.function _ _) _ cs => ((cs.drop 1).eraseIdx 1).map (.code, ·)
  | .node .getter _ cs => (cs.take 2).map (.code, ·)
  | .node .setter _ cs => (cs.take 1).map (.code, ·)
  | .node (.class_ _) _ (ds :: ms :: _ :: rest) =>
    (.code, ds) :: (.member, ms) :: rest.map (.code, ·)
  | _ => []

/-- The tree mentions the `super` of what stands around it. -/
inductive OwnSuper : Standing → Ast → Prop
  | word {m : Standing} {s : Span} {cs : List Ast} : OwnSuper m (.node .superWord s cs)
  | part {m : Standing} {t : Ast} {x : Standing × Ast} :
    x ∈ superParts m t → OwnSuper x.1 x.2 → OwnSuper m t

/-- The `super` of what stands around the tree is mentioned where it is not looked for. -/
inductive HidesSuper : Standing → Ast → Prop
  | here {m : Standing} {t : Ast} {x : Standing × Ast} :
    x ∈ overlooked t → OwnSuper x.1 x.2 → HidesSuper m t
  | part {m : Standing} {t : Ast} {x : Standing × Ast} :
    x ∈ superParts m t → HidesSuper x.1 x.2 → HidesSuper m t

/-- Somewhere in the tree a `super` is mentioned where that of the code around is not looked for. -/
inductive HidesInside : Ast → Prop
  | here {t : Ast} {x : Standing × Ast} : x ∈ overlooked t → OwnSuper x.1 x.2 → HidesInside t
  | item {ts : List Ast} {t : Ast} : t ∈ ts → HidesInside t → HidesInside (.list ts)
  | child {k : Kind} {s : Span} {cs : List Ast} {t : Ast} :
    t ∈ cs → HidesInside t → HidesInside (.node k s cs)

namespace Candidate

/-- The function mentions the `super` of its own object or class. -/
def OwnsSuper (c : Candidate) : Prop :=
  ∃ t ∈ c.params ++ [c.body], OwnSuper .code t

/-- The function mentions the `super` of its own object or class where it is not looked for. -/
def HidesSuper (c : Candidate) : Prop :=
  ∃ t ∈ c.params ++ [c.body], Worklet.HidesSuper .code t

end Candidate

/-! ### The search -/

/-- The parts of a tree in which `super` is looked for. -/
def searched : Ast → List Ast
  | .absent => []
  | .list ts => ts
  | .node (.function _ _) _ _ => []
  | .node .getter _ _ => []
  | .node .setter _ _ => []
  | .node (.class_ _) _ (_ :: _ :: base :: _) => [base]
  | .node _ _ cs => cs

variable {ts cs cs' : List Ast} {t : Ast} {m : Standing} {k : Kind} {c : Candidate}

theorem usesSuperAny_iff :
    usesSuperAny ts = true ↔ ∃ t ∈ ts, usesSuper t = true := by
  induction ts with
  | nil => simp [usesSuperAny]
  | cons t ts ih => simp [usesSuperAny, ih]

theorem usesSuper_iff_searched (t : Ast) :
    usesSuper t = true ↔
      (∃ s cs, t = .node .superWord s cs) ∨ ∃ u ∈ searched t, usesSuper u = true := by
  fun_cases usesSuper t <;> simp_all [searched, usesSuperAny_iff]

variable {x : Standing × Ast} {u body f : Ast} {s : Span} {kind : FunctionKind}
  {name : Option String} {marker : String} {p : Prepared}

/-- The `super` of what stands around a piece of code is looked for in a part, or overlooked. -/
theorem mem_superParts_code :
    x ∈ superParts .code t ↔ x ∈ overlooked t ∨ x.1 = .code ∧ x.2 ∈ searched t := by
  obtain ⟨m, u⟩ := x
  fun_cases searched t <;> simp_all [superParts, overlooked] <;> grind

theorem overlooked_subset (m : Standing) (t : Ast) : overlooked t ⊆ superParts m t := by
  fun_cases overlooked t <;> cases m <;> simp_all [superParts]

theorem HidesSuper.ownSuper (h : HidesSuper m t) : OwnSuper m t := by
  induction h with
  | here hx h => exact .part (overlooked_subset _ _ hx) h
  | part hx _ ih => exact .part hx ih

theorem sizeOf_lt_of_mem_searched (h : u ∈ searched t) : sizeOf u < sizeOf t := by
  unfold searched at h
  split at h
  case _ => cases h
  case _ ts => exact sizeOf_lt_of_mem_list h
  case _ => cases h
  case _ => cases h
  case _ => cases h
  case _ =>
    rw [List.mem_singleton.1 h]
    simp only [Ast.node.sizeOf_spec, List.cons.sizeOf_spec]
    omega
  case _ k s cs _ _ _ _ => exact sizeOf_lt_of_mem_node h

theorem ownSuper_of_usesSuper : ∀ t : Ast, usesSuper t = true → OwnSuper .code t := by
  intro t h
  rcases (usesSuper_iff_searched t).1 h with ⟨s, cs, rfl⟩ | ⟨u, hu, hs⟩
  · exact .word
  · have hpart : (.code, u) ∈ superParts .code t := mem_superParts_code.2 (.inr ⟨rfl, hu⟩)
    exact .part hpart (ownSuper_of_usesSuper u hs)
termination_by t => sizeOf t
decreasing_by exact sizeOf_lt_of_mem_searched hu

/-- **The search finds the `super` of what stands around a tree, if nothing hides it.** -/
theorem ownSuper_iff (t : Ast) :
    OwnSuper .code t ↔ usesSuper t = true ∨ HidesSuper .code t := by
  constructor
  · intro h
    generalize hm : Standing.code = m at h
    induction h with
    | word => exact .inl (by rw [usesSuper])
    | @part m t x hx h ih =>
      subst hm
      rcases mem_superParts_code.1 hx with ho | ⟨hcode, hu⟩
      · exact .inr (.here ho h)
      · rcases ih hcode.symm with hs | hs
        · exact .inl ((usesSuper_iff_searched t).2 (.inr ⟨x.2, hu, hs⟩))
        · exact .inr (.part hx (hcode ▸ hs))
  · rintro (h | h)
    · exact ownSuper_of_usesSuper t h
    · exact h.ownSuper

/-! ### Pieces without `super` -/

/-- The tree mentions no `super` of what stands around it and hides none. -/
def Silent (t : Ast) : Prop :=
  (∀ m, ¬OwnSuper m t) ∧ ¬HidesInside t

theorem not_ownSuper_of_parts (hw : t.kind? ≠ some .superWord)
    (h : ∀ x ∈ superParts m t, ¬OwnSuper x.1 x.2) : ¬OwnSuper m t := by
  intro ho
  cases ho with
  | word => exact hw rfl
  | part hx ho => exact h _ hx ho

/-- Kinds of nodes whose parts are all code of the same place. -/
def sharesSuper : Kind → Bool
  | .superWord | .function .. | .getter | .setter | .class_ _ | .constructor .. | .classProp _
  | .accessorProp _ | .staticBlock => false
  | _ => true

theorem superParts_shared (hk : sharesSuper k = true) (m : Standing) (s : Span) (cs : List Ast) :
    superParts m (.node k s cs) = cs.map (.code, ·) := by
  unfold superParts
  split <;> simp_all [sharesSuper]

theorem overlooked_shared (hk : sharesSuper k = true) (s : Span) (cs : List Ast) :
    overlooked (.node k s cs) = [] := by
  unfold overlooked
  split <;> simp_all [sharesSuper]

theorem ownSuper_shared (hk : sharesSuper k = true) :
    OwnSuper m (.node k s cs) ↔ ∃ t ∈ cs, OwnSuper .code t := by
  constructor
  · intro h
    generalize ht : Ast.node k s cs = t at h
    cases h with
    | word => cases ht; cases hk
    | part hx h =>
      subst ht
      rw [superParts_shared hk] at hx
      obtain ⟨t, ht, rfl⟩ := List.mem_map.1 hx
      exact ⟨t, ht, h⟩
  · rintro ⟨t, ht, h⟩
    refine .part (x := (.code, t)) ?_ h
    rw [superParts_shared hk]
    exact List.mem_map_of_mem ht

theorem hidesInside_shared (hk : sharesSuper k = true) :
    HidesInside (.node k s cs) ↔ ∃ t ∈ cs, HidesInside t := by
  constructor
  · intro h
    cases h with
    | here hx _ =>
      rw [overlooked_shared hk] at hx
      cases hx
    | child ht h => exact ⟨_, ht, h⟩
  · rintro ⟨t, ht, h⟩
    exact .child ht h

theorem silent_shared (hk : sharesSuper k = true) (h : ∀ t ∈ cs, Silent t) :
    Silent (.node k s cs) := by
  refine ⟨fun m ho => ?_, fun hi => ?_⟩
  · obtain ⟨t, ht, ho⟩ := (ownSuper_shared hk).1 ho
    exact (h t ht).1 _ ho
  · obtain ⟨t, ht, hi⟩ := (hidesInside_shared hk).1 hi
    exact (h t ht).2 hi

theorem silent_absent : Silent .absent :=
  ⟨fun m => not_ownSuper_of_parts (by simp [Ast.kind?]) (by simp [superParts]), fun h => by
    cases h with
    | here hx _ => cases hx⟩

theorem silent_leaf (hk : sharesSuper k = true) (s : Span) : Silent (.node k s []) :=
  silent_shared hk (by simp)

theorem silent_pair {a b : Ast} (hk : sharesSuper k = true) (s : Span) (ha : Silent a)
    (hb : Silent b) : Silent (.node k s [a, b]) :=
  silent_shared hk (by simp [ha, hb])

theorem silent_assignProperty (target prop : String) {value : Ast} (hv : Silent value) :
    Silent (assignProperty target prop value) := by
  have hmember : Silent (madeMember (madeIdent target) prop) :=
    silent_pair rfl _ (silent_leaf rfl _) (silent_leaf rfl _)
  have hassign : Silent (madeAssign (madeMember (madeIdent target) prop) value) :=
    silent_pair rfl _ hmember hv
  exact silent_shared rfl (by simpa using hassign)

theorem silent_metadataStmts (target : String) (m : Metadata) :
    ∀ t ∈ metadataStmts target m, Silent t := by
  simp only [metadataStmts, List.mem_cons, List.not_mem_nil, or_false]
  rintro t (rfl | rfl | rfl | rfl)
  · refine silent_assignProperty _ _ (silent_shared rfl fun u hu => ?_)
    obtain ⟨n, -, rfl⟩ := List.mem_map.1 hu
    exact silent_leaf rfl _
  all_goals exact silent_assignProperty _ _ (silent_leaf rfl _)

theorem silent_madeBinding (name : String) : Silent (madeBinding name) :=
  silent_pair rfl _ (silent_leaf rfl _) silent_absent

theorem silent_cacheDecl (name : String) : Silent (cacheDecl name) := by
  have hdecl : Silent (made (.declarator false) [madeBinding name, .absent]) :=
    silent_pair rfl _ (silent_madeBinding name) silent_absent
  exact silent_shared rfl (by simpa using hdecl)

theorem IsPut.silent (h : IsPut t) : Silent t := by
  rcases h with ⟨name, rfl⟩ | ⟨name, m, h⟩
  · exact silent_cacheDecl name
  · exact silent_metadataStmts name m t h

theorem sharesSuper_of_isStatementList (hk : isStatementList k = true ∨ k = .switchCase) :
    sharesSuper k = true := by
  rcases hk with hk | rfl
  · unfold isStatementList at hk
    split at hk <;> first | rfl | cases hk
  · rfl

/-! ### Trees that keep `super` -/

/-- The second tree brings to light no `super` that the first one does not mention or hide. -/
structure KeepsSuper (t t' : Ast) : Prop where
  own : ∀ m, OwnSuper m t' → OwnSuper m t
  hides : HidesInside t' → HidesInside t

/-- The parts stand alike and keep `super`. -/
def PartKeeps (x x' : Standing × Ast) : Prop :=
  x.1 = x'.1 ∧ KeepsSuper x.2 x'.2

namespace KeepsSuper

theorem refl (t : Ast) : KeepsSuper t t := ⟨fun _ h => h, fun h => h⟩

theorem trans {v : Ast} (h : KeepsSuper t u) (h' : KeepsSuper u v) : KeepsSuper t v :=
  ⟨fun m ho => h.own m (h'.own m ho), fun hi => h.hides (h'.hides hi)⟩

theorem forall₂_parts (m : Standing) (h : List.Forall₂ KeepsSuper cs cs') :
    List.Forall₂ PartKeeps (cs.map (m, ·)) (cs'.map (m, ·)) := by
  rw [List.forall₂_map_left_iff, List.forall₂_map_right_iff]
  exact h.imp fun _ _ h => ⟨rfl, h⟩

theorem forall₂_eraseIdx (h : List.Forall₂ KeepsSuper cs cs') (i : Nat) :
    List.Forall₂ KeepsSuper (cs.eraseIdx i) (cs'.eraseIdx i) := by
  rw [List.eraseIdx_eq_take_drop_succ, List.eraseIdx_eq_take_drop_succ]
  exact List.rel_append (List.forall₂_take i h) (List.forall₂_drop (i + 1) h)

theorem forall₂_superParts (m : Standing) (k : Kind) (s : Span) (h : List.Forall₂ KeepsSuper cs cs') :
    List.Forall₂ PartKeeps (superParts m (.node k s cs)) (superParts m (.node k s cs')) := by
  by_cases hk : sharesSuper k = true
  · rw [superParts_shared hk, superParts_shared hk]
    exact forall₂_parts _ h
  -- What is left are the kinds that have a `super` of their own.
  cases k <;> first | exact absurd rfl hk | skip
  case superWord => cases m <;> exact forall₂_parts _ h
  case function => cases m <;> exact forall₂_parts _ (forall₂_eraseIdx (List.forall₂_drop 1 h) 1)
  case getter => cases m <;> exact forall₂_parts _ (List.forall₂_take 2 h)
  case setter => cases m <;> exact forall₂_parts _ (List.forall₂_take 1 h)
  case constructor =>
    cases m
    · exact forall₂_parts _ h
    · exact forall₂_parts _ (List.forall₂_take 1 h)
  case classProp | accessorProp =>
    cases m
    · exact forall₂_parts _ h
    · exact forall₂_parts _ (forall₂_eraseIdx h 1)
  case staticBlock =>
    cases m
    · exact forall₂_parts _ h
    · exact .nil
  case class_ =>
    rcases h with _ | ⟨hds, _ | ⟨hms, _ | ⟨hbase, hrest⟩⟩⟩
    case cons.cons.cons =>
      cases m <;>
        exact .cons ⟨rfl, hbase⟩ (.cons ⟨rfl, hds⟩ (.cons ⟨rfl, hms⟩ (forall₂_parts _ hrest)))
    all_goals cases m <;> exact forall₂_parts _ (by repeat first | exact .nil | refine .cons ‹_› ?_)

theorem forall₂_overlooked (k : Kind) (s : Span) (h : List.Forall₂ KeepsSuper cs cs') :
    List.Forall₂ PartKeeps (overlooked (.node k s cs)) (overlooked (.node k s cs')) := by
  by_cases hk : sharesSuper k = true
  · rw [overlooked_shared hk, overlooked_shared hk]
    exact .nil
  cases k <;> first | exact absurd rfl hk | exact .nil | skip
  case function => exact forall₂_parts _ (forall₂_eraseIdx (List.forall₂_drop 1 h) 1)
  case getter => exact forall₂_parts _ (List.forall₂_take 2 h)
  case setter => exact forall₂_parts _ (List.forall₂_take 1 h)
  case class_ =>
    rcases h with _ | ⟨hds, _ | ⟨hms, _ | ⟨hbase, hrest⟩⟩⟩
    case cons.cons.cons => exact .cons ⟨rfl, hds⟩ (.cons ⟨rfl, hms⟩ (forall₂_parts _ hrest))
    all_goals exact .nil

theorem list {ts' : List Ast} (h : List.Forall₂ KeepsSuper ts ts') :
    KeepsSuper (.list ts) (.list ts') := by
  refine ⟨fun m ho => ?_, fun hi => ?_⟩
  · cases ho with
    | part hx ho =>
      obtain ⟨x, hx, hm, hkeep⟩ := exists_of_forall₂ (forall₂_parts m h) hx
      exact .part hx (hkeep.own _ (hm ▸ ho))
  · cases hi with
    | here hx _ => cases hx
    | item ht hi =>
      obtain ⟨t, ht, hkeep⟩ := exists_of_forall₂ h ht
      exact .item ht (hkeep.hides hi)

theorem node (k : Kind) (s : Span) (h : List.Forall₂ KeepsSuper cs cs') :
    KeepsSuper (.node k s cs) (.node k s cs') := by
  refine ⟨fun m ho => ?_, fun hi => ?_⟩
  · cases ho with
    | word => exact .word
    | part hx ho =>
      obtain ⟨x, hx, hm, hkeep⟩ := exists_of_forall₂ (forall₂_superParts m k s h) hx
      exact .part hx (hkeep.own _ (hm ▸ ho))
  · cases hi with
    | here hx ho =>
      obtain ⟨x, hx, hm, hkeep⟩ := exists_of_forall₂ (forall₂_overlooked k s h) hx
      exact .here hx (hkeep.own _ (hm ▸ ho))
    | child ht hi =>
      obtain ⟨t, ht, hkeep⟩ := exists_of_forall₂ h ht
      exact .child ht (hkeep.hides hi)

/-- A node whose parts were there before, or mention nothing that was not there. -/
theorem of_parts {k' : Kind} {s' : Span} (hw : k' ≠ .superWord)
    (hparts : ∀ m, ∀ x ∈ superParts m (.node k' s' cs'), x ∈ superParts m (.node k s cs) ∨ ¬OwnSuper x.1 x.2)
    (hover : overlooked (.node k' s' cs') ⊆ overlooked (.node k s cs))
    (hchildren : ∀ t ∈ cs', t ∈ cs ∨ (HidesInside t → HidesInside (.node k s cs))) :
    KeepsSuper (.node k s cs) (.node k' s' cs') := by
  refine ⟨fun m ho => ?_, fun hi => ?_⟩
  · cases ho with
    | word => exact absurd rfl hw
    | part hx ho =>
      rcases hparts m _ hx with hx | hx
      · exact .part hx ho
      · exact absurd ho hx
  · cases hi with
    | here hx ho => exact .here (hover hx) ho
    | child ht hi =>
      rcases hchildren _ ht with ht | h
      · exact .child ht hi
      · exact h hi

/-- Statements among which others are put. -/
theorem statements (hk : sharesSuper k = true) (s : Span) {ss ss' : List Ast}
    (h : Interspersed KeepsSuper ss ss') : KeepsSuper (.node k s ss) (.node k s ss') := by
  refine ⟨fun m ho => ?_, fun hi => ?_⟩
  · obtain ⟨t', ht', ho⟩ := (ownSuper_shared hk).1 ho
    rcases h.back t' ht' with hput | ⟨t, ht, hkeep⟩
    · exact absurd ho (hput.silent.1 _)
    · exact (ownSuper_shared hk).2 ⟨t, ht, hkeep.own _ ho⟩
  · obtain ⟨t', ht', hi⟩ := (hidesInside_shared hk).1 hi
    rcases h.back t' ht' with hput | ⟨t, ht, hkeep⟩
    · exact absurd hi hput.silent.2
    · exact (hidesInside_shared hk).2 ⟨t, ht, hkeep.hides hi⟩

end KeepsSuper

/-! ### Wrappers -/

theorem ownSuper_list :
    OwnSuper m (.list ts) ↔ ∃ t ∈ ts, OwnSuper m t := by
  constructor
  · intro h
    cases h with
    | part hx h =>
      obtain ⟨t, ht, rfl⟩ := List.mem_map.1 hx
      exact ⟨t, ht, h⟩
  · rintro ⟨t, ht, h⟩
    exact .part (x := (m, t)) (List.mem_map_of_mem ht) h

theorem hidesInside_list :
    HidesInside (.list ts) ↔ ∃ t ∈ ts, HidesInside t := by
  constructor
  · intro h
    cases h with
    | here hx _ => cases hx
    | item ht h => exact ⟨_, ht, h⟩
  · rintro ⟨t, ht, h⟩
    exact .item ht h

theorem not_ownSuper_madeFunction (a g : Bool) (ps : List Ast) (body : Ast) (m : Standing) :
    ¬OwnSuper m (madeFunction a g ps body) := by
  refine not_ownSuper_of_parts (by simp [madeFunction, made, Ast.kind?]) ?_
  have hparts : superParts m (madeFunction a g ps body) =
      [(.code, .list []), (.code, .absent), (.code, .absent)] := by cases m <;> rfl
  rw [hparts]
  simp [ownSuper_list, silent_absent.1]

theorem hidesInside_madeFunction {a g : Bool} {ps : List Ast}
    (h : HidesInside (madeFunction a g ps body)) : ∃ t ∈ ps ++ [body], HidesInside t := by
  cases h with
  | here hx ho =>
    exact absurd (OwnSuper.part (overlooked_subset .code _ hx) ho)
      (not_ownSuper_madeFunction a g ps body .code)
  | child ht h =>
    simp only [List.mem_cons, List.not_mem_nil, or_false] at ht
    rcases ht with rfl | rfl | rfl | rfl | rfl
    · obtain ⟨t, ht, h⟩ := hidesInside_list.1 h
      exact ⟨t, by simp [ht], h⟩
    · simp [hidesInside_list] at h
    · exact ⟨_, by simp, h⟩
    · exact absurd h silent_absent.2
    · exact absurd h silent_absent.2

theorem hidesInside_toFunction (h : HidesInside c.toFunction) :
    ∃ t ∈ c.params ++ [c.body], HidesInside t := by
  obtain ⟨t, ht, h⟩ := hidesInside_madeFunction h
  rcases List.mem_append.1 ht with ht | ht
  · obtain ⟨p, hp, rfl⟩ := List.mem_map.1 ht
    obtain ⟨u, hu, hin⟩ := (hidesInside_shared rfl).1 h
    simp only [List.mem_cons, List.not_mem_nil, or_false] at hu
    rcases hu with rfl | rfl
    · simp [hidesInside_list] at hin
    · exact ⟨_, List.mem_append_left _ hp, hin⟩
  · exact ⟨t, List.mem_append_right _ ht, h⟩

theorem not_ownSuper_wrap (f : Ast) (binding : String) (self : Option String) (md : Metadata)
    (m : Standing) : ¬OwnSuper m (wrap f binding self md) := by
  simp only [wrap, madeCall, madeParen, madeFunctionExpr, made, ownSuper_shared (k := .call) rfl,
    ownSuper_shared (k := .paren) rfl, ownSuper_shared (k := .funcExpr) rfl, List.mem_cons,
    List.not_mem_nil, or_false, exists_eq_or_imp, exists_eq_left, ownSuper_list, false_and,
    exists_false, silent_absent.1, not_ownSuper_madeFunction]
  simp

theorem hidesInside_wrap {binding : String} {self : Option String} {md : Metadata}
    (h : HidesInside (wrap f binding self md)) : HidesInside f := by
  simp only [wrap, madeCall, madeParen, madeFunctionExpr, made, hidesInside_shared (k := .call) rfl,
    hidesInside_shared (k := .paren) rfl, hidesInside_shared (k := .funcExpr) rfl, List.mem_cons,
    List.not_mem_nil, or_false, exists_eq_or_imp, exists_eq_left, hidesInside_list, false_and,
    exists_false, silent_absent.2, false_or] at h
  obtain ⟨block, hblock, h⟩ := hidesInside_madeFunction h
  cases List.mem_singleton.1 hblock
  obtain ⟨t, ht, h⟩ := (hidesInside_shared rfl).1 h
  simp only [List.cons_append, List.mem_cons, List.mem_append, List.not_mem_nil, or_false] at ht
  rcases ht with rfl | ht | rfl
  · simpa only [madeVar, made, hidesInside_shared (k := .varDecl .const false) rfl,
      hidesInside_shared (k := .declarator false) rfl, hidesInside_shared (k := .funcExpr) rfl,
      List.mem_cons, List.not_mem_nil, or_false, exists_eq_or_imp, exists_eq_left,
      (silent_madeBinding _).2, madeIdent, (silent_leaf (k := .ident _) rfl _).2, false_or] using h
  · exact absurd h (silent_metadataStmts _ _ _ ht).2
  · have hreturn : Silent (madeReturn (madeIdent binding)) :=
      silent_shared rfl (by simpa [madeIdent, made] using silent_leaf rfl _)
    exact absurd h hreturn.2

theorem hidesInside_delegate {w : Ast} {cache : Option String}
    (h : HidesInside (delegate w cache)) : HidesInside w := by
  cases cache <;>
  simpa only [delegate, madeBlock, madeReturn, madeCall, madeMember, madeParen, madeAssign, madeIdent,
    made, hidesInside_shared (k := .block) rfl, hidesInside_shared (k := .returnStmt) rfl,
    hidesInside_shared (k := .call) rfl, hidesInside_shared (k := .member) rfl,
    hidesInside_shared (k := .paren) rfl, hidesInside_shared (k := .assign .plain) rfl,
    hidesInside_shared (k := .binary .logicalOr) rfl, hidesInside_list, silent_absent.2,
    (silent_madeBinding _).2, (silent_leaf (k := .ident _) rfl _).2,
    (silent_leaf (k := .this) rfl _).2, (silent_leaf (k := .word _) rfl _).2, List.mem_cons,
    List.not_mem_nil, or_false, false_or, exists_eq_or_imp, exists_eq_left] using h

/-! ### Functions as they are emitted -/

/-- The patterns and the body of a function. -/
def emittedParts : Ast → List Ast
  | .node (.function _ _) _ (.list ps :: _ :: body :: _) => ps.map (·.child 1) ++ [body]
  | _ => []

theorem map_child_of_paramPatterns? : ∀ {ps qs : List Ast}, paramPatterns? ps = some qs →
    ps.map (·.child 1) = qs := by
  intro ps
  fun_induction paramPatterns? ps with
  | case1 => simp
  | case2 s d p ts ih =>
    intro qs h
    obtain ⟨rest, hrest, rfl⟩ := Option.map_eq_some_iff.1 h
    rw [List.map_cons, ih hrest]
    rfl
  | case3 => simp

theorem emittedParts_toFunction (c : Candidate) :
    emittedParts c.toFunction = c.params ++ [c.body] := by
  have hparams : c.paramList.map (·.child 1) = c.params := by
    rw [Candidate.paramList, List.map_map]
    exact List.map_id _
  rw [← hparams]
  rfl

theorem emittedParts_declaredWith (h : Candidate.ofFunction kind name f = some c) (body : Ast) :
    emittedParts (declaredWith body f) = c.params ++ [body] := by
  obtain ⟨_, _, _, _, _, _, _, _, rfl, -, hqs, rfl⟩ := Candidate.ofFunction_eq_some h
  simp [emittedParts, declaredWith, map_child_of_paramPatterns? hqs]

theorem hidesInside_child {i : Nat} (h : HidesInside (t.child i)) : HidesInside t := by
  rw [Ast.child, List.getD_eq_getElem?_getD] at h
  cases hc : t.children[i]? with
  | none =>
    rw [hc] at h
    exact absurd h silent_absent.2
  | some u =>
    have hmem := List.mem_of_getElem? hc
    rw [hc] at h
    cases t with
    | node k s cs => exact .child hmem h
    | absent => cases hmem
    | list ts => cases hmem

/-- What the function of a candidate hides is hidden in the tree. -/
def Candidate.HidesOnly (c : Candidate) (t : Ast) : Prop :=
  ∀ u ∈ c.params ++ [c.body], HidesInside u → HidesInside t

theorem hidesOnly_ofFunction (h : Candidate.ofFunction kind name f = some c) : c.HidesOnly f := by
  obtain ⟨a, g, s, ps, ds, body, rest, qs, rfl, -, hqs, rfl⟩ := Candidate.ofFunction_eq_some h
  intro u hu hi
  rcases List.mem_append.1 hu with hu | hu
  · rw [← map_child_of_paramPatterns? hqs] at hu
    obtain ⟨p, hp, rfl⟩ := List.mem_map.1 hu
    exact .child (t := .list ps) (by simp) (.item hp (hidesInside_child hi))
  · cases List.mem_singleton.1 hu
    exact .child (by simp) hi

theorem hidesInside_stripDirective (h : HidesInside (stripDirective marker body)) :
    HidesInside body := by
  unfold stripDirective at h
  split at h
  · split at h
    · obtain ⟨t, ht, h⟩ := (hidesInside_shared rfl).1 h
      exact .child (List.mem_cons_of_mem _ ht) h
    · exact h
  · exact h

theorem hidesInside_unparen : ∀ {t : Ast}, HidesInside t.unparen → HidesInside t := by
  intro t
  fun_induction Ast.unparen t with
  | case1 s e ih => exact fun h => .child List.mem_cons_self (ih h)
  | case2 => exact id

theorem hidesOnly_ofArrow (h : Candidate.ofArrow t = some c) :
    c.HidesOnly t := by
  obtain ⟨a, s, ps, body, rest, rfl, rfl⟩ := Candidate.ofArrow_eq_some h
  intro u hu hi
  rcases List.mem_append.1 hu with hu | hu
  · exact .child (t := .list ps) (by simp) (.item hu hi)
  · cases List.mem_singleton.1 hu
    refine .child (t := body) (by simp) ?_
    unfold Candidate.arrowBody at hi
    split at hi
    · exact hi
    · obtain ⟨ret, hret, hi⟩ := (hidesInside_shared rfl).1 hi
      cases List.mem_singleton.1 hret
      obtain ⟨e, he, hi⟩ := (hidesInside_shared rfl).1 hi
      cases List.mem_singleton.1 he
      exact hidesInside_unparen hi

theorem hidesOnly_ofGetter (h : Candidate.ofGetter t = some c) :
    c.HidesOnly t := by
  obtain ⟨_, _, _, _, rfl, -, rfl⟩ := Candidate.ofGetter_eq_some h
  intro u hu hi
  cases List.mem_singleton.1 hu
  exact .child (by simp) hi

theorem hidesOnly_ofSetter (h : Candidate.ofSetter t = some c) :
    c.HidesOnly t := by
  obtain ⟨_, _, _, _, _, rfl, -, rfl⟩ := Candidate.ofSetter_eq_some h
  intro u hu hi
  simp only [List.cons_append, List.nil_append, List.mem_cons, List.not_mem_nil, or_false] at hu
  rcases hu with rfl | rfl
  · exact .child (by simp) hi
  · exact .child (by simp) hi

section Forms

variable {job : Job} {w : Slot} {f : Form}

theorem Candidate.HidesOnly.parent (h : c.HidesOnly t) (ht : t ∈ cs) :
    c.HidesOnly (.node k s cs) :=
  fun u hu hi => .child ht (h u hu hi)

theorem Candidate.HidesOnly.unmarked (h : c.HidesOnly t) (marker : String) :
    (c.unmarked marker).HidesOnly t := by
  intro u hu hi
  rcases List.mem_append.1 hu with hu | hu
  · exact h u (List.mem_append_left _ hu) hi
  · cases List.mem_singleton.1 hu
    exact h c.body (by simp) (hidesInside_stripDirective hi)

theorem Candidate.HidesOnly.wrapper (h : p.candidate.HidesOnly t) (hi : HidesInside p.wrapper) :
    HidesInside t := by
  obtain ⟨u, hu, hi⟩ := hidesInside_toFunction (hidesInside_wrap hi)
  exact h u hu hi

theorem Candidate.HidesOnly.of_prepare (hp : job.prepare c = .ok p) (h : c.HidesOnly t) :
    p.candidate.HidesOnly t := by
  rw [(Job.prepare_eq_ok hp).1]
  exact h.unmarked _

theorem FormOf.hidesOnly (hf : FormOf w t f) (hp : f.subject.prepare job = .ok p) :
    p.candidate.HidesOnly t := by
  cases hf with
  | expression _ hc | declaration _ hc | method hc | classMethod _ _ hc | classAccessor _ _ hc =>
    exact Candidate.HidesOnly.of_prepare hp ((hidesOnly_ofFunction hc).parent (by simp))
  | arrow hc => exact Candidate.HidesOnly.of_prepare hp (hidesOnly_ofArrow hc)
  | getter hc => exact Candidate.HidesOnly.of_prepare hp (hidesOnly_ofGetter hc)
  | setter hc => exact Candidate.HidesOnly.of_prepare hp (hidesOnly_ofSetter hc)
  | privateMethod | constructor => cases hp
  | @namedDefault s fs name g n c _ hc | @namelessDefault s fs name g c _ hc =>
    have hin : c.HidesOnly (.node .funcExpr fs [name, g]) :=
      (hidesOnly_ofFunction hc).parent (by simp)
    exact Candidate.HidesOnly.of_prepare hp (hin.parent (by simp))

/-- The function of a form has the patterns and the body of its candidate. -/
theorem FormOf.emittedParts (hf : FormOf w t f) (hp : f.subject.prepare job = .ok p) :
    emittedParts (f.callable p) = p.candidate.params ++ [p.candidate.body] := by
  cases hf with
  | @declaration _ _ _ _ _ _ c _ hc | @namedDefault _ _ _ _ _ c _ hc =>
    have hparams : p.candidate.params = c.params := by rw [(Job.prepare_eq_ok hp).1]; rfl
    rw [hparams]
    exact emittedParts_declaredWith hc _
  | privateMethod _ => cases hp
  | constructor => cases hp
  | _ => exact emittedParts_toFunction _

/-- A function with another body keeps `super`, if the body hides only what the function hid. -/
theorem keepsSuper_withBody (h : HidesInside body → HidesInside t) :
    KeepsSuper t (withBody body t) := by
  fun_cases withBody body t with
  | case2 => exact .refl _
  | case1 a g s ps ds b rest =>
    refine .of_parts (by simp) ?_ (List.Subset.refl _) ?_
    · intro m x hx
      exact .inl (by cases m <;> exact hx)
    · simp only [List.mem_cons]
      rintro u (rfl | rfl | rfl | hu)
      · exact .inl (.inl rfl)
      · exact .inl (.inr (.inl rfl))
      · exact .inr h
      · exact .inl (.inr (.inr (.inr hu)))

/-- **What takes the place of a function keeps `super`.** -/
theorem FormOf.keepsSuper (hf : FormOf w t f) (hp : f.subject.prepare job = .ok p)
    (cache : Option String) : KeepsSuper t (f.turned p cache) := by
  have hwrapper : HidesInside p.wrapper → HidesInside t := (hf.hidesOnly hp).wrapper
  have hdelegate : HidesInside (delegate p.wrapper cache) → HidesInside t :=
    fun h => hwrapper (hidesInside_delegate h)
  have hown : ∀ m, ¬OwnSuper m p.wrapper := not_ownSuper_wrap _ _ _ _
  cases hf with
  | expression _ _ | arrow _ => exact ⟨fun m ho => absurd ho (hown m), hwrapper⟩
  | declaration _ hc =>
    have hin := Candidate.HidesOnly.of_prepare hp (hidesOnly_ofFunction hc)
    exact .node _ _ (.cons (.refl _) (.cons (keepsSuper_withBody (hin _ (by simp))) .nil))
  | method _ | namelessDefault _ _ =>
    refine .of_parts (by simp) ?_ (List.Subset.refl _) ?_
    · rintro (_ | _) <;> simp [superParts, hown]
    · simpa using Or.inr hwrapper
  | getter _ | setter _ =>
    refine .of_parts (by simp) ?_ (List.Subset.refl _) ?_
    · rintro (_ | _) <;> simp [superParts]
    · simpa using Or.inr hdelegate
  | privateMethod _ => cases hp
  | classMethod _ _ _ =>
    refine .of_parts (by simp) ?_ (List.Subset.refl _) ?_
    · rintro (_ | _) <;> simp [superParts, hown, silent_absent.1, ownSuper_list]
    · simpa [silent_absent.2, hidesInside_list] using Or.inr hwrapper
  | classAccessor _ _ hc =>
    have hin := Candidate.HidesOnly.of_prepare hp (hidesOnly_ofFunction hc)
    exact .node _ _ (.cons (.refl _) (.cons
      (keepsSuper_withBody fun h => hin.wrapper (hidesInside_delegate h)) .nil))
  | constructor => cases hp
  | namedDefault _ hc =>
    have hin := Candidate.HidesOnly.of_prepare hp (hidesOnly_ofFunction hc)
    exact .node _ _ (.cons (.node _ _ (.cons (.refl _) (.cons
      (keepsSuper_withBody (hin _ (by simp))) .nil))) .nil)

end Forms

/-! ### Converted trees -/

theorem mem_of_mem_superParts (h : x ∈ superParts m t) :
    x.2 ∈ t.children ∨ x.2 ∈ t.items := by
  obtain ⟨n, u⟩ := x
  fun_cases superParts m t <;> simp_all [superParts, Ast.children, Ast.items]
  all_goals
    grind [List.mem_of_mem_eraseIdx, List.mem_of_mem_tail, List.mem_of_mem_take]

theorem HidesInside.parent (hu : u ∈ t.children ∨ u ∈ t.items) (h : HidesInside u) :
    HidesInside t := by
  cases t with
  | absent => simp [Ast.children, Ast.items] at hu
  | list ts => exact .item (by simpa [Ast.children, Ast.items] using hu) h
  | node k s cs => exact .child (by simpa [Ast.children, Ast.items] using hu) h

theorem HidesSuper.hidesInside (h : HidesSuper m t) : HidesInside t := by
  induction h with
  | here hx ho => exact .here hx ho
  | part hx _ ih => exact ih.parent (mem_of_mem_superParts hx)

theorem usesSuper_stripDirective (h : usesSuper (stripDirective marker body) = true) :
    usesSuper body = true := by
  unfold stripDirective at h
  split at h
  · split at h
    · simp only [usesSuper, usesSuperAny] at h ⊢
      simp [h]
    · exact h
  · exact h

/-- In a function that can be prepared no `super` is found. -/
theorem Subject.usesSuper_of_prepare {job : Job} : ∀ {x : Subject},
    x.prepare job = .ok p → ∀ u ∈ p.candidate.params ++ [p.candidate.body], usesSuper u = false
  | .unsupported .., h => nomatch h
  | .candidate c, h => by
    have hc : c.usesSuper = false := by
      change job.prepare c = .ok p at h
      unfold Job.prepare at h
      split at h
      · cases h
      split at h
      · cases h
      · rename_i hs
        simpa using hs
    simp only [Candidate.usesSuper, Bool.or_eq_false_iff] at hc
    rw [(Job.prepare_eq_ok h).1]
    intro u hu
    rw [Bool.eq_false_iff]
    intro hs
    rcases List.mem_append.1 hu with hu | hu
    · have hany : usesSuperAny c.params = true := usesSuperAny_iff.2 ⟨u, hu, hs⟩
      exact absurd (hc.1.symm.trans hany) (by simp)
    · cases List.mem_singleton.1 hu
      exact absurd (hc.2.symm.trans (usesSuper_stripDirective hs)) (by simp)

/-- A `super` of its own that the function of a conversion mentions was hidden, and hidden in the
tree. -/
def Entry.Bound (t : Ast) : Entry → Prop
  | .converted e =>
    ∀ u ∈ emittedParts e.callable, OwnSuper .code u → HidesSuper .code u ∧ HidesInside t
  | .refused _ => True

theorem Entry.Bound.mono (h : HidesInside t → HidesInside u) :
    ∀ {e : Entry}, e.Bound t → e.Bound u
  | .converted _, hb => fun v hv ho => ⟨(hb v hv ho).1, h (hb v hv ho).2⟩
  | .refused _, _ => trivial

section Converted

variable {job : Job} {w : Slot} {t' : Ast} {tr own : Trace} {cache : Option String}

theorem FormOf.bound {f : Form} (hf : FormOf w t f) (hp : f.subject.prepare job = .ok p)
    (reason : Reason) :
    Entry.Bound t (.converted ⟨p, reason, f.callable p⟩) := by
  intro u hu ho
  rw [hf.emittedParts hp] at hu
  rcases (ownSuper_iff u).1 ho with hs | hs
  · rw [Subject.usesSuper_of_prepare hp u hu] at hs
    cases hs
  · exact ⟨hs, hf.hidesOnly hp u hu hs.hidesInside⟩

theorem treat_bound (h : treat job w t cache = (t', own)) : ∀ e ∈ own.entries, e.Bound t := by
  unfold treat at h
  cases hf : form? w t with
  | none =>
    rw [hf] at h
    cases h
    simp [Trace.entries]
  | some f =>
    simp only [hf] at h
    have hform := FormOf.of_form? hf
    rcases Form.treat_cases h with
      ⟨_, _, -, rfl⟩ | ⟨p, hp, ⟨_, _, -, rfl⟩ | ⟨_, -, rfl⟩ | ⟨reason, _, _, -, rfl⟩⟩
    · simp only [Trace.entries, List.mem_append]
      rintro e (he | he) <;> split at he <;> simp at he <;> subst he <;> trivial
    · simp [Trace.entries]
    · simpa [Trace.entries] using hform.bound hp _
    · simpa [Trace.entries] using hform.bound hp _

theorem compatible_keepsSuper (job : Job) : Compatible job KeepsSuper where
  refl := .refl
  trans := .trans
  list := .list
  node k s _ _ := .node k s
  statements s _ _ hk := .statements (sharesSuper_of_isStatementList hk) s
  turned := FormOf.keepsSuper

/-- **Converting brings no `super` to light.** -/
theorem Becomes.keepsSuper (h : Becomes job w t t' tr) : KeepsSuper t t' :=
  h.related (compatible_keepsSuper job)

theorem BecomesAll.keepsSuper {ws : Nat → Slot} {cs cs' : List Ast} (h : BecomesAll job ws cs cs' tr) :
    List.Forall₂ KeepsSuper cs cs' :=
  h.forall₂.imp fun _ _ ⟨_, _, h⟩ => h.keepsSuper

theorem Becomes.bound (h : Becomes job w t t' tr) : ∀ e ∈ tr.entries, e.Bound t := by
  refine Becomes.induct
    (P := fun _ t _ tr => ∀ e ∈ tr.entries, e.Bound t)
    (Q := fun _ ts _ tr => ∀ e ∈ tr.entries, ∃ t ∈ ts, e.Bound t)
    (R := fun ss _ entries => ∀ e ∈ entries, ∃ t ∈ ss, e.Bound t)
    ?absent ?list ?node ?statements ?switchCase ?nil ?cons ?none ?statement h
  case list =>
    intro w ts ts' tr ih e he
    obtain ⟨t, ht, hb⟩ := ih e he
    exact hb.mono (.item ht)
  case node =>
    intro w k s cs cs' t' tr own cache _ hcs htreat ih e he
    rcases Trace.mem_entries_append.1 he with he | he
    · obtain ⟨t, ht, hb⟩ := ih e (by simpa using he)
      exact hb.mono (.child ht)
    · exact (treat_bound htreat e he).mono (KeepsSuper.node k s hcs.keepsSuper).hides
  case statements =>
    intro w k s ss ss' entries _ _ ih e he
    obtain ⟨t, ht, hb⟩ := ih e (by simpa [Trace.entries] using he)
    exact hb.mono (.child ht)
  case switchCase =>
    intro w s test test' ss ss' tr entries _ _ ih ihs e he
    rcases Trace.mem_entries_append.1 he with he | he
    · exact (ih e he).mono (.child List.mem_cons_self)
    · obtain ⟨t, ht, hb⟩ := ihs e (by simpa [Trace.entries] using he)
      exact hb.mono (.child (List.mem_cons_of_mem _ ht))
  case cons | statement =>
    intros
    rename_i ih ihs e he
    simp only [Trace.mem_entries_append, List.mem_append] at he
    rcases he with he | he
    · exact ⟨_, List.mem_cons_self, ih e he⟩
    · obtain ⟨u, hu, hb⟩ := ihs e he
      exact ⟨u, List.mem_cons_of_mem _ hu, hb⟩
  all_goals simp [Trace.entries]

end Converted

/-! ### Candidates and wrappers -/

namespace Candidate

theorem usesSuper_eq_true_iff :
    c.usesSuper = true ↔ ∃ t ∈ c.params ++ [c.body], Worklet.usesSuper t = true := by
  simp [usesSuper, usesSuperAny_iff, or_and_right, exists_or]

end Candidate

/-- **`super` is looked for exactly where it is the function's own, but for what is overlooked.** A
candidate has a `super` of its own if and only if one is found in it or it hides one in the decorators
or types of a function, in the key of an accessor, or in a class outside of what it extends. Of the
functions that a run emits, only those have one that hide it, and then it stands in such a part of the
module. -/
theorem ownsSuper_iff_usesSuper (c : Candidate) (config : Config) (p : Program) :
    (c.OwnsSuper ↔ c.usesSuper = true ∨ c.HidesSuper) ∧
      (isModule p.module = true →
        ∀ e ∈ (transform config p).conversions, ∀ u ∈ emittedParts e.callable,
          OwnSuper .code u → HidesSuper .code u ∧ HidesInside p.module) := by
  refine ⟨?_, fun hroot e he => ?_⟩
  · simp only [Candidate.OwnsSuper, Candidate.HidesSuper, Candidate.usesSuper_eq_true_iff,
      ownSuper_iff, and_or_left, exists_or]
  · obtain ⟨module, entries, hb, -, hconversions, -⟩ := transform_becomes config hroot
    rw [hconversions, mem_convertedIn] at he
    exact hb.bound _ (by simpa [Trace.entries] using he)

/-- `{ return { get [super.k]() { return 1; } }; }` -/
def superKeyBody : Ast :=
  made .block
    [madeReturn
      (made .object
        [made .getter
          [made .computed [made .superMember [made .superWord [], made (.word "k") []]], .absent,
           made .block [madeReturn (madeNumber 1)]]])]

/-- `const o = { m() { return () => { "worklet"; return { get [super.k]() { return 1; } }; }; } };` -/
def sampleSuperKey : Program where
  filename := "/app/a.js"
  text := []
  module :=
    made (.module none)
      [madeVar .const "o"
        (made .object
          [made .method
            [made (.word "m") [],
             madeFunction false false []
              (made .block
                [madeReturn
                  (.node (.arrow false) ⟨25, 86⟩
                    [.list [],
                     made .block (madeStatement (madeString "worklet") :: superKeyBody.children),
                     .absent, .absent])])]])]
  comments := default

/-- In the key of a getter the `super` of the function is overlooked, and the function is emitted with
it. -/
theorem ownsSuper_sampleSuperKey :
    isModule sampleSuperKey.module = true ∧
      (∃ e ∈ (transform .standard sampleSuperKey).conversions,
        emittedParts e.callable = [superKeyBody]) ∧
      usesSuper superKeyBody = false ∧ OwnSuper .code superKeyBody ∧
      HidesSuper .code superKeyBody ∧ HidesInside sampleSuperKey.module := by
  have hkey : OwnSuper .code
      (made .computed [made .superMember [made .superWord [], made (.word "k") []]]) :=
    (ownSuper_shared rfl).2 ⟨_, List.mem_cons_self,
      (ownSuper_shared rfl).2 ⟨_, List.mem_cons_self, .word⟩⟩
  have howns : OwnSuper .code superKeyBody :=
    (ownSuper_shared rfl).2 ⟨_, List.mem_cons_self, (ownSuper_shared rfl).2 ⟨_, List.mem_cons_self,
      (ownSuper_shared rfl).2 ⟨_, List.mem_cons_self, .part (x := (.code, _)) (.head _) hkey⟩⟩⟩
  have hhead : (transform .standard sampleSuperKey).conversions.head?.map
      (fun e => emittedParts e.callable) = some [superKeyBody] := rfl
  obtain ⟨e, he, hparts⟩ := Option.map_eq_some_iff.1 hhead
  have hmem := List.mem_of_head? he
  exact ⟨rfl, ⟨e, hmem, hparts⟩, by decide +kernel, howns,
    (ownsSuper_iff_usesSuper e.prepared.candidate .standard sampleSuperKey).2 rfl e hmem superKeyBody
      (by simp [hparts]) howns⟩

end Worklet
