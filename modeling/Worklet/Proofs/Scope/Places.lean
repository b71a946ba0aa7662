import Worklet.Proofs.Scope.Plain
import Worklet.Proofs.Syntax.Marks

/-!
# Where names are mentioned

The rules come to the names that a tree mentions one after the other, and each name stands somewhere
in the text. The order is that of the text but for some nodes, which the rules visit in the order in
which the tree holds their parts: the members of a class come before the class that it extends, the
test of a loop before a body that stands before it, and the key, value and annotation of a member
before its decorators.

Principal results: `Scoping.map_name_mentionsAll` — these are the references of the outline;
`Scoping.mem_identsIn_of_placed` — each is an identifier that stands there;
`Scoping.items_sublist` and `Scoping.twist_sublist` — how the parts of a node stand in the text.
-/

set_option autoImplicit false

namespace Worklet

open Syntax Outline

/-- Where the first name of a tag stands. -/
def tagPlace : Ast → Nat
  | .node (.ident _) s _ => s.lo
  | .node .jsxMember _ (obj :: _) => tagPlace obj
  | _ => 0

/-- Where the name stands that a node mentions itself. -/
def mentionPlace : Ast → Nat
  | .node (.ident _) s _ => s.lo
  | .node (.jsxOpening _) _ (name :: _) => tagPlace name
  | .node .jsxClosing _ (name :: _) => tagPlace name
  | _ => 0

/-- All items of a rule, in the order in which they are visited. -/
def Rule.items (r : Rule) : List Item :=
  r.here ++ r.inside

variable {t : Ast} {x : String × Nat} {m : Role}

namespace Scoping

variable (R : Scoping)

/-- The names that a tree mentions, with the places where they stand, in the order of the rules. -/
def placed (m : Role) (t : Ast) : List (String × Nat) :=
  (R.rule m t).items.attach.flatMap fun
    | ⟨.mention n, _⟩ => [(n, mentionPlace t)]
    | ⟨.declare _ _, _⟩ => []
    | ⟨.part m' u, _⟩ => placed m' u
termination_by sizeOf t
decreasing_by exact R.smaller m t m' u ‹_›

/-- The names that an item of a node mentions. -/
def placedBy (t : Ast) : Item → List (String × Nat)
  | .mention n => [(n, mentionPlace t)]
  | .declare _ _ => []
  | .part m u => R.placed m u

theorem placed_rule (m : Role) (t : Ast) :
    R.placed m t = (R.rule m t).items.flatMap (R.placedBy t) := by
  rw [placed]
  apply attach_flatMap
  rintro ⟨n | ⟨n, b⟩ | ⟨m', u⟩, _⟩ <;> rfl

/-! ### The names of the references -/

theorem map_name_mentionsAll_append (os os' : List Outline) (id next : Nat) :
    (mentionsAll id next (os ++ os')).map (·.name) =
      (mentionsAll id next os).map (·.name) ++
        (mentionsAll id (next + scopeCountAll os) os').map (·.name) := by
  induction os generalizing next with
  | nil => rfl
  | cons o os ih =>
    simp only [List.cons_append, mentionsAll, List.map_append, ih, scopeCountAll, Nat.add_assoc,
      List.append_assoc]

theorem map_name_items {items : List Item}
    (h : ∀ m u, .part m u ∈ items → ∀ id next,
      (mentionsAll id next (R.facts m u)).map (·.name) = (R.placed m u).map (·.1))
    (id next : Nat) :
    (mentionsAll id next (items.flatMap R.factsBy)).map (·.name) =
      (items.flatMap (R.placedBy t)).map (·.1) := by
  induction items generalizing next with
  | nil => rfl
  | cons i is ih =>
    have hi : ∀ next, (mentionsAll id next (R.factsBy i)).map (·.name) =
        (R.placedBy t i).map (·.1) := fun next => by
      cases i with
      | mention n => rfl
      | declare n b => rfl
      | part m u => exact h m u List.mem_cons_self id next
    rw [List.flatMap_cons, map_name_mentionsAll_append, hi, ih, List.flatMap_cons, List.map_append]
    exact fun m u hu => h m u (List.mem_cons_of_mem _ hu)

/-- **The references of an outline** have the names that the tree mentions, in the same order. -/
theorem map_name_mentionsAll (m : Role) (t : Ast) (id next : Nat) :
    (mentionsAll id next (R.facts m t)).map (·.name) = (R.placed m t).map (·.1) := by
  refine R.rule_induction (P := fun m t => ∀ id next,
    (mentionsAll id next (R.facts m t)).map (·.name) = (R.placed m t).map (·.1))
    (fun m t ih => ?_) m t id next
  intro id next
  rw [facts_rule, placed_rule, map_name_mentionsAll_append, Rule.items, List.flatMap_append,
    List.map_append]
  congr 1
  · exact R.map_name_items (fun m u h => ih m u (List.mem_append_left _ h)) id next
  · have hinside := R.map_name_items (t := t) fun m u h => ih m u (List.mem_append_right _ h)
    unfold Rule.inside at hinside ⊢
    cases hi : (R.rule m t).inner with
    | none => rfl
    | some o =>
      simp only [hi, Option.map_some, Option.getD_some, Option.toList_some, mentionsAll, mentions,
        List.append_nil] at hinside ⊢
      exact hinside _ _

end Scoping

/-! ### Mentions are identifiers -/

mutual

/-- The identifiers of a tree with the places where they stand. -/
def identsIn : Ast → List (String × Nat)
  | .absent => []
  | .list ts => identsInAll ts
  | .node (.ident n) s _ => [(n, s.lo)]
  | .node _ _ cs => identsInAll cs

def identsInAll : List Ast → List (String × Nat)
  | [] => []
  | t :: ts => identsIn t ++ identsInAll ts

end

theorem mem_identsInAll {ts : List Ast} :
    x ∈ identsInAll ts ↔ ∃ t ∈ ts, x ∈ identsIn t :=
  Joins.mem ⟨rfl, fun _ _ => rfl⟩

variable {n : String} {u name : Ast} {naming : Naming} {k : Kind} {s : Span} {cs : List Ast}

namespace Scoping

open Item Rule

theorem mem_identsIn_ofTagObject (h : .mention n ∈ ofTagObject t) :
    (n, tagPlace t) ∈ identsIn t := by
  fun_induction ofTagObject t with
  | case1 n' s cs => simpa [tagPlace, identsIn] using h
  | case2 s obj cs ih => simp [tagPlace, identsIn, identsInAll, ih h]
  | case3 => cases h

theorem mem_identsIn_ofTag (h : .mention n ∈ ofTag t) :
    (n, tagPlace t) ∈ identsIn t := by
  apply mem_identsIn_ofTagObject
  revert h
  fun_cases ofTag t <;> simp_all [ofTagObject]

theorem mem_identsIn_ofCtorParam (h : .part m u ∈ ofCtorParam t) (hx : x ∈ identsIn u) :
    x ∈ identsIn t := by
  revert h
  fun_cases ofCtorParam t
  all_goals simp
  all_goals grind [identsIn, identsInAll]

theorem mem_identsIn_ofDeclarator {kind : BindingKind} (h : .part m u ∈ ofDeclarator kind t)
    (hx : x ∈ identsIn u) :
    x ∈ identsIn t := by
  revert h
  fun_cases ofDeclarator kind t
  all_goals simp
  all_goals grind [identsIn, identsInAll]

theorem mem_identsIn_plainRule (h : .part m u ∈ (plainRule naming t).items) (hx : x ∈ identsIn u) :
    x ∈ identsIn t := by
  revert h
  fun_cases plainRule naming t
  all_goals simp [flat, block, function, Rule.items, Rule.inside]
  all_goals grind [mem_identsInAll, identsIn, identsInAll, → part_eq_ofBody,
    → mem_identsIn_ofCtorParam, → mem_identsIn_ofDeclarator]

theorem mem_identsIn_mention (h : .mention n ∈ (plainRule naming t).items) :
    (n, mentionPlace t) ∈ identsIn t := by
  have hparts : ∀ (m : Role) (ts : List Ast), .mention n ∉ parts m ts := by simp [parts]
  have hdeclare : ∀ kind names, .mention n ∉ declareEach kind names := by simp [declareEach]
  have hbody : ∀ b, .mention n ≠ ofBody b := by
    intro b
    fun_cases ofBody b <;> simp
  have hctor : ∀ p, .mention n ∉ ofCtorParam p := by
    intro p
    fun_cases ofCtorParam p <;> simp [bound, hdeclare]
  have hvar : ∀ kind d, .mention n ∉ ofDeclarator kind d := by
    intro kind d
    fun_cases ofDeclarator kind d <;> simp [bound, hdeclare]
  have himport : ∀ d, .mention n ∉ ofImport d := by
    intro d
    fun_cases ofImport d <;> simp [declareIdent, hdeclare]
  revert h
  fun_cases plainRule naming t
  all_goals simp [flat, block, function, Rule.items, Rule.inside, bound, declareIdent, hparts,
    hdeclare, hbody, hctor, hvar, himport]
  case case3 => rintro rfl; simp [mentionPlace, identsIn]
  case case35 => exact fun h => by simp [mentionPlace, identsIn, identsInAll, mem_identsIn_ofTag h]
  case case36 => exact fun h => by simp [mentionPlace, identsIn, identsInAll, mem_identsIn_ofTag h]

/-! ### Marks of items -/

/-- Where the words of an item of a node stand. -/
def itemMarks (t : Ast) : Item → List Nat
  | .mention _ => [mentionPlace t]
  | .declare _ _ => []
  | .part _ u => marks u

section

variable (t : Ast)

@[simp] theorem itemMarks_parts (m : Role) (ts : List Ast) :
    (parts m ts).flatMap (itemMarks t) = marksAll ts := by
  simp [parts, List.flatMap_map, marksAll_eq_flatMap, itemMarks]

@[simp] theorem itemMarks_declareEach (kind : BindingKind) (names : List String) :
    (declareEach kind names).flatMap (itemMarks t) = [] := by
  simp [declareEach, List.flatMap_map, itemMarks]

@[simp] theorem itemMarks_declareIdent (kind : BindingKind) (name : Ast) :
    (declareIdent kind name).flatMap (itemMarks t) = [] :=
  itemMarks_declareEach t kind _

@[simp] theorem itemMarks_bound (kind : BindingKind) (p : Ast) :
    (bound kind p).flatMap (itemMarks t) = marks p := by
  simp [bound, itemMarks]

@[simp] theorem itemMarks_ofBody (b : Ast) : itemMarks t (ofBody b) = marks b := by
  fun_cases ofBody b <;> rfl

@[simp] theorem itemMarks_part (m : Role) (u : Ast) : itemMarks t (.part m u) = marks u := rfl

theorem itemMarks_ofCtorParam (p : Ast) :
    ((ofCtorParam p).flatMap (itemMarks t)).Sublist (marks p) := by
  fun_cases ofCtorParam p <;> simp [marks_node, keepsOrder, isTypeKind]

theorem itemMarks_ofDeclarator (kind : BindingKind) (d : Ast) :
    ((ofDeclarator kind d).flatMap (itemMarks t)).Sublist (marks d) := by
  fun_cases ofDeclarator kind d <;> simp [marks_node, keepsOrder, isTypeKind]

theorem itemMarks_ofImport (d : Ast) : (ofImport d).flatMap (itemMarks t) = [] := by
  fun_cases ofImport d <;> simp

end

/-- The parts of a node that are visited in this order and stand in the other. -/
def twists : Ast → List (Ast × Ast)
  | .node (.class_ _) _ (_ :: ms :: base :: _) => [(ms, base)]
  | .node .doWhileStmt _ [test, body] => [(test, body)]
  | .node (.classMethod ..) _ [key, .node (.function ..) _ (_ :: ds :: _ :: _)] => [(key, ds)]
  | .node (.classProp _) _ [key, value, ann, ds] => [(key, ds), (value, ds), (ann, ds)]
  | .node (.accessorProp _) _ [key, value, ann, ds] => [(key, ds), (value, ds), (ann, ds)]
  | _ => []

theorem flatMap_sublist_marksAll {f : Ast → List Item}
    (h : ∀ u, ((f u).flatMap (itemMarks t)).Sublist (marks u)) (ts : List Ast) :
    ((ts.flatMap f).flatMap (itemMarks t)).Sublist (marksAll ts) := by
  induction ts with
  | nil => exact .slnil
  | cons u us ih =>
    rw [List.flatMap_cons, List.flatMap_append, marksAll_cons]
    exact (h u).append ih

theorem itemMarks_ofTagObject (ht : mentionPlace t = tagPlace name) :
    ((ofTagObject name).flatMap (itemMarks t)).Sublist (marks name) := by
  fun_induction ofTagObject name with
  | case1 n s cs => simp [itemMarks, ht, tagPlace]
  | case2 s obj cs ih =>
    refine (ih ht).trans ?_
    simp [marks_node, keepsOrder, isTypeKind]
  | case3 => simp

theorem itemMarks_ofTag (ht : mentionPlace t = tagPlace name) :
    ((ofTag name).flatMap (itemMarks t)).Sublist (marks name) := by
  have h := itemMarks_ofTagObject ht
  revert h
  fun_cases ofTag name <;> simp_all [ofTagObject]

/-- A node without a rule of its own that is visited in the order of the text. -/
theorem marksAll_sublist_marks (htwist : twists (.node k s cs) = []) (htype : ¬isTypeKind k = true)
    (hident : ∀ n, k = .ident n → False)
    (hfunction : ∀ isAsync isGenerator ps ds body rest,
      k = .function isAsync isGenerator → cs = ps :: ds :: body :: rest → False)
    (hclassDecl : ∀ isDeclare name c, k = .classDecl isDeclare → cs = [name, c] → False)
    (hclassExpr : ∀ name c, k = .classExpr → cs = [name, c] → False)
    (himport : ∀ isType specs rest, k = .importDecl isType → cs = .list specs :: rest → False)
    (henum : ∀ isDeclare isConst name rest, k = .enumDecl isDeclare isConst → cs = name :: rest → False) :
    (marksAll cs).Sublist (marks (.node k s cs)) := by
  rw [marks.eq_def]
  split <;> rename_i heq <;> cases heq
  · exact (hident _ rfl).elim
  · exact List.sublist_cons_self _ _
  · cases htwist
  · exact (hfunction _ _ _ _ _ _ rfl rfl).elim
  · exact (hclassDecl _ _ _ rfl rfl).elim
  · exact (hclassExpr _ _ rfl rfl).elim
  · cases htwist
  · cases htwist
  · cases htwist
  · cases htwist
  · exact (himport _ _ _ rfl rfl).elim
  · cases cs with
    | nil => exact .slnil
    | cons name rest => exact (henum _ _ _ _ rfl rfl).elim
  · rw [if_neg htype]

theorem items_sublist {n : Naming} (h : twists t = []) :
    ((plainRule n t).items.flatMap (itemMarks t)).Sublist (marks t) := by
  fun_cases plainRule n t
  case case38 k s cs _ _ _ _ _ _ _ _ _ _ _ _ _ _ _ _ _ _ _ _ _ _ _ _ _ _ _ _ _ _ _ _ _ _ =>
    split
    · simp [flat, Rule.items, Rule.inside]
    · simp only [flat, Rule.items, Rule.inside, Option.map_none, Option.getD_none, List.append_nil,
        itemMarks_parts]
      apply marksAll_sublist_marks h <;> assumption
  all_goals simp [flat, block, function, Rule.items, Rule.inside, marks_node, keepsOrder,
    isTypeKind]
  case case3 => simp [itemMarks, mentionPlace]
  case case4 => split <;> simp
  case case11 =>
    have hnone : ∀ specs : List Ast, specs.flatMap (fun _ => ([] : List Nat)) = [] := by simp
    split <;> simp [List.flatMap_assoc, itemMarks_ofImport, hnone]
  case case13 => exact .refl _
  case case15 => simp [marks_function]
  case case16 => simp [marks_function]
  case case18 => exact flatMap_sublist_marksAll (itemMarks_ofCtorParam _) _
  case case19 =>
    refine (flatMap_sublist_marksAll (fun p => ?_) _).append (List.sublist_append_left _ _)
    rw [itemMarks_bound]
  case case28 => exact flatMap_sublist_marksAll (itemMarks_ofDeclarator _ _) _
  case case29 => exact .refl _
  case case30 => exact .refl _
  case case31 => exact .refl _
  case case35 => exact itemMarks_ofTag rfl
  case case36 => exact (itemMarks_ofTag rfl).trans (List.sublist_append_left _ _)

@[simp] theorem items_flat (is : List Item) : (flat is).items = is :=
  List.append_nil is

/-- The body of a function has the items of the block that it is. -/
theorem items_plain (m : Role) (t : Ast) :
    ∃ naming, (plain.rule m t).items = (plainRule naming t).items := by
  change ∃ naming, (plainRuleAs m t).items = _
  fun_cases plainRuleAs m t
  · exact ⟨.refers, rfl⟩
  · exact ⟨.binds, rfl⟩
  · exact ⟨.refers, items_flat _⟩
  · exact ⟨.refers, rfl⟩

theorem items_of_parts (h : ∀ naming, plainRule naming (.node k s cs) = flat (parts .refers cs))
    (m : Role) :
    (plain.rule m (.node k s cs)).items = parts .refers cs := by
  obtain ⟨naming, heq⟩ := items_plain m (.node k s cs)
  rw [heq, h, items_flat]

/-- The words of a part stand as they stand in the whole. -/
theorem part_sublist {m' : Role} (h : .part m' u ∈ (plain.rule m t).items) :
    (marks u).Sublist (marks t) := by
  by_cases htwist : twists t = []
  · obtain ⟨naming, heq⟩ := items_plain m t
    refine List.Sublist.trans ?_ (items_sublist (n := naming) htwist)
    rw [← heq]
    exact List.sublist_flatten_of_mem (List.mem_map_of_mem h)
  -- a node that is visited in another order has the words of its parts in the order of the text
  revert h htwist
  fun_cases twists t with
  | case1 a s ds ms base rest =>
    have hrest : ∀ {u}, u ∈ rest → (marks u).Sublist (marksAll rest) := sublist_marksAll
    rw [items_of_parts (fun _ => rfl), part_mem_parts, marks_class]
    simp only [List.mem_cons]
    rintro ⟨-, rfl | rfl | rfl | hu⟩ - <;> grind
  | case2 s test body =>
    rw [items_of_parts (fun _ => rfl), part_mem_parts, marks_doWhile]
    simp only [List.mem_cons, List.not_mem_nil, or_false]
    rintro ⟨-, rfl | rfl⟩ - <;> simp
  | case3 k mods s key a g s' ps ds body rest =>
    rw [items_of_parts (fun _ => rfl), part_mem_parts, marks_classMethod]
    simp only [List.mem_cons, List.not_mem_nil, or_false]
    rintro ⟨-, rfl | rfl⟩ -
    · simp
    · simp [marks_function]
  | case4 mods s key value ann ds =>
    rw [items_of_parts (fun _ => rfl), part_mem_parts, marks_classProp]
    simp only [List.mem_cons, List.not_mem_nil, or_false]
    rintro ⟨-, rfl | rfl | rfl | rfl⟩ - <;> grind
  | case5 mods s key value ann ds =>
    rw [items_of_parts (fun _ => rfl), part_mem_parts, marks_accessorProp]
    simp only [List.mem_cons, List.not_mem_nil, or_false]
    rintro ⟨-, rfl | rfl | rfl | rfl⟩ - <;> grind
  | case6 => exact fun _ h => absurd rfl h

theorem items_twisted (h : twists t ≠ []) (m : Role) :
    ∃ cs, (plain.rule m t).items = parts .refers cs := by
  revert h
  fun_cases twists t
  · exact fun _ => ⟨_, items_of_parts (fun _ => rfl) m⟩
  · exact fun _ => ⟨_, items_of_parts (fun _ => rfl) m⟩
  · exact fun _ => ⟨_, items_of_parts (fun _ => rfl) m⟩
  · exact fun _ => ⟨_, items_of_parts (fun _ => rfl) m⟩
  · exact fun _ => ⟨_, items_of_parts (fun _ => rfl) m⟩
  · exact fun h => absurd rfl h

theorem mention_mem_marks (h : .mention n ∈ (plain.rule m t).items) :
    mentionPlace t ∈ marks t := by
  by_cases htwist : twists t = []
  · obtain ⟨naming, heq⟩ := items_plain m t
    refine (items_sublist (n := naming) htwist).subset ?_
    rw [← heq]
    exact List.mem_flatMap.2 ⟨_, h, List.mem_singleton_self _⟩
  · obtain ⟨cs, heq⟩ := items_twisted htwist m
    simp [heq, parts] at h

/-- A name that is mentioned stands at a word of the tree. -/
theorem mem_marks_of_placed (hx : x ∈ plain.placed m t) :
    x.2 ∈ marks t := by
  refine plain.rule_induction (P := fun m t => ∀ x ∈ plain.placed m t, x.2 ∈ marks t)
    (fun m t ih x hx => ?_) m t x hx
  rw [placed_rule, List.mem_flatMap] at hx
  obtain ⟨n | ⟨n, b⟩ | ⟨m', u⟩, hi, hx⟩ := hx
  · obtain rfl := List.mem_singleton.1 hx
    exact mention_mem_marks hi
  · cases hx
  · exact (part_sublist hi).subset (ih m' u hi x hx)

/-- A name that is mentioned is an identifier of the tree. -/
theorem mem_identsIn_of_placed (hx : x ∈ plain.placed m t) : x ∈ identsIn t := by
  refine plain.rule_induction (P := fun m t => ∀ x ∈ plain.placed m t, x ∈ identsIn t)
    (fun m t ih x hx => ?_) m t x hx
  obtain ⟨naming, heq⟩ := items_plain m t
  rw [placed_rule, List.mem_flatMap] at hx
  obtain ⟨n | ⟨n, b⟩ | ⟨m', u⟩, hi, hx⟩ := hx
  · obtain rfl := List.mem_singleton.1 hx
    exact mem_identsIn_mention (heq ▸ hi)
  · cases hx
  · exact mem_identsIn_plainRule (heq ▸ hi) (ih m' u hi x hx)

theorem twist_sublist {a b : Ast} (h : (a, b) ∈ twists t) :
    (marks b ++ marks a).Sublist (marks t) := by
  revert h
  fun_cases twists t with
  | case1 isAbstract s ds ms base rest =>
    intro h
    obtain ⟨rfl, rfl⟩ : a = ms ∧ b = base := by simpa using h
    rw [marks_class]
    grind
  | case2 s test body =>
    intro h
    obtain ⟨rfl, rfl⟩ : a = test ∧ b = body := by simpa using h
    exact .refl _
  | case3 k mods s key isAsync isGenerator s' ps ds body rest =>
    intro h
    obtain ⟨rfl, rfl⟩ : a = key ∧ b = ds := by simpa using h
    rw [marks_classMethod]
    grind
  | case4 mods s key value ann ds =>
    rw [marks_classProp]
    grind
  | case5 mods s key value ann ds =>
    rw [marks_accessorProp]
    grind
  | case6 => exact fun h => absurd h List.not_mem_nil

end Scoping

end Worklet
