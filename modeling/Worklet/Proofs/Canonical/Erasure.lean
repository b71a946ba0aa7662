import Worklet.Proofs.Canonical.NormalForm

/-!
# What the normal form keeps of types

Types are erased from the canonical text, but not from every place in which they can stand. The kinds
of syntax that only typed files have are listed here, and so are the parts of a node that its normal
form does without; a tree has a normal form without types if and only if all of its types stand in
such parts.

Principal results: `isPlainScript_normalize_node` — what is plain in the normal form of a node;
`isPlainScript_canonicalModule_iff` — the canonical form of a function is plain if and only if it
misses nothing.
-/

set_option autoImplicit false

namespace Worklet

open Syntax

/-! ### Plain scripts -/

/-- Only typed files have such modifiers. -/
def hasTypedMark (m : Modifiers) : Bool :=
  m.access.isSome || m.isAbstract || m.isOverride || m.isReadonly || m.isDeclare || m.isOptional ||
    m.isDefinite

/-- Only typed files have nodes of the kind: types and their parts, types around expressions,
declarations and members, and kinds with a mark that concerns types. -/
def isTypeScript : Kind → Bool
  -- Types
  | .typeAnn | .typeParams | .typeParam .. | .typeArgs | .keywordType _ | .thisType | .fnType
  | .ctorType _ | .typeRef | .qualified | .typeQuery | .typeLit | .arrayType | .tupleType
  | .tupleElement | .optionalType | .restType | .unionType | .intersectionType
  | .conditionalType | .inferType | .parenType | .typeOperator _ | .indexedType
  | .mappedType .. | .litType | .templateType | .typePredicate _ | .importType | .heritage
  | .callSignature | .constructSignature | .propSignature .. | .getterSignature _
  | .setterSignature _ | .methodSignature .. => true
  -- Expressions with a type around them
  | .asType | .satisfiesType | .typeAssertion | .nonNull | .asConst | .instantiation => true
  -- Declarations and members
  | .interfaceDecl _ | .typeAlias _ | .enumDecl .. | .enumMember | .namespaceDecl ..
  | .nestedNamespace | .moduleBlock | .importEquals .. | .externalModule | .exportAssign
  | .exportAsNamespace | .indexSignature .. | .paramProp _ => true
  -- Marks
  | .bindName isOptional | .arrayPat isOptional | .objectPat isOptional => isOptional
  | .varDecl _ isDeclare | .funcDecl isDeclare | .classDecl isDeclare => isDeclare
  | .declarator isDefinite => isDefinite
  | .class_ isAbstract => isAbstract
  | .classMethod _ mods | .classProp mods | .accessorProp mods => hasTypedMark mods
  | .constructor access isOptional => access.isSome || isOptional
  | .importDecl isType | .importNamed isType | .exportNamed isType _ | .exportSpecifier isType
  | .exportAll isType => isType
  | _ => false

/-- The expression without the types that stand directly around it. -/
def unwrapped : Ast → Ast
  | .node .asType _ (e :: _) => unwrapped e
  | .node .satisfiesType _ (e :: _) => unwrapped e
  | .node .typeAssertion _ (e :: _) => unwrapped e
  | .node .nonNull _ (e :: _) => unwrapped e
  | .node .asConst _ (e :: _) => unwrapped e
  | .node .instantiation _ (e :: _) => unwrapped e
  | t => t

/-- A function or a member that has no body. -/
def lacksBody : Kind → List Ast → Bool
  | .function _ _, [_, _, body, _, _] => (unwrapped body).isAbsent
  | .constructor _ _, [_, _, body] => (unwrapped body).isAbsent
  | .getter, [_, _, body] => (unwrapped body).isAbsent
  | .setter, [_, _, _, body] => (unwrapped body).isAbsent
  | _, _ => false

/-- A parameter that only gives `this` a type. -/
def bindsThis : Kind → List Ast → Bool
  | .bindName _, [name, _] => (unwrapped name).identName? == some "this"
  | _, _ => false

mutual

/-- Nothing in the tree is of a typed file. -/
def isPlainScript : Ast → Bool
  | .absent => true
  | .list ts => isPlainScriptAll ts
  | .node k _ cs => !(isTypeScript k || lacksBody k cs || bindsThis k cs) && isPlainScriptAll cs

def isPlainScriptAll : List Ast → Bool
  | [] => true
  | t :: ts => isPlainScript t && isPlainScriptAll ts

end

/-! ### What stays -/

def keptStmts (ss : List Ast) : List Ast :=
  ss.filter fun t => !isTypeOnly t

/-- The parts of a tree that are not erased. Types of patterns, functions, calls, classes and
properties are, and statements of a block or a case that declare only types. -/
def keptParts : Ast → List Ast
  | .absent => []
  | .list ts => ts
  | .node (.bindName _) _ [name, _] => [name]
  | .node (.arrayPat _) _ [es, _] => [es]
  | .node (.objectPat _) _ [ps, _] => [ps]
  | .node .restPat _ [p, _] => [p]
  | .node (.function _ _) _ [params, decorators, body, _, _] => [params, decorators, body]
  | .node (.arrow _) _ [params, body, _, _] => [params, body]
  | .node .call _ [callee, args, _] => [callee, args]
  | .node .new_ _ [callee, args, _] => [callee, args]
  | .node (.class_ _) _ [decorators, members, base, _, _, _] => [decorators, members, base]
  | .node (.classProp _) _ [key, value, type, decorators] =>
    if key.isPrivateName then [key, value, type, decorators] else [key, value, decorators]
  | .node .block _ ss => keptStmts ss
  | .node .switchCase _ (test :: ss) => test :: keptStmts ss
  | .node k _ cs => if isTypeWrapper k then cs.take 1 else cs

/-- The node itself stays one of a typed file: its kind is of typed files, it has no body, it binds
`this`, or a type stands around what it assigns to. Optional patterns and types around expressions
do not stay. -/
def leftAt : Kind → List Ast → Bool
  | .assign _, [.node k _ _, _] => isTypeWrapper k
  | .bindName o, [name, t] => bindsThis (.bindName o) [name, t]
  | .arrayPat _, [_, _] => false
  | .objectPat _, [_, _] => false
  | k, cs => if isTypeWrapper k then cs.isEmpty else isTypeScript k || lacksBody k cs

/-- Some type of the tree stays. -/
inductive Misses : Ast → Prop
  | here {k : Kind} {s : Span} {cs : List Ast} : leftAt k cs = true → Misses (.node k s cs)
  | part {t u : Ast} : u ∈ keptParts t → Misses u → Misses t

/-! ### The normal form of a node -/

theorem isPlainScriptAll_eq (ts : List Ast) : isPlainScriptAll ts = ts.all isPlainScript := by
  induction ts with
  | nil => rfl
  | cons t ts ih => rw [isPlainScriptAll, ih, List.all_cons]

theorem normalizeStmts_eq_map (ss : List Ast) : normalizeStmts ss = (keptStmts ss).map normalize := by
  induction ss with
  | nil => rfl
  | cons t ss ih =>
    rw [normalizeStmts, ih]
    cases h : isTypeOnly t <;> simp [keptStmts, h]

theorem identName?_normalKind (k : Kind) (s s' : Span) (cs cs' : List Ast) :
    (Ast.node (normalKind k) s' cs').identName? = (Ast.node k s cs).identName? := by
  cases k <;> rfl

theorem unwrapped_of_isTypeWrapper_eq_false {k : Kind} (hk : isTypeWrapper k = false) (s : Span)
    (cs : List Ast) : unwrapped (.node k s cs) = .node k s cs := by
  unfold unwrapped
  split <;> first | rfl | (rename_i h; cases h; cases hk)

theorem unwrapped_wrapped {k : Kind} (hk : isTypeWrapper k = true) (s : Span) (t : Ast)
    (types : List Ast) : unwrapped (.node k s (t :: types)) = unwrapped t := by
  revert hk
  fun_cases isTypeWrapper k <;> intro hk
  case case7 => cases hk
  all_goals rw [unwrapped]

/-- The normal form of a node that is no type around an expression is no such node either. -/
theorem normalize_eq_made {k : Kind} (hk : isTypeWrapper k = false) (s : Span) (cs : List Ast) :
    ∃ k' cs', normalize (.node k s cs) = made k' cs' ∧ isTypeWrapper k' = false ∧
      (made k' cs').identName? = (Ast.node k s cs).identName? := by
  rw [normalize_node]
  generalize views k cs = vs
  fun_cases assemble k vs
  case case20 => exact ⟨_, _, rfl, (isTypeWrapper_normalKind k).trans hk, identName?_normalKind ..⟩
  all_goals first | exact ⟨_, _, rfl, rfl, rfl⟩ | cases hk

/-- In a normal form no type stands around an expression as a whole; what is left is there if it was
there inside the types. -/
theorem unwrapped_normalize (t : Ast) :
    unwrapped (normalize t) = normalize t ∧
      (normalize t).isAbsent = (unwrapped t).isAbsent ∧
      (normalize t).identName? = (unwrapped t).identName? := by
  cases t with
  | absent => exact ⟨rfl, rfl, rfl⟩
  | list ts => exact ⟨rfl, rfl, rfl⟩
  | node k s cs =>
    cases hk : isTypeWrapper k with
    | false =>
      obtain ⟨k', cs', hn, hk', hname⟩ := normalize_eq_made hk s cs
      rw [hn, unwrapped_of_isTypeWrapper_eq_false hk, made, unwrapped_of_isTypeWrapper_eq_false hk']
      exact ⟨rfl, rfl, hname⟩
    | true =>
      cases cs with
      | nil =>
        revert hk
        fun_cases isTypeWrapper k <;> intro hk
        all_goals first | exact ⟨rfl, rfl, rfl⟩ | cases hk
      | cons e types =>
        rw [normalize_wrapped hk, unwrapped_wrapped hk]
        exact unwrapped_normalize e
termination_by sizeOf t

theorem isAbsent_unwrapped_normalize (t : Ast) :
    (unwrapped (normalize t)).isAbsent = (unwrapped t).isAbsent := by
  rw [(unwrapped_normalize t).1, (unwrapped_normalize t).2.1]

theorem lacksBody_map_normalize (k : Kind) (cs : List Ast) :
    lacksBody (normalKind k) (cs.map normalize) = lacksBody k cs := by
  cases k with
  | function | constructor | getter | setter =>
    rcases cs with _ | ⟨_, _ | ⟨_, _ | ⟨_, _ | ⟨_, _ | ⟨_, _ | ⟨_, _⟩⟩⟩⟩⟩⟩
    all_goals first | rfl | exact isAbsent_unwrapped_normalize _
  | _ => rfl

theorem bindsThis_normalize (o o' : Bool) (name type type' : Ast) :
    bindsThis (.bindName o') [normalize name, type'] = bindsThis (.bindName o) [name, type] := by
  rw [bindsThis, bindsThis, (unwrapped_normalize name).1, (unwrapped_normalize name).2.2]

theorem isTypeScript_normalKind (k : Kind) : isTypeScript (normalKind k) = isTypeScript k := by
  cases k <;> rfl

theorem isTypeScript_of_isTypeWrapper {k : Kind} (h : isTypeWrapper k = true) :
    isTypeScript k = true := by
  revert h
  fun_cases isTypeWrapper k <;> intro h
  all_goals first | rfl | cases h

/-- A node whose normal form is a node: what is left of it, and the parts that are kept. -/
theorem isPlainScript_of_made {k k' : Kind} {s : Span} {cs cs' : List Ast}
    (hnormal : normalize (.node k s cs) = made k' cs')
    (hself : (isTypeScript k' || lacksBody k' cs' || bindsThis k' cs') = leftAt k cs)
    (hparts : isPlainScriptAll cs' =
      (keptParts (.node k s cs)).all fun t => isPlainScript (normalize t)) :
    isPlainScript (normalize (.node k s cs)) =
      (!leftAt k cs && (keptParts (.node k s cs)).all fun t => isPlainScript (normalize t)) := by
  rw [hnormal, made, isPlainScript, hself, hparts]

theorem isPlainScript_of_kept {k : Kind} {s : Span} {cs : List Ast}
    (hnormal : normalize (.node k s cs) = made (normalKind k) (normalizeAll cs))
    (hthis : bindsThis (normalKind k) (normalizeAll cs) = false)
    (hleft : leftAt k cs = (isTypeScript k || lacksBody k cs))
    (hkept : keptParts (.node k s cs) = cs) :
    isPlainScript (normalize (.node k s cs)) =
      (!leftAt k cs && (keptParts (.node k s cs)).all fun t => isPlainScript (normalize t)) := by
  refine isPlainScript_of_made hnormal ?_ ?_
  · rw [hthis, hleft, normalizeAll_eq, isTypeScript_normalKind, lacksBody_map_normalize,
      Bool.or_false]
  · rw [hkept, normalizeAll_eq, isPlainScriptAll_eq, List.all_map]
    rfl

/-- **What is plain in the normal form of a node**: the node, if nothing of it is left, and the normal
forms of the parts that are kept. -/
theorem isPlainScript_normalize_node (k : Kind) (s : Span) (cs : List Ast) :
    isPlainScript (normalize (.node k s cs)) =
      (!leftAt k cs && (keptParts (.node k s cs)).all fun t => isPlainScript (normalize t)) := by
  -- A node of another number of parts than its kind has is kept as it is.
  cases k with
  | asType | satisfiesType | typeAssertion | nonNull | asConst | instantiation =>
    rcases cs with _ | ⟨e, types⟩
    · rfl
    · simp [normalize, leftAt, keptParts, isTypeWrapper]
  | block =>
    refine isPlainScript_of_made rfl rfl ?_
    rw [normalizeStmts_eq_map, isPlainScriptAll_eq, List.all_map]
    rfl
  | switchCase =>
    rcases cs with _ | ⟨test, ss⟩
    · rfl
    · refine isPlainScript_of_made rfl rfl ?_
      rw [normalizeStmts_eq_map, isPlainScriptAll_eq, List.all_cons, List.all_map]
      rfl
  | assign op =>
    rcases cs with _ | ⟨_ | _ | ⟨k', s', cs'⟩, _ | ⟨value, _ | ⟨_, _⟩⟩⟩
    case cons.node.cons.nil =>
      have hkept : keptParts (.node (.assign op) s [.node k' s' cs', value]) =
        [.node k' s' cs', value] := rfl
      cases hk : isTypeWrapper k' with
      | false =>
        refine isPlainScript_of_made rfl hk.symm ?_
        simp [isPlainScriptAll, hkept, hk]
      | true =>
        have hleft : leftAt (.assign op) [.node k' s' cs', value] = true := hk
        rw [hleft, normalize, if_pos hk, made, made, isPlainScript, isPlainScriptAll, isPlainScript,
          isTypeScript_of_isTypeWrapper hk]
        simp
    all_goals exact isPlainScript_of_kept rfl rfl rfl rfl
  | bindName o =>
    rcases cs with _ | ⟨name, _ | ⟨type, _ | ⟨_, _⟩⟩⟩
    case cons.cons.nil =>
      exact isPlainScript_of_made rfl (bindsThis_normalize o false name type .absent)
        (by simp [isPlainScriptAll, isPlainScript, keptParts])
    all_goals exact isPlainScript_of_kept rfl rfl rfl rfl
  | arrayPat | objectPat | restPat =>
    rcases cs with _ | ⟨p, _ | ⟨type, _ | ⟨_, _⟩⟩⟩
    case cons.cons.nil =>
      exact isPlainScript_of_made rfl rfl (by simp [isPlainScriptAll, isPlainScript, keptParts])
    all_goals exact isPlainScript_of_kept rfl rfl rfl rfl
  | call | new_ =>
    rcases cs with _ | ⟨callee, _ | ⟨args, _ | ⟨types, _ | ⟨_, _⟩⟩⟩⟩
    case cons.cons.cons.nil =>
      exact isPlainScript_of_made rfl rfl (by simp [isPlainScriptAll, isPlainScript, keptParts])
    all_goals exact isPlainScript_of_kept rfl rfl rfl rfl
  | arrow =>
    rcases cs with _ | ⟨params, _ | ⟨body, _ | ⟨tps, _ | ⟨type, _ | ⟨_, _⟩⟩⟩⟩⟩
    case cons.cons.cons.cons.nil =>
      exact isPlainScript_of_made rfl rfl (by simp [isPlainScriptAll, isPlainScript, keptParts])
    all_goals exact isPlainScript_of_kept rfl rfl rfl rfl
  | function =>
    rcases cs with _ | ⟨params, _ | ⟨decorators, _ | ⟨body, _ | ⟨tps, _ | ⟨type, _ | ⟨_, _⟩⟩⟩⟩⟩⟩
    case cons.cons.cons.cons.cons.nil =>
      exact isPlainScript_of_made rfl
        ((Bool.or_false _).trans (congrArg (false || ·) (isAbsent_unwrapped_normalize body)))
        (by simp [isPlainScriptAll, isPlainScript, keptParts])
    all_goals exact isPlainScript_of_kept rfl rfl rfl rfl
  | class_ =>
    rcases cs with _ | ⟨_, _ | ⟨_, _ | ⟨_, _ | ⟨_, _ | ⟨_, _ | ⟨_, _ | ⟨_, _⟩⟩⟩⟩⟩⟩⟩
    case cons.cons.cons.cons.cons.cons.nil =>
      exact isPlainScript_of_made rfl (Bool.or_false _)
        (by simp [isPlainScriptAll, isPlainScript, keptParts])
    all_goals exact isPlainScript_of_kept rfl rfl rfl rfl
  | classProp =>
    rcases cs with _ | ⟨key, _ | ⟨value, _ | ⟨type, _ | ⟨decorators, _ | ⟨_, _⟩⟩⟩⟩⟩
    case cons.cons.cons.cons.nil =>
      refine isPlainScript_of_made rfl (Bool.or_false _) ?_
      cases hkey : key.isPrivateName <;> simp [isPlainScriptAll, isPlainScript, keptParts, hkey]
    all_goals exact isPlainScript_of_kept rfl rfl rfl rfl
  | _ => exact isPlainScript_of_kept rfl rfl rfl rfl

/-! ### Types that stay -/

theorem sizeOf_lt_of_mem_keptParts {t u : Ast} (h : u ∈ keptParts t) : sizeOf u < sizeOf t := by
  have hmem : u ∈ t.children ∨ u ∈ t.items := by
    fun_cases keptParts t <;> simp_all [keptParts, keptStmts, Ast.children, Ast.items]
    all_goals grind [List.mem_of_mem_take]
  cases t with
  | absent => simp [Ast.children, Ast.items] at hmem
  | list ts =>
    have hlt := List.sizeOf_lt_of_mem (show u ∈ ts by simpa [Ast.children, Ast.items] using hmem)
    simp only [Ast.list.sizeOf_spec]
    omega
  | node k s cs =>
    have hlt := List.sizeOf_lt_of_mem (show u ∈ cs by simpa [Ast.children, Ast.items] using hmem)
    simp only [Ast.node.sizeOf_spec]
    omega

theorem misses_iff {t : Ast} :
    Misses t ↔ (∃ k s cs, t = .node k s cs ∧ leftAt k cs = true) ∨ ∃ u ∈ keptParts t, Misses u := by
  constructor
  · intro h
    cases h with
    | here h => exact .inl ⟨_, _, _, rfl, h⟩
    | part hu h => exact .inr ⟨_, hu, h⟩
  · rintro (⟨k, s, cs, rfl, h⟩ | ⟨u, hu, h⟩)
    · exact .here h
    · exact .part hu h

/-- **A normal form is plain if and only if no type of the tree stays.** -/
theorem isPlainScript_normalize_iff (t : Ast) : isPlainScript (normalize t) = true ↔ ¬Misses t := by
  have ih : ∀ u ∈ keptParts t, (isPlainScript (normalize u) = true ↔ ¬Misses u) :=
    fun u hu => isPlainScript_normalize_iff u
  rw [misses_iff]
  cases t with
  | absent => simp [normalize, isPlainScript, keptParts]
  | list ts =>
    simp only [normalize, isPlainScript, normalizeAll_eq, isPlainScriptAll_eq, List.all_map,
      List.all_eq_true, Function.comp_apply, keptParts]
    simp_all [keptParts]
  | node k s cs =>
    rw [isPlainScript_normalize_node, Bool.and_eq_true, List.all_eq_true]
    simp_all
termination_by sizeOf t
decreasing_by exact sizeOf_lt_of_mem_keptParts hu

/-- **The canonical form of a function is plain if and only if no type of the function stays.** At any
depth it has no type, type parameters or type arguments, no type around an expression, no declaration
or member of typed files, no function without a body and no parameter `this`, unless the function has
one where types are not erased: type arguments of tagged templates, elements and calls in optional
chains, types of private and automatic properties and of the getters of objects, members without a
body, index signatures, types directly around what is assigned to, declarations of types outside of
blocks and cases, and marks and declarations that are kept as they are. -/
theorem isPlainScript_canonicalModule_iff (c : Candidate) :
    isPlainScript (canonicalModule c) = true ↔ ¬Misses c.toFunction := by
  have hmodule : isPlainScript (canonicalModule c) =
      (isPlainScript (normalize (made (.funcDecl false) [madeIdent canonicalName, c.toFunction])) &&
        true) := rfl
  have hleft : leftAt (.funcDecl false) [madeIdent canonicalName, c.toFunction] = false := rfl
  have hkept : keptParts (made (.funcDecl false) [madeIdent canonicalName, c.toFunction]) =
      [madeIdent canonicalName, c.toFunction] := rfl
  have hname : isPlainScript (normalize (madeIdent canonicalName)) = true := rfl
  rw [hmodule, Bool.and_true, made, isPlainScript_normalize_node, hleft, ← made, hkept]
  simp [hname, isPlainScript_normalize_iff]

/-- ``() => tag<string>`x` `` -/
def sampleTagged : Candidate where
  kind := .arrow
  name := none
  params := []
  body :=
    madeBlock
      [madeReturn
        (made .tagged
          [madeIdent "tag", made .typeArgs [made (.keywordType "string") []],
           made .template [.list [], .list [made (.quasi "x") []]]])]
  span := ⟨11, 51⟩
  isAsync := false
  isGenerator := false

/-- The type arguments of a tagged template stay. -/
theorem isPlainScript_sampleTagged :
    Misses sampleTagged.toFunction ∧ isPlainScript (canonicalModule sampleTagged) = false := by
  have hargs : Misses (made .typeArgs [made (.keywordType "string") []]) := .here rfl
  have hreturn : Misses (madeReturn (made .tagged
      [madeIdent "tag", made .typeArgs [made (.keywordType "string") []],
       made .template [.list [], .list [made (.quasi "x") []]]])) :=
    .part (.head _) (.part (.tail _ (.head _)) hargs)
  have hmisses : Misses sampleTagged.toFunction :=
    .part (.tail _ (.tail _ (.head _))) (.part (.head _) hreturn)
  have hplain := mt (isPlainScript_canonicalModule_iff sampleTagged).1 (not_not_intro hmisses)
  exact ⟨hmisses, Bool.eq_false_iff.2 hplain⟩

end Worklet
