import Worklet.Proofs.Scope.Plain

/-!
# The scoping of the language

The rules of the language itself, where they are finer than those of the scope table.

The body of a function has a scope of its own, which its parameters do not see, and so has a static
block of a class. The decorators of parameters belong outside the function, those of a named class
outside the class. The patterns of all parameters are read, those of parameters that declare
properties too, and of both parameters where a setter has two. `using` and `import x = …` declare
names, and so does a namespace, whose body is code in a scope of its own. The values of an
enumeration are expressions that see its members. A tag is a name unless it begins with a small
letter. An index signature is only a type.

Some code is only a type, though it is read as other code is: declarations of what exists elsewhere,
members without a value and functions without a body. It never runs, and its names are strays.
-/

set_option autoImplicit false

namespace Worklet

open Syntax Outline

namespace Item

def ofParamDecorators : Ast → List Item
  | .node .param _ [decorators, _] => [.part .refers decorators]
  | .node (.paramProp _) _ [decorators, _] => [.part .refers decorators]
  | _ => []

/-- A parameter of a function, without its decorators. -/
def ofParam : Ast → List Item
  | .node .param _ [_, p] => bound .param p
  | t => [.part .refers t]

/-- The parameters of a function. -/
def ofParams : Ast → List Item
  | .list ts => ts.flatMap ofParam
  | t => [.part .refers t]

/-- The pattern of a parameter that declares a property, without its default. -/
def ofPropertyPattern : Ast → List Item
  | .node (.paramProp _) _ [_, .node .assignPat _ [p, _]] => [.part .binds p]
  | .node (.paramProp _) _ [_, p] => [.part .binds p]
  | _ => []

def ofMember : Ast → List Item
  | .node .enumMember _ [name, v] => declareIdent .const name ++ [.part .refers v]
  | _ => []

/-- A tag refers unless it begins with a small letter. -/
def ofTagName : Ast → List Item
  | .node (.ident n) _ _ => if n.front.isLower then [] else [.mention n]
  | .node .jsxMember _ (obj :: _) => ofTagObject obj
  | _ => []

end Item

/-! ### Names with types -/

/-- The tree is a type, or there is none. -/
def isTypeTree : Ast → Bool
  | .absent => true
  | .node k _ _ => isTypeKind k
  | .list _ => false

/-- The name of a parameter with a type. -/
def typedName? : Ast → Option String
  | .node (.bindName _) _ [.node (.ident n) _ _, type] => if isTypeTree type then some n else none
  | _ => none

/-- The parameters of an index signature. -/
def signatureNames? : List Ast → Option (List String)
  | [.list ps, type] => if isTypeTree type then ps.mapM typedName? else none
  | _ => none

/-- The name and the value of a resource. What is declared is a name and no other pattern. -/
def resource? : Ast → Option (String × Ast)
  | .node (.declarator _) _ [p, v] => (typedName? p).map (·, v)
  | _ => none

namespace Item

def ofResource (t : Ast) : List Item :=
  match resource? t with
  | some (n, v) => [.declare n .const, .part .refers v]
  | none => [.part .refers t]

end Item

variable {m : Role} {u t : Ast} {n : String}

namespace Scoping

open Item Rule

/-! ### The rules -/

/-- What a node brings for which the language has a rule of its own. -/
def refined? : Ast → Option Rule
  | .node (.importEquals _ isType) _ [.node (.ident n) _ _, entity] =>
    some (flat ((if isType then [] else [.declare n .import]) ++ [.part .refers entity]))
  | .node .funcExpr _ [name, .node (.function _ _) s (params :: decorators :: body :: _)] =>
    some (function (.part .refers decorators :: params.items.flatMap ofParamDecorators) s
      (declareIdent .function name ++ ofParams params ++ [ofBody body]))
  | .node (.function _ _) s (params :: decorators :: body :: _) =>
    some (function (.part .refers decorators :: params.items.flatMap ofParamDecorators) s
      (ofParams params ++ [ofBody body]))
  | .node (.constructor _ _) s [key, .list params, body] =>
    some (function (.part .refers key :: params.flatMap ofParamDecorators) s
      (params.flatMap ofPropertyPattern ++ params.flatMap ofCtorParam ++ [ofBody body]))
  | .node (.arrow _) s (.list params :: body :: _) =>
    some (function [] s (params.flatMap (bound .param) ++ [ofBody body]))
  | .node .getter s [key, _, body] => some (function [.part .refers key] s [ofBody body])
  | .node .setter s [key, receiver, param, body] =>
    some (function [.part .refers key] s
      (bound .param receiver ++ bound .param param ++ [ofBody body]))
  | .node .staticBlock _ cs => some ⟨[], some ⟨.function, none, parts .refers cs⟩⟩
  | .node (.usingDecl _) _ ds => some (flat (ds.flatMap ofResource))
  | .node .classExpr _ [name, .node (.class_ _) _ (decorators :: rest)] =>
    if name.isPresent then
      some ⟨[.part .refers decorators],
        some ⟨.class, none, declareIdent .class name ++ parts .refers rest⟩⟩
    else none
  | .node (.jsxOpening _) _ (name :: rest) => some (flat (ofTagName name ++ parts .refers rest))
  | .node .jsxClosing _ (name :: _) => some (flat (ofTagName name))
  | .node (.enumDecl _ _) _ [name, .list members] =>
    some ⟨declareIdent .const name, some ⟨.function, none, members.flatMap ofMember⟩⟩
  | .node (.namespaceDecl _ isDeclare) _ (name :: rest) =>
    if isDeclare then some (flat [])
    else some ⟨declareIdent .const name, some ⟨.function, none, parts .refers rest⟩⟩
  | .node .nestedNamespace _ (.node (.ident n) _ _ :: rest) =>
    some ⟨[.declare n .const], some ⟨.function, none, parts .refers rest⟩⟩
  | .node (.indexSignature _ _) _ cs =>
    some (flat (if (signatureNames? cs).isSome then [] else parts .refers cs))
  | _ => none

/-- What a node brings. -/
def languageRule (naming : Naming) (t : Ast) : Rule :=
  (refined? t).getD (plainRule naming t)

theorem sizeOf_lt_of_mem_ofMember (h : Item.part m u ∈ ofMember t) :
    sizeOf u < sizeOf t := by
  unfold ofMember at h
  split at h
  · simp only [List.mem_append, part_notMem_declareIdent, List.mem_singleton, false_or,
      Item.part.injEq] at h
    simp [h.2]
    omega
  · simp at h

theorem sizeOf_lt_of_mem_ofPropertyPattern (h : Item.part m u ∈ ofPropertyPattern t) :
    sizeOf u < sizeOf t := by
  unfold ofPropertyPattern at h
  split at h
  · simp only [List.mem_singleton, Item.part.injEq] at h
    simp [h.2]
    omega
  · simp only [List.mem_singleton, Item.part.injEq] at h
    simp [h.2]
    omega
  · simp at h

theorem sizeOf_lt_of_mem_ofParamDecorators (h : Item.part m u ∈ ofParamDecorators t) :
    sizeOf u < sizeOf t := by
  unfold ofParamDecorators at h
  split at h
  · simp only [List.mem_singleton, Item.part.injEq] at h
    simp [h.2]
    omega
  · simp only [List.mem_singleton, Item.part.injEq] at h
    simp [h.2]
    omega
  · simp at h

theorem sizeOf_le_of_mem_ofParams (h : Item.part m u ∈ ofParams t) :
    sizeOf u ≤ sizeOf t := by
  unfold ofParams at h
  split at h
  · obtain ⟨p, hp, hu⟩ := List.mem_flatMap.1 h
    have := sizeOf_lt_of_mem hp
    unfold ofParam at hu
    split at hu
    · simp only [part_mem_bound] at hu
      simp [hu.2] at this ⊢
      omega
    · simp only [List.mem_singleton, Item.part.injEq] at hu
      simp [hu.2]
      omega
  · simp only [List.mem_singleton, Item.part.injEq] at h
    simp [h.2]

theorem resource?_eq_some {v : Ast} (h : resource? t = some (n, v)) :
    ∃ d s p, t = .node (.declarator d) s [p, v] ∧ typedName? p = some n := by
  unfold resource? at h
  split at h
  · obtain ⟨m, hm, heq⟩ := Option.map_eq_some_iff.1 h
    cases heq
    exact ⟨_, _, _, rfl, hm⟩
  · cases h

theorem sizeOf_le_of_mem_ofResource (h : Item.part m u ∈ ofResource t) :
    sizeOf u ≤ sizeOf t := by
  unfold ofResource at h
  split at h
  · rename_i n v hv
    obtain ⟨d, s, p, rfl, -⟩ := resource?_eq_some hv
    simp only [List.mem_cons, Item.part.injEq, reduceCtorEq, List.not_mem_nil, or_false,
      false_or] at h
    simp [h.2]
    omega
  · simp only [List.mem_singleton, Item.part.injEq] at h
    simp [h.2]

@[simp] theorem part_notMem_ofTagName : Item.part m u ∉ ofTagName t := by
  unfold ofTagName
  split
  · split <;> simp
  · simp
  · simp

theorem sizeOf_lt_of_mem_refined {r : Rule} {m' : Role} (hr : refined? t = some r)
    (h : .part m' u ∈ r.here ++ r.inside) : sizeOf u < sizeOf t := by
  revert hr
  fun_cases refined? t
  all_goals intro hr; cases hr
  all_goals simp [flat, function, Rule.inside] at h ⊢
  all_goals grind [→ sizeOf_lt_of_mem, → part_eq_ofBody, → sizeOf_lt_of_mem_ofCtorParam,
    → sizeOf_lt_of_mem_ofPropertyPattern, → sizeOf_lt_of_mem_ofMember, → sizeOf_lt_of_mem_ofParamDecorators,
    → sizeOf_le_of_mem_ofParams, → sizeOf_le_of_mem_ofResource, → sizeOf_lt_of_mem_items]

theorem sizeOf_lt_of_mem_languageRule (naming : Naming) (t : Ast) (m' : Role) (u : Ast)
    (h : .part m' u ∈ (languageRule naming t).here ++ (languageRule naming t).inside) :
    sizeOf u < sizeOf t := by
  unfold languageRule at h
  cases hr : refined? t with
  | none =>
    rw [hr] at h
    exact sizeOf_lt_of_mem_plainRule naming t m' u h
  | some r =>
    rw [hr] at h
    exact sizeOf_lt_of_mem_refined hr h

/-- What a tree brings, by its role. The body of a function has a scope of its own. -/
def languageRuleAs : Role → Ast → Rule
  | .refers, t => languageRule .refers t
  | .binds, t => languageRule .binds t
  | .body, .node .block _ ss => ⟨[], some ⟨.function, none, parts .refers ss⟩⟩
  | .body, t => languageRule .refers t

/-- The rules of the language. -/
def language : Scoping where
  rule := languageRuleAs
  smaller m t m' u h := by
    revert h
    fun_cases languageRuleAs m t
    · exact sizeOf_lt_of_mem_languageRule _ t m' u
    · exact sizeOf_lt_of_mem_languageRule _ t m' u
    · intro h
      simp only [Rule.inside, Option.map_some, Option.getD_some, List.nil_append,
        part_mem_parts] at h
      exact sizeOf_lt_of_mem_node h.2
    · exact sizeOf_lt_of_mem_languageRule _ _ m' u

end Scoping

/-! ### Where the rules differ -/

/-- All names that facts mention or declare for what is around them. -/
def factNames (os : List Outline) : List String :=
  freeAll bare os ++ lexicalAll os ++ hoistedAll os

/-- The name of a tag that begins with no letter of plain text. A tag with dots may begin with `this`,
which is no name. -/
def oddTag : Ast → List String
  | .node (.ident n) _ _ => if n.front.isUpper || n.front.isLower then [] else [n]
  | .node .jsxMember _ _ => ["this"]
  | _ => []

/-- The names that the scope table sees otherwise at a node. -/
def ownStrays : Ast → List String
  -- What parameters mention and only the body declares.
  | .node (.function _ _) _ (params :: _ :: body :: _) =>
    taken (outlineAs .refers params) (Scoping.outlineIn .body body)
  | .node (.constructor _ _) _ [_, .list params, body] =>
    taken (outlineCtorParams params) (Scoping.outlineIn .body body)
  | .node (.arrow _) _ (.list params :: body :: _) =>
    taken (outlinePatterns params) (Scoping.outlineIn .body body)
  | .node .setter _ [_, receiver, param, body] =>
    factNames (declareAll .param (boundNames receiver) ++ outlineAs .binds receiver) ++
    taken (declareAll .param (boundNames param) ++ outlineAs .binds param)
      (Scoping.outlineIn .body body)
  -- What decorators of parameters mention.
  | .node .param _ [decorators, _] => factNames (outlineAs .refers decorators)
  -- What the pattern of a parameter mentions that declares a property.
  | .node (.paramProp a) s [decorators, p] =>
    factNames (outlineAs .refers decorators) ++
      factNames ((Item.ofPropertyPattern (.node (.paramProp a) s [decorators, p])).flatMap
        Scoping.outlineOf)
  -- What decorators of a class mention and the class declares.
  | .node .classExpr _ [name, .node (.class_ _) _ (decorators :: rest)] =>
    lexicalAll (outlineAs .refers decorators) ++
      (freeAll bare (outlineAs .refers decorators)).filter fun n =>
        (declared .class
          (declareName .class name ++ outlineAll .refers (decorators :: rest))).contains n
  -- The `var`s of a static block.
  | .node .staticBlock _ cs =>
    lexicalAll (outlineAll .refers cs) ++ hoistedAll (outlineAll .refers cs)
  | .node (.usingDecl _) _ ds => ds.flatMap fun d => ((resource? d).map (·.1)).toList
  | .node (.importEquals _ _) _ [.node (.ident n) _ _, _] => [n]
  -- What a namespace declares, and what its body mentions.
  | .node (.namespaceDecl _ false) _ (name :: rest) =>
    name.identName?.toList ++ freeAll bare [.scope .function none (outlineAll .refers rest)]
  | .node .nestedNamespace _ (.node (.ident n) _ _ :: rest) =>
    n :: (lexicalAll (outlineAll .refers rest) ++ hoistedAll (outlineAll .refers rest))
  -- What the values of an enumeration mention.
  | .node (.enumDecl _ _) _ [_, .list members] =>
    freeAll bare
      [.scope .function none ((members.flatMap Item.ofMember).flatMap Scoping.outlineOf)]
  | .node (.indexSignature _ _) _ cs => (signatureNames? cs).getD []
  | .node (.jsxOpening _) _ (name :: _) => oddTag name
  | .node .jsxClosing _ (name :: _) => oddTag name
  | _ => []

/-! ### Code that never runs -/

/-- Kinds of statements that hold one other statement, which belongs to the same list. -/
def isCarrier : Kind → Bool
  | .exportDecl | .labeled | .ifStmt | .whileStmt | .doWhileStmt | .withStmt => true
  | _ => false

def namedFunction? (name : Ast) : Ast → Option (String × Ast)
  | .node (.function a g) s cs => name.identName?.map (·, .node (.function a g) s cs)
  | _ => none

def declaredFunction? : Ast → Option (String × Ast)
  | .node (.funcDecl _) _ [name, f] => namedFunction? name f
  | .node .exportDefaultDecl _ [.node .funcExpr _ [name, f]] => namedFunction? name f
  | _ => none

mutual

/-- The functions that a statement declares in the list in which it stands. -/
def declarations : Ast → List (String × Ast)
  | .node k s cs =>
    match declaredFunction? (.node k s cs) with
    | some d => [d]
    | none => if isCarrier k then declarationsAll cs else []
  | _ => []

def declarationsAll : List Ast → List (String × Ast)
  | [] => []
  | t :: ts => declarations t ++ declarationsAll ts

end

/-- The names that statements declare by functions without a body alone. -/
def loneSignatures (ss : List Ast) : List String :=
  let (signatures, functions) := (declarationsAll ss).partition fun d => (d.2.child 2).isAbsent
  (signatures.map (·.1)).filter fun n => functions.all (·.1 != n)

/-- The node is only a type: it declares what exists elsewhere, or it has no body or value. -/
def isAmbient : Ast → Bool
  | .node (.varDecl _ isDeclare) _ _ => isDeclare
  | .node (.funcDecl isDeclare) _ _ => isDeclare
  | .node (.classDecl isDeclare) _ _ => isDeclare
  | .node (.enumDecl isDeclare _) _ _ => isDeclare
  | .node (.importEquals _ isType) _ _ => isType
  | .node (.function _ _) _ (_ :: _ :: body :: _) => body.isAbsent
  | .node (.constructor _ _) _ [_, _, body] => body.isAbsent
  | .node .setter _ [_, _, _, body] => body.isAbsent
  | .node (.classMethod _ mods) _ [_, f] => mods.isAbstract || (f.child 2).isAbsent
  | .node (.classProp mods) _ _ => mods.isAbstract || mods.isDeclare
  | .node (.accessorProp mods) _ _ => mods.isAbstract || mods.isDeclare
  | _ => false

/-- The names of a node that never runs, and those that its functions without a body declare. -/
def ambientStrays : Ast → List String
  | .node k s cs =>
    (if isAmbient (.node k s cs) then factNames (outlineAs .refers (.node k s cs)) else []) ++
      if isCarrier k then [] else loneSignatures cs
  | _ => []

def isNamespace : Kind → Bool
  | .namespaceDecl .. => true
  | _ => false

mutual

/-- The names that the scope table sees otherwise than the language does, or that stand in code that
never runs. -/
def strays : Ast → List String
  | .absent => []
  | .list ts => straysAll ts
  | .node k s cs =>
    ownStrays (.node k s cs) ++ ambientStrays (.node k s cs) ++
      if isTypeKind k && !isNamespace k then [] else straysAll cs

def straysAll : List Ast → List String
  | [] => []
  | t :: ts => strays t ++ straysAll ts

end

theorem mem_straysAll {ts : List Ast} :
    n ∈ straysAll ts ↔ ∃ t ∈ ts, n ∈ strays t :=
  Joins.mem ⟨rfl, fun _ _ => rfl⟩

end Worklet
