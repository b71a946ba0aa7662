import Worklet.Proofs.Convert.Idempotent
import Worklet.Proofs.Convert.GivesWay

/-!
# Places

Where a piece of a tree stands, and where it goes when functions around it are converted.

* `Path`, `Ast.at?` — a place in a tree and what stands there.
-/

set_option autoImplicit false

namespace Worklet

open Syntax

/-! ### Places in a tree -/

/-- A place in a tree: which part to enter, level by level. -/
abbrev Path := List Nat

/-- The members of a list or the children of a node. -/
def Syntax.Ast.parts : Ast → List Ast
  | .absent => []
  | .list ts => ts
  | .node _ _ cs => cs

/-- What stands at a place. -/
def Syntax.Ast.at? : Ast → Path → Option Ast
  | t, [] => some t
  | t, i :: π => t.parts[i]?.bind fun c => c.at? π

theorem at?_append (t : Ast) (π ρ : Path) : t.at? (π ++ ρ) = (t.at? π).bind (·.at? ρ) := by
  induction π generalizing t with
  | nil => rfl
  | cons i π ih =>
    rw [List.cons_append, Ast.at?, Ast.at?, Option.bind_assoc]
    congr
    funext c
    exact ih c

/-- The part of a tree at an index is the body of a function. -/
def isBodyOf : Ast → Nat → Bool
  | .node (.function ..) _ _, 2 => true
  | .node (.arrow _) _ _, 1 => true
  | .node .getter _ _, 2 => true
  | .node .setter _ _, 3 => true
  | .node (.constructor ..) _ _, 2 => true
  | _, _ => false

/-- A piece of a tree, its slot, and whether it is the body of a function. -/
structure Piece where
  slot : Slot
  tree : Ast
  isBody : Bool := false

def HookRegistry.partSlot (hooks : HookRegistry) (w : Slot) : Ast → Nat → Slot
  | .node k s cs, i => hooks.childSlot w (.node k s cs) i
  | _, i => w.item i

namespace Piece

def part? (hooks : HookRegistry) (x : Piece) (i : Nat) : Option Piece :=
  x.tree.parts[i]?.map fun c => ⟨hooks.partSlot x.slot x.tree i, c, isBodyOf x.tree i⟩

def at? (hooks : HookRegistry) : Piece → Path → Option Piece
  | x, [] => some x
  | x, i :: π => (x.part? hooks i).bind fun y => y.at? hooks π

/-- The piece is a node of its own: a statement, a member of a class, a property, an expression. A
function without its name or key, a parameter with its decorators, the body of a function and
parentheses are no such pieces. -/
def isElement (x : Piece) : Bool :=
  !x.isBody && x.slot != .exported &&
    match x.tree with
    | .node (.function ..) _ _ => false
    | .node .param _ _ => false
    | .node .paren _ _ => false
    | .node .. => true
    | _ => false

/-- No function in the piece is marked or detected. -/
def IsPlain (config : Config) (x : Piece) : Prop :=
  ∀ site ∈ functionSites config.hooks x.slot x.tree, site.reason? config.marker = none

end Piece

/-! ### Where places go -/

/-- How many markers a block begins with. -/
def markersOf (marker : String) (t : Ast) : Nat :=
  (t.stmts.takeWhile (isDirective marker)).length

/-- A statement and what stands for it: it keeps its span, unless it is a function that gives way. -/
def Succeeds (t t' : Ast) : Prop :=
  t'.span = t.span ∨ t'.span.isMade = true ∧ ∃ s cs,
    t = .node .funcExpr s cs ∨ (∃ a, t = .node (.arrow a) s cs) ∨ t = .node .method s cs

/-- Where a statement of a list went: between statements that were read stand others that were
made. -/
inductive StatementGoes : List Ast → List Ast → Nat → Nat → Prop
  | here {t t' : Ast} {ts ts' : List Ast} : Succeeds t t' → StatementGoes (t :: ts) (t' :: ts') 0 0
  | next {t t' : Ast} {ts ts' : List Ast} {i j : Nat} : Succeeds t t' → StatementGoes ts ts' i j →
    StatementGoes (t :: ts) (t' :: ts') (i + 1) (j + 1)
  | made {t' : Ast} {ts ts' : List Ast} {i j : Nat} : t'.span.isMade = true →
    StatementGoes ts ts' i j → StatementGoes ts (t' :: ts') i (j + 1)

/-- The place of the function in its wrapper. -/
def wrappedPath : Path := [0, 0, 1, 2, 0, 0, 1, 1]

/-- The place of the wrapper in the body of an accessor that hands over to it. -/
def delegatedPath : Option String → Path
  | none => [0, 0, 0, 0]
  | some _ => [0, 0, 0, 0, 0, 1, 0, 1]

/-- A method of an object or a class and the property that takes its place. -/
def becomesProperty : Kind → Kind → Bool
  | .method, .keyValue => true
  | .classMethod .method _, .classProp _ => true
  | _, _ => false

/-- Where the part of a tree at an index went in another tree, if it went anywhere. -/
inductive PartGoes (marker : String) : Ast → Ast → Nat → Option Path → Prop
  | item {ts ts' : List Ast} {i : Nat} : PartGoes marker (.list ts) (.list ts') i (some [i])
  | child {k : Kind} {s : Span} {cs cs' : List Ast} {i : Nat} :
    holdsStatements (.node k s cs) = false →
    PartGoes marker (.node k s cs) (.node k s cs') i (some [i])
  -- Statements
  | statement {k : Kind} {s : Span} {ss ss' : List Ast} {i j : Nat} : isStatementList k = true →
    markersOf marker (.node k s ss') = markersOf marker (.node k s ss) → StatementGoes ss ss' i j →
    PartGoes marker (.node k s ss) (.node k s ss') i (some [j])
  | unmarked {s : Span} {m : Ast} {ss ss' : List Ast} {i j : Nat} :
    markersOf marker (.node .block s ss') < markersOf marker (.node .block s (m :: ss)) →
    StatementGoes ss ss' i j →
    PartGoes marker (.node .block s (m :: ss)) (.node .block s ss') (i + 1) (some [j])
  | marker {s : Span} {m : Ast} {ss ss' : List Ast} :
    markersOf marker (.node .block s ss') < markersOf marker (.node .block s (m :: ss)) →
    PartGoes marker (.node .block s (m :: ss)) (.node .block s ss') 0 none
  | test {s : Span} {test test' : Ast} {ss ss' : List Ast} :
    PartGoes marker (.node .switchCase s (test :: ss)) (.node .switchCase s (test' :: ss')) 0
      (some [0])
  | caseStatement {s : Span} {test test' : Ast} {ss ss' : List Ast} {i j : Nat} :
    StatementGoes ss ss' i j →
    PartGoes marker (.node .switchCase s (test :: ss)) (.node .switchCase s (test' :: ss')) (i + 1)
      (some [j + 1])
  -- Functions that give way to their wrappers
  | expression {s : Span} {name f function : Ast} {b : String} {self : Option String}
    {m : Metadata} :
    PartGoes marker (.node .funcExpr s [name, f]) (wrap function b self m) 1 (some wrappedPath)
  | name {s : Span} {name f function : Ast} {b : String} {self : Option String} {m : Metadata} :
    PartGoes marker (.node .funcExpr s [name, f]) (wrap function b self m) 0 none
  | arrow {a : Bool} {s : Span} {ps body function : Ast} {rest : List Ast} {b : String}
    {self : Option String} {m : Metadata} :
    PartGoes marker (.node (.arrow a) s (ps :: body :: rest)) (wrap function b self m) 0
      (some (wrappedPath ++ [0]))
  | arrowBody {a : Bool} {s : Span} {ps body function : Ast} {rest : List Ast} {b : String}
    {self : Option String} {m : Metadata} :
    PartGoes marker (.node (.arrow a) s (ps :: body :: rest)) (wrap function b self m) 1
      (some (wrappedPath ++ [2]))
  | arrowTypes {a : Bool} {s : Span} {ps body function : Ast} {rest : List Ast} {b : String}
    {self : Option String} {m : Metadata} {i : Nat} :
    PartGoes marker (.node (.arrow a) s (ps :: body :: rest)) (wrap function b self m) (i + 2) none
  | key {k k' : Kind} {s s' : Span} {key key' f function : Ast} {rest : List Ast} {b : String}
    {self : Option String} {m : Metadata} : becomesProperty k k' = true →
    PartGoes marker (.node k s [key, f]) (.node k' s' (key' :: wrap function b self m :: rest)) 0
      (some [0])
  | method {k k' : Kind} {s s' : Span} {key key' f function : Ast} {rest : List Ast} {b : String}
    {self : Option String} {m : Metadata} : becomesProperty k k' = true →
    PartGoes marker (.node k s [key, f]) (.node k' s' (key' :: wrap function b self m :: rest)) 1
      (some (1 :: wrappedPath))
  | exported {s : Span} {t t' : Ast} :
    PartGoes marker (.node .exportDefaultDecl s [t]) (.node .exportDefaultExpr s [t']) 0 (some [0])
  -- Functions in wrappers
  | params {a g : Bool} {s : Span} {cs : List Ast} {ps : List Ast} {body : Ast} :
    PartGoes marker (.node (.function a g) s cs) (madeFunction a g ps body) 0 (some [0])
  | body {a g : Bool} {s : Span} {cs : List Ast} {ps : List Ast} {body : Ast} :
    PartGoes marker (.node (.function a g) s cs) (madeFunction a g ps body) 2 (some [2])
  | decorators {a g : Bool} {s : Span} {cs : List Ast} {ps : List Ast} {body : Ast} :
    PartGoes marker (.node (.function a g) s cs) (madeFunction a g ps body) 1 none
  | types {a g : Bool} {s : Span} {cs : List Ast} {ps : List Ast} {body : Ast} {i : Nat} :
    PartGoes marker (.node (.function a g) s cs) (madeFunction a g ps body) (i + 3) none
  | pattern {s : Span} {d p p' : Ast} :
    PartGoes marker (.node .param s [d, p]) (madeParam p') 1 (some [1])
  | paramDecorators {s : Span} {d p p' : Ast} :
    PartGoes marker (.node .param s [d, p]) (madeParam p') 0 none

/-- Where a place of a tree went in another tree, if it went anywhere. -/
inductive Goes (marker : String) : Ast → Ast → Path → Option Path → Prop
  | here {t t' : Ast} : Goes marker t t' [] (some [])
  | part {t t' c c' : Ast} {i : Nat} {ρ π : Path} {o : Option Path} :
    PartGoes marker t t' i (some ρ) → t.parts[i]? = some c → t'.at? ρ = some c' →
    Goes marker c c' π o → Goes marker t t' (i :: π) (o.map (ρ ++ ·))
  | lost {t t' : Ast} {i : Nat} {π : Path} : PartGoes marker t t' i none →
    Goes marker t t' (i :: π) none
  /-- A pattern that is all of a parameter. -/
  | bare {p p' : Ast} {π : Path} {o : Option Path} : Goes marker p p' π o →
    Goes marker p (madeParam p') π (o.map ([1] ++ ·))
  /-- An expression that an arrow returns loses its parentheses. -/
  | paren {s : Span} {e e' : Ast} {π : Path} {o : Option Path} : Goes marker e e' π o →
    Goes marker (.node .paren s [e]) e' (0 :: π) o
  | returned {s : Span} {e e' : Ast} {π : Path} {o : Option Path} : Goes marker e e' π o →
    Goes marker e (.node .block s [.node .returnStmt s [e']]) π (o.map ([0, 0] ++ ·))
  /-- The body of an accessor is the body of the function to which it hands over. -/
  | handed {a g : Bool} {ps : List Ast} {t body : Ast} {b : String} {self : Option String}
    {m : Metadata} {cache : Option String} {π : Path} {o : Option Path} :
    Goes marker t body π o →
    Goes marker t (delegate (wrap (madeFunction a g ps body) b self m) cache) π
      (o.map (delegatedPath cache ++ (wrappedPath ++ [2]) ++ ·))

/-- The tree that stands at a place is unchanged where the place went, if it went anywhere. -/
def Stays (marker : String) (t t' : Ast) (π : Path) (u : Ast) : Prop :=
  ∃ o, Goes marker t t' π o ∧ ∀ π', o = some π' → t'.at? π' = some u

end Worklet
