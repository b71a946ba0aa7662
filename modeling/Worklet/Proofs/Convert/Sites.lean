import Worklet.Convert
import Worklet.Survey

/-!
# Where functions stand

The functions of a tree, each with what makes it a worklet: the marker at the head of its body, or
the call whose argument it is.
-/

set_option autoImplicit false

namespace Worklet

open Syntax

/-! ### Slots -/

/-- Where a node stands. -/
inductive Slot where
  /-- Nowhere in particular. -/
  | plain
  /-- In a list of statements. -/
  | statement
  /-- Directly in a default export, whose function it is. -/
  | exported
  /-- Where a function is a worklet. -/
  | function (reason : Reason)
  /-- Where the functions of an object are worklets. -/
  | object
  /-- In such an object. -/
  | property
  /-- The arguments of a call, in which this was detected. -/
  | arguments (detections : List (Nat × Detection))
  deriving DecidableEq, Repr

namespace Slot

def ofDetection : Option Detection → Slot
  | some (.function reason) => .function reason
  | some .objectProperties => .object
  | none => .plain

/-- The slot of a member of a list. -/
def item : Slot → Nat → Slot
  | .arguments detections, i => ofDetection (detections.lookup i)
  | _, _ => .plain

/-- The slot of what stands in parentheses. -/
def inParen : Slot → Slot
  | .function reason => .function reason
  | .object => .object
  | _ => .plain

def inObject : Slot → Slot
  | .object => .property
  | _ => .plain

def atValue (value : Ast) : Slot → Slot
  | .property => if isFunctionLiteral value then .function .objectHookProperty else .plain
  | _ => .plain

/-- Why the slot makes a node a worklet. -/
def detects : Slot → Ast → Option Reason
  | .function reason, .node .funcExpr _ _ => some reason
  | .function reason, .node (.arrow _) _ _ => some reason
  | .property, .node .method _ _ => some .objectHookProperty
  | _, _ => none

end Slot

/-- The slots of the children of a node that stands in a slot. -/
def HookRegistry.childSlot (hooks : HookRegistry) (w : Slot) : Ast → Nat → Slot
  | .node .block _ _, _ => .statement
  | .node .moduleBlock _ _, _ => .statement
  | .node (.module _) _ _, _ => .statement
  | .node .switchCase _ _, _ + 1 => .statement
  | .node .exportDefaultDecl _ [.node .funcExpr _ _], _ => .exported
  | .node .call s (callee :: .list args :: rest), 1 =>
    .arguments (hooks.detect (.node .call s (callee :: .list args :: rest)))
  | .node .paren _ [_], _ => w.inParen
  | .node .object _ _, _ => w.inObject
  | .node .keyValue _ [_, value], 1 => w.atValue value
  | _, _ => .plain

/-! ### Functions -/

/-- A function that a node is. -/
inductive Subject where
  | candidate (c : Candidate)
  /-- A function of a form that is never converted, with its span and its body. -/
  | unsupported (shape : Shape) (span : Span) (body : Ast)

namespace Subject

/-- Where the function stands. -/
def span : Subject → Span
  | .candidate c => c.span
  | .unsupported _ span _ => span

def body : Subject → Ast
  | .candidate c => c.body
  | .unsupported _ _ body => body

/-- All that is attached to the function, or why it stays as it is. -/
def prepare (job : Job) : Subject → Except Refusal Prepared
  | .candidate c => job.prepare c
  | .unsupported shape _ _ => .error (.unsupported shape)

end Subject

/-- The function that a node in a slot is. A function declaration has a name; a default export is a
declaration if it stands among statements, and otherwise nothing. -/
def subject? (w : Slot) : Ast → Option Subject
  | .node (.constructor access opt) s cs =>
    some (.unsupported .constructor s ((Ast.node (.constructor access opt) s cs).child 2))
  | .node (.classMethod kind mods) s [key, f] =>
    if key.isPrivateName then some (.unsupported .privateMethod s (functionBody f))
    else (candidate? (.node (.classMethod kind mods) s [key, f])).map .candidate
  | .node .funcExpr s cs =>
    if w = .exported then none else (candidate? (.node .funcExpr s cs)).map .candidate
  | .node (.funcDecl d) s [name, f] =>
    if name.identName?.isSome then (candidate? (.node (.funcDecl d) s [name, f])).map .candidate
    else none
  | .node .exportDefaultDecl _ [.node .funcExpr _ [name, f]] =>
    if w = .statement ∧ (name.isPresent → name.identName?.isSome) then
      (Candidate.ofFunction .declaration name.identName? f).map .candidate
    else none
  | t => (candidate? t).map .candidate

/-- A function, what its slot says in its favour, and where the functions inside it stand. -/
structure FunctionSite where
  subject : Subject
  detected : Option Reason
  inner : List Span

namespace FunctionSite

/-- Where the function stands. -/
def span (s : FunctionSite) : Span :=
  s.subject.span

def isMarked (marker : String) (s : FunctionSite) : Bool :=
  hasDirective marker s.subject.body

/-- Why the function is a worklet: the marker counts before the slot. -/
def reason? (marker : String) (s : FunctionSite) : Option Reason :=
  if s.isMarked marker then some .directive else s.detected

end FunctionSite

mutual

/-- The functions of a tree that stands in a slot, inner ones first. -/
def functionSites (hooks : HookRegistry) (w : Slot) : Ast → List FunctionSite
  | .absent => []
  | .list ts => functionSitesAll hooks w.item ts
  | .node k s cs =>
    let inside := functionSitesAll hooks (hooks.childSlot w (.node k s cs)) cs
    let own := (subject? w (.node k s cs)).map fun subject =>
      ⟨subject, w.detects (.node k s cs), inside.map (·.span)⟩
    inside ++ own.toList

def functionSitesAll (hooks : HookRegistry) (ws : Nat → Slot) : List Ast → List FunctionSite
  | [] => []
  | t :: ts => functionSites hooks (ws 0) t ++ functionSitesAll hooks (fun i => ws (i + 1)) ts

end

end Worklet
