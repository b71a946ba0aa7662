import Worklet.Config.Hooks
import Worklet.Syntax.Build

/-!
# Calls that take worklets

What `classify_call` of `AutoDetector` says of a call, with `is_rooted_chain` and `callee_name`.
Functions written directly as arguments of known hooks are worklets without a marker.
-/

set_option autoImplicit false

namespace Worklet

open Syntax

/-- Why a function is a worklet. -/
inductive Reason where
  | directive | hookArgument | objectHookProperty | builderCallback
  deriving DecidableEq, Repr, Inhabited

def Reason.name : Reason → String
  | .directive => "explicit-directive"
  | .hookArgument => "hook-argument"
  | .objectHookProperty => "object-hook-property"
  | .builderCallback => "chained-builder-callback"

/-- What an argument of a call is. -/
inductive Detection where
  /-- The argument is a worklet. -/
  | function (reason : Reason)
  /-- The argument is an object whose functions are worklets. -/
  | objectProperties
  deriving DecidableEq, Repr, Inhabited

def Detection.name : Detection → String
  | .function reason => reason.name
  | .objectProperties => "object-properties"

/-- The expression is a function written on the spot. -/
def isFunctionLiteral (e : Ast) : Bool :=
  match e.unparen with
  | .node .funcExpr _ _ => true
  | .node (.arrow _) _ _ => true
  | _ => false

/-- The expression is an object written on the spot. -/
def isObjectLiteral (e : Ast) : Bool :=
  match e.unparen with
  | .node .object _ _ => true
  | _ => false

/-- The name by which a function is called: `name` or `space.name`. -/
def calleeName? : Ast → Option String
  | .node (.ident n) _ _ => some n
  | .node .member _ [_, .node (.word w) _ _] => some w
  | _ => none

namespace HookRegistry

mutual

/-- The receiver is, through any number of members and calls, a call of a builder. -/
def isRooted (hooks : HookRegistry) : Ast → Bool
  | .node .paren _ [e] => hooks.isRooted e
  | .node .call _ (callee :: _) => hooks.isRootedCallee callee
  | .node .member _ [obj, _] => hooks.isRooted obj
  | _ => false

/-- What is called is a builder, or a method of a receiver that begins at one. -/
def isRootedCallee (hooks : HookRegistry) : Ast → Bool
  | .node .paren _ [e] => hooks.isRootedCallee e
  | .node .member _ [obj, prop] =>
    (match obj.unparen, prop with
      | .node (.ident space) _ _, .node (.word ctor) _ _ => hooks.isBuilderRoot space ctor
      | _, _ => false) ||
      hooks.isRooted obj
  | _ => false

end

/-- The callee is a method of a builder's chain. -/
def isBuilderCall (hooks : HookRegistry) : Ast → Bool
  | .node .member _ [obj, .node (.word w) _ _] => hooks.isBuilderMethod w && hooks.isRooted obj
  | _ => false

/-- What the argument at a position is, for a callee of a name. -/
def detectArg (hooks : HookRegistry) (name : String) (isBuilder : Bool) (position : Nat)
    (arg : Ast) : Option Detection :=
  if isFunctionLiteral arg && (hooks.functionHook? name).any (·.accepts position) then
    some (.function .hookArgument)
  else if hooks.isObjectHook name && isObjectLiteral arg then some .objectProperties
  else if isBuilder && isFunctionLiteral arg then some (.function .builderCallback)
  else none

/-- The worklets among the arguments of a call, by position. -/
def detect (hooks : HookRegistry) : Ast → List (Nat × Detection)
  | .node .call _ (callee :: .list args :: _) =>
    let callee := callee.unparen
    match calleeName? callee with
    | none => []
    | some name =>
      let isBuilder := hooks.isBuilderCall callee
      args.zipIdx.filterMap fun (arg, i) =>
        (hooks.detectArg name isBuilder i arg).map fun d => (i, d)
  | _ => []

end HookRegistry

end Worklet
