import Worklet.Convert.Progress

/-!
# Converting a module

The pass of `WorkletRewriter`: its visits of expressions, members, declarations and lists of
statements, with `prepare`, `process` and `delegate` for one candidate.

Parts are converted before the whole, so that the text of an outer worklet holds the inner ones
as they were converted. A function that is converted becomes a call and is no candidate again; a
declaration keeps its place, and what is attached to it follows it.
-/

set_option autoImplicit false

namespace Worklet

open Syntax

/-- A function expression, if it can be converted, gives way to its wrapper. -/
def convertFunctionExpr (job : Job) (reason : Reason) : Ast → Converting Ast
  | .node .paren s [e] => do return .node .paren s [← convertFunctionExpr job reason e]
  | t => do return (← wrapped job (Candidate.ofExpr t) reason).getD t

/-- The body of a function or arrow expression. -/
def exprBody : Ast → Ast
  | .node .funcExpr _ [_, f] => functionBody f
  | .node (.arrow a) s cs => (Ast.node (.arrow a) s cs).child 1
  | _ => .absent

/-- A marked function expression gives way to its wrapper. -/
def convertExpr (job : Job) (t : Ast) : Converting Ast :=
  if job.isMarked (exprBody t) then convertFunctionExpr job .directive t else pure t

/-- A method of an object gives way to a property. -/
def convertMethod (job : Job) (reason : Reason) : Ast → Converting Ast
  | .node .method s [key, f] => do
    match ← wrapped job (Candidate.ofFunction .objectMethod (keyText key) f) reason with
    | some w => return made .keyValue [key, w]
    | none => return .node .method s [key, f]
  | t => return t

/-- A function among the properties of a hook's object gives way to its wrapper. -/
def convertHookProp (job : Job) : Ast → Converting Ast
  | .node .method s cs => convertMethod job .objectHookProperty (.node .method s cs)
  | .node .keyValue s [key, value] => do
    if isFunctionLiteral value then
      return .node .keyValue s [key, ← convertFunctionExpr job .objectHookProperty value]
    else return .node .keyValue s [key, value]
  | t => return t

/-- The functions of a hook's object give way to their wrappers. -/
def convertHookObject (job : Job) : Ast → Converting Ast
  | .node .paren s [e] => do return .node .paren s [← convertHookObject job e]
  | .node .object s ps => do return .node .object s (← ps.mapM (convertHookProp job))
  | t => return t

/-- An argument gives way to what was detected in it. -/
def convertArg (job : Job) (detections : List (Nat × Detection)) (arg : Ast × Nat) :
    Converting Ast :=
  match detections.lookup arg.2 with
  | some (.function reason) => convertFunctionExpr job reason arg.1
  | some .objectProperties => convertHookObject job arg.1
  | none => pure arg.1

/-- The detected arguments of a call give way to their wrappers. -/
def convertCall (job : Job) : Ast → Converting Ast
  | .node .call s (callee :: .list args :: rest) => do
    let detections := job.config.hooks.detect (.node .call s (callee :: .list args :: rest))
    let args ← args.zipIdx.mapM (convertArg job detections)
    return .node .call s (callee :: .list args :: rest)
  | t => return t

/-- The function with another body. -/
def withBody (body : Ast) : Ast → Ast
  | .node (.function a g) s (params :: decorators :: _ :: rest) =>
    .node (.function a g) s (params :: decorators :: body :: rest)
  | t => t

/-- The function of a declaration with another body. A declaration has no decorators. -/
def declaredWith (body : Ast) : Ast → Ast
  | .node (.function a g) s (params :: _ :: _ :: rest) =>
    .node (.function a g) s (params :: .list [] :: body :: rest)
  | t => t

/-- A marked function of a name loses its marker, and what is attached to it is put after the
statement. -/
def convertDeclared (job : Job) (name f : Ast) : Converting Ast := do
  match name.identName?, (← get).frames with
  | some n, _ :: _ =>
    if job.isMarked (functionBody f) then
      match Candidate.ofFunction .declaration (some n) f with
      | none => return f
      | some c =>
        match ← attempt job c .directive fun p => declaredWith p.candidate.body f with
        | none => return f
        | some p =>
          modifyFrame fun frame =>
            { frame with after := frame.after ++ metadataStmts n p.metadata }
          return withBody p.candidate.body f
    else return f
  | _, _ => return f

/-- The base of the names of variables for getters. -/
def getterCache : String := "_workletGetter"

/-- The base of the names of variables for setters. -/
def setterCache : String := "_workletSetter"

/-- A marked method of an object gives way to a property; a marked accessor hands over to its
wrapper. -/
def convertProp (job : Job) : Ast → Converting Ast
  | .node .method s [key, f] =>
    if job.isMarked (functionBody f) then convertMethod job .directive (.node .method s [key, f])
    else pure (.node .method s [key, f])
  | .node .getter s [key, type, body] => do
    let t := Ast.node .getter s [key, type, body]
    if job.isMarked body then
      match ← wrapped job (Candidate.ofGetter t) .directive with
      | some w => return .node .getter s [key, type, ← delegateTo w getterCache]
      | none => return t
    else return t
  | .node .setter s [key, this, param, body] => do
    let t := Ast.node .setter s [key, this, param, body]
    if job.isMarked body then
      match ← wrapped job (Candidate.ofSetter t) .directive with
      | some w => return .node .setter s [key, this, param, ← delegateTo w setterCache]
      | none => return t
    else return t
  | t => return t

/-- A marked method of a class gives way to a property, and a marked accessor hands over to its
wrapper. Private methods and constructors are reported. -/
def convertMember (job : Job) : Ast → Converting Ast
  | .node (.classMethod kind mods) s [key, f] => do
    let t := Ast.node (.classMethod kind mods) s [key, f]
    if !job.isMarked (functionBody f) then return t
    else if key.isPrivateName then
      report (.unsupported .privateMethod) (job.locate s)
      return t
    else
      let form := FunctionKind.ofMethod kind mods.isStatic
      match ← wrapped job (Candidate.ofFunction form (keyText key) f) .directive with
      | none => return t
      | some w =>
        match kind with
        | .getter =>
          return .node (.classMethod kind mods) s [key, withBody (← delegateTo w getterCache) f]
        | .setter =>
          return .node (.classMethod kind mods) s [key, withBody (← delegateTo w setterCache) f]
        | .method =>
          let kept : Modifiers :=
            { access := mods.access, isStatic := mods.isStatic, isOptional := mods.isOptional
              isOverride := mods.isOverride }
          return .node (.classProp kept) s [key, w, .absent, .list []]
  | .node (.constructor access opt) s cs => do
    let t := Ast.node (.constructor access opt) s cs
    if job.isMarked (t.child 2) then report (.unsupported .constructor) (job.locate s)
    return t
  | t => return t

/-- A marked default export of a module: a function of a name is a declaration, and one without a
name gives way to its wrapper. -/
def convertItem (job : Job) : Ast → Converting Ast
  | .node .exportDefaultDecl s [.node .funcExpr fs [name, f]] => do
    if name.isPresent then
      let f ← convertDeclared job name f
      return .node .exportDefaultDecl s [.node .funcExpr fs [name, f]]
    else if job.isMarked (functionBody f) then
      match ← wrapped job (Candidate.ofFunction .declaration none f) .directive with
      | some w => return .node .exportDefaultExpr s [w]
      | none => return .node .exportDefaultDecl s [.node .funcExpr fs [name, f]]
    else return .node .exportDefaultDecl s [.node .funcExpr fs [name, f]]
  | t => return t

/-- A node whose parts are converted. -/
def convertNode (job : Job) (t : Ast) : Converting Ast :=
  match t with
  | .node .funcExpr _ _ => convertExpr job t
  | .node (.arrow _) _ _ => convertExpr job t
  | .node .call _ _ => convertCall job t
  | .node (.funcDecl d) s [name, f] => do
    return .node (.funcDecl d) s [name, ← convertDeclared job name f]
  | .node .method _ _ => convertProp job t
  | .node .getter _ _ => convertProp job t
  | .node .setter _ _ => convertProp job t
  | .node (.classMethod _ _) _ _ => convertMember job t
  | .node (.constructor _ _) _ _ => convertMember job t
  | t => pure t

/-- Code inside the node can run more often than the statements around it. -/
def isRepeated : Kind → Bool
  | .function .. | .arrow _ | .getter | .setter | .constructor .. | .forStmt | .forIn | .forOf _
  | .whileStmt | .doWhileStmt => true
  | _ => false

/-- A step inside a node. -/
def within {α : Type} (k : Kind) (step : Converting α) : Converting α :=
  if isRepeated k then deeper step else step

mutual

/-- Converts a tree, its parts first. -/
def convertTree (job : Job) : Ast → Converting Ast
  | .absent => pure .absent
  | .list ts => do return .list (← convertAll job ts)
  | .node .block s stmts => do return .node .block s (← inFrame (convertStmts job stmts))
  | .node .moduleBlock s items => do
    return .node .moduleBlock s (← inFrame (convertStmts job items))
  | .node (.module shebang) s items => do
    return .node (.module shebang) s (← inFrame (convertStmts job items))
  | .node .switchCase s (test :: stmts) => do
    let test ← convertTree job test
    return .node .switchCase s (test :: (← inFrame (convertStmts job stmts)))
  | .node .exportDefaultDecl s [.node .funcExpr fs cs] => do
    return .node .exportDefaultDecl s [.node .funcExpr fs (← convertAll job cs)]
  | .node k s cs => do
    let cs ← within k (convertAll job cs)
    convertNode job (.node k s cs)

/-- Converts trees from the first to the last. -/
def convertAll (job : Job) : List Ast → Converting (List Ast)
  | [] => pure []
  | t :: ts => do
    let t ← convertTree job t
    let ts ← convertAll job ts
    return t :: ts

/-- Converts the statements of a list, with what is put around each. -/
def convertStmts (job : Job) : List Ast → Converting (List Ast)
  | [] => pure []
  | t :: ts => do
    let t ← convertTree job t
    let t ← convertItem job t
    let (before, after) ← takeQueued
    let ts ← convertStmts job ts
    return before ++ t :: after ++ ts

end

/-- Converts the items of a module. No other tree is a program. -/
def convertModule (job : Job) : Ast → Converting Ast
  | .node (.module shebang) s items => do
    return .node (.module shebang) s (← inFrame (convertStmts job items))
  | t => pure t

end Worklet
