import Worklet.Syntax.Print.Literal
import Worklet.Syntax.Print.Part

/-!
# Layout of patterns, keys and functions
-/

set_option autoImplicit false

namespace Worklet.Syntax

/-- A type after a colon, if there is one. -/
def annotation (p : Part) (spaced : Print := blank) : Print :=
  p.after (text ":" ++ spaced)

/-- The mark of what may be left out. -/
def optionalMark (b : Bool) : Print :=
  Print.when b (text "?")

def keyLayout (p : Part) : Print :=
  match p.kind? with
  | some (.word _) | some (.ident _) | some (.privateName _) => p.name
  | some .computed => text "[" ++ (p.at_ 0).print ++ text "]"
  | some (.strLit us raw) => led p.span <| Print.styled fun st => stringText st us raw
  | some (.numLit v raw) => led p.span <| Print.styled fun st => numberText st v raw
  | some (.bigintLit v raw) => led p.span <| Print.styled fun st => bigintText st v raw
  | _ => p.print

/-- A bound name with its mark and type. -/
def boundName (isOptional : Bool) (name ann : Part) : Print :=
  name.name ++ optionalMark isOptional ++ annotation ann

/-- A bound name whose comments behind it are left to others. -/
def boundKey (p : Part) : Print :=
  match p.kind? with
  | some (.bindName o) => boundName o (p.at_ 0) (p.at_ 1)
  | _ => p.print

def patternLayout (k : Kind) (s : Span) (ps : List Part) : Print :=
  let at_ (i : Nat) : Part := ps.getD i .absent
  match k with
  | .bindName o => boundName o (at_ 0) (at_ 1) ++ trailingAt s.hi true
  | .arrayPat o =>
    let es := (at_ 0).parts
    commented s <|
      text "[" ++ commaList es ++ holeComma es ++ text "]" ++ optionalMark o ++
        annotation (at_ 1)
  | .objectPat o =>
    let props := (at_ 0).parts
    commented s <|
      text "\x7b" ++
        Print.when (!props.isEmpty) (gap ++ commaList props ++ gap) ++
        text "\x7d" ++ optionalMark o ++ annotation (at_ 1)
  | .restPat => commented s (text "..." ++ (at_ 0).print ++ annotation (at_ 1))
  | .assignPat =>
    commented s ((at_ 0).print ++ gap ++ text "=" ++ gap ++ (at_ 1).print)
  | .patProp => led s (keyLayout (at_ 0) ++ text ":" ++ gap ++ (at_ 1).print)
  | .patShorthand =>
    led s (boundKey (at_ 0) ++ (at_ 1).after (gap ++ text "=" ++ gap))
  | _ => .nothing

/-! ### Functions -/

def decoratorLines (ps : List Part) : Print :=
  Print.all (ps.map Part.print)

/-- Decorators of a parameter, which begin a new line. -/
def paramDecorators (ps : List Part) : Print :=
  Print.when (!ps.isEmpty) (newline ++ decoratorLines ps)

/-- The words before a parameter that declares a property. -/
def paramWords (m : Modifiers) : Print :=
  (match m.access with
    | some a => text a.text ++ blank
    | none => .nothing) ++
    flag m.isOverride "override" ++ flag m.isReadonly "readonly"

/-- A parameter. -/
def paramLayout (k : Kind) (s : Span) (ps : List Part) : Print :=
  let decs := (ps.getD 0 .absent).parts
  let pat := ps.getD 1 .absent
  match k with
  | .paramProp m => led s (paramDecorators decs ++ paramWords m ++ pat.print)
  | _ => led s (paramDecorators decs ++ pat.print)

/-- The statements of a block between braces. An empty block stays on its line, unless a comment
stands before its closing brace. -/
def blockBody (s : Span) (stmts : List Part) : Print :=
  let closing := if s.isMade then 0 else s.hi - 1
  text "\x7b" ++
    Print.choose (fun o => stmts.isEmpty && !o.hasLeading closing) .nothing
      (lines .nothing stmts) ++
    leadingAt closing ++ text "\x7d"

/-- Parameters between parentheses. -/
def paramList (ps : List Part) : Print :=
  text "(" ++ commaList ps ++ text ")"

/-- Type parameters, parameters and return type of a function node. -/
def signatureOf (f : Part) : Print :=
  (f.at_ 3).print ++ paramList (f.at_ 0).parts ++ annotation (f.at_ 4) gap

/-- Parameters and body of a function node. -/
def functionTail (f : Part) : Print :=
  signatureOf f ++
    if (f.at_ 2).isPresent then gap ++ (f.at_ 2).print else semi

/-- Whether a function node is asynchronous and whether it is a generator. -/
def functionFlags (f : Part) : Bool × Bool :=
  match f.kind? with
  | some (.function a g) => (a, g)
  | _ => (false, false)

def functionExprLayout (name f : Part) : Print :=
  let (isAsync, isGenerator) := functionFlags f
  flag isAsync "async" ++ text "function" ++ Print.when isGenerator (text "*") ++
    name.given (fun n => blank ++ n.name) ++ functionTail f

def functionDeclLayout (isDeclare : Bool) (name f : Part) : Print :=
  let (isAsync, isGenerator) := functionFlags f
  flag isDeclare "declare" ++ flag isAsync "async" ++ text "function" ++
    (if isGenerator then text "*" ++ gap else blank) ++ name.name ++ functionTail f

end Worklet.Syntax
