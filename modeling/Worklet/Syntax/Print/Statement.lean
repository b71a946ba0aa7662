import Worklet.Syntax.Print.Class

/-!
# Layout of statements
-/

set_option autoImplicit false

namespace Worklet.Syntax

/-- The words and declarators of a declaration of variables, without a semicolon. -/
def varBody (k : Kind) (ps : List Part) : Print :=
  match k with
  | .varDecl kind isDeclare =>
    flag isDeclare "declare" ++ text kind.text ++ wordGap ++ commaList ps
  | .usingDecl isAwait =>
    text (if isAwait then "await using" else "using") ++ wordGap ++ commaList ps
  | _ => .nothing

/-- What a loop assigns to: a declaration stands there without its semicolon. -/
def loopHead (p : Part) : Print :=
  match p.kind? with
  | some (.varDecl kind d) => led p.span (varBody (.varDecl kind d) p.parts)
  | some (.usingDecl a) => led p.span (varBody (.usingDecl a) p.parts)
  | _ => p.print

/-- A statement without the comments behind it and the end of its line. -/
def stmtBody (k : Kind) (ps : List Part) : Print :=
  let at_ (i : Nat) : Part := ps.getD i .absent
  let paren (p : Part) : Print := text "(" ++ p.print ++ text ")"
  match k with
  | .emptyStmt => semi
  | .debuggerStmt => text "debugger" ++ semi
  | .exprStmt => (at_ 0).print ++ semi
  | .returnStmt => text "return" ++ (at_ 0).given (afterWord wordGap) ++ semi
  | .throwStmt => text "throw" ++ afterWord wordGap (at_ 0) ++ semi
  | .ifStmt =>
    let isBlock := match (at_ 1).kind? with
      | some .block => true
      | _ => false
    text "if" ++ gap ++ paren (at_ 0) ++ gap ++ (at_ 1).print ++
      (at_ 2).after (Print.when isBlock gap ++ text "else" ++ wordGap)
  | .whileStmt => text "while" ++ paren (at_ 0) ++ (at_ 1).print
  | .doWhileStmt =>
    text "do" ++ wordGap ++ (at_ 1).print ++ text "while" ++ gap ++ paren (at_ 0) ++
      Print.byTarget fun t => Print.when t.isLegacy semi
  | .forStmt =>
    text "for(" ++ loopHead (at_ 0) ++ text ";" ++ (at_ 1).after gap ++ text ";" ++
      (at_ 2).after gap ++ text ")" ++ (at_ 3).print
  | .forIn =>
    text "for(" ++ loopHead (at_ 0) ++ gapBeforeWord ++ text "in" ++ wordGap ++ (at_ 1).print ++
      text ")" ++ (at_ 2).print
  | .forOf isAwait =>
    text "for" ++ Print.when isAwait (blank ++ text "await") ++ gap ++ text "(" ++
      loopHead (at_ 0) ++ gapBeforeWord ++ text "of" ++ wordGap ++ (at_ 1).print ++ text ")" ++
      (at_ 2).print
  | .labeled => (at_ 0).name ++ text ":" ++ gap ++ (at_ 1).print
  | .breakStmt => text "break" ++ (at_ 0).given (fun l => blank ++ l.name) ++ semi
  | .continueStmt => text "continue" ++ (at_ 0).given (fun l => blank ++ l.name) ++ semi
  | .switchStmt =>
    text "switch" ++ paren (at_ 0) ++ text "\x7b" ++ lines .nothing (at_ 1).parts ++
      text "\x7d"
  | .tryStmt =>
    text "try" ++ gap ++ (at_ 0).print ++ (at_ 1).after gap ++
      (at_ 2).after (gap ++ text "finally")
  | .withStmt => text "with" ++ paren (at_ 0) ++ (at_ 1).print
  | _ => .nothing

/-- A case of a `switch` statement, or the handler of a `try` statement. -/
def clauseLayout (k : Kind) (s : Span) (ps : List Part) : Print :=
  let at_ (i : Nat) : Part := ps.getD i .absent
  match k with
  | .switchCase =>
    let stmts := ps.drop 1
    led s <|
      (if (at_ 0).isPresent then text "case" ++ wordGap ++ (at_ 0).print
        else text "default") ++
        text ":" ++
        Print.when (!stmts.isEmpty)
          (newline ++ indented (separated newline (stmts.map Part.print)))
  | .catchClause =>
    led s <|
      text "catch" ++ gap ++ (at_ 0).given (fun p => text "(" ++ p.print ++ text ")") ++ gap ++
        (at_ 1).print
  | _ => .nothing

/-- A declared variable. -/
def declaratorLayout (s : Span) (ps : List Part) : Print :=
  led s ((ps.getD 0 .absent).print ++
    (ps.getD 1 .absent).after (gap ++ text "=" ++ gap))

end Worklet.Syntax
