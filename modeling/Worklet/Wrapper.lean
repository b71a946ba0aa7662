import Worklet.Location
import Worklet.Syntax.Build

/-!
# Self-describing functions

A worklet carries what another runtime needs: the names it captures, its text, a hash of the
text and where it stands.
-/

set_option autoImplicit false

namespace Worklet

open Syntax

/-- What is attached to a worklet. -/
structure Metadata where
  /-- The captured names. -/
  closure : List String
  canonical : String
  hash : Nat
  location : Location
  deriving DecidableEq, Repr, Inhabited

def assignProperty (target prop : String) (value : Ast) : Ast :=
  madeStatement (madeAssign (madeMember (madeIdent target) prop) value)

/-- The statements that attach metadata to a name. -/
def metadataStmts (target : String) (m : Metadata) : List Ast :=
  [assignProperty target "_closure" (made .object (m.closure.map madeIdent)),
    assignProperty target "asString" (madeString m.canonical),
    assignProperty target "__workletHash" (madeNumber m.hash),
    assignProperty target "__location" (madeString m.location.text)]

/-- A call of a function that binds the given one, attaches its metadata and returns it. Inside,
the function is known by its own name, if it has one. -/
def wrap (function : Ast) (binding : String) (selfName : Option String) (m : Metadata) : Ast :=
  let named := madeFunctionExpr (madeIdent (selfName.getD binding)) function
  let body :=
    madeVar .const binding named :: metadataStmts binding m ++ [madeReturn (madeIdent binding)]
  let factory := madeFunction false false [] (madeBlock body)
  madeCall (madeParen (madeFunctionExpr .absent factory)) []

/-- The variable that keeps a wrapped function. -/
def cacheDecl (name : String) : Ast :=
  madeVar .let name .absent

/-- The body of an accessor that hands over to a wrapped function, which is made once if there is
a variable to keep it. -/
def delegate (wrapper : Ast) (cache : Option String) : Ast :=
  let callee :=
    match cache with
    | some name =>
      madeParen
        (made (.binary .logicalOr)
          [madeIdent name, madeParen (madeAssign (madeBinding name) wrapper)])
    | none => wrapper
  madeBlock
    [madeReturn (madeCall (madeMember callee "apply") [made .this [], madeIdent "arguments"])]

end Worklet
