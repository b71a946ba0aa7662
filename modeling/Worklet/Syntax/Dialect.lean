/-!
# Dialects

Which dialect of the language a file is written in is told by the ending of its name.

* `Dialect` — plain or typed, each with its options.
-/

set_option autoImplicit false

namespace Worklet.Syntax

inductive Dialect where
  | plain (jsx decorators : Bool)
  /-- The dialect with types; `declarations` is for files that hold no code. -/
  | typed (jsx decorators declarations : Bool)
  deriving DecidableEq, Repr, Inhabited

namespace Dialect

/-- The dialect of a file. Elements are read in every plain file, but in a typed one only where
the name says so. -/
def ofFile (filename : String) : Dialect :=
  if filename.endsWith ".tsx" then .typed true true false
  else if filename.endsWith ".ts" || filename.endsWith ".mts" || filename.endsWith ".cts" then
    .typed false true (filename.endsWith ".d.ts")
  else .plain true false

def isTyped : Dialect → Bool
  | .plain .. => false
  | .typed .. => true

def hasJsx : Dialect → Bool
  | .plain jsx _ => jsx
  | .typed jsx _ _ => jsx

def hasDecorators : Dialect → Bool
  | .plain _ d => d
  | .typed _ d _ => d

end Dialect

end Worklet.Syntax
