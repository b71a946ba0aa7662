import Worklet.Convert
import Worklet.Syntax.Parse

/-!
# Transforming a program

* `Transformed` — the converted module with what is known of it.
* `transform` — converts every worklet of a program.
* `Transformed.code` — the printed module.
-/

set_option autoImplicit false

namespace Worklet

open Syntax

/-- A converted module. -/
structure Transformed where
  module : Ast
  /-- The comments that are left. -/
  comments : Comments
  /-- The converted functions. -/
  conversions : List Conversion
  /-- The functions that stay as they are. -/
  diagnostics : List Diagnostic

/-- What is known of the converted functions. -/
def Transformed.records (t : Transformed) : List Record :=
  t.conversions.map Conversion.record

def strictDirective : String := "use strict"

/-- The module with the directive of strict mode at its head. -/
def ensureStrict : Ast → Ast
  | .node (.module shebang) s items =>
    if items.head?.any (isDirective strictDirective) then .node (.module shebang) s items
    else .node (.module shebang) s (madeStatement (madeString strictDirective) :: items)
  | t => t

/-- What does not change while a program is converted. -/
def Job.ofProgram (config : Config) (p : Program) : Job where
  config := config
  table := ScopeTable.ofModule p.module
  filename := p.filename
  position := p.position

/-- Converts every worklet of a program. -/
def transform (config : Config) (p : Program) : Transformed :=
  let job := Job.ofProgram config p
  let start : Progress := { names := UsedNames.ofTree p.module, comments := p.comments }
  let (module, s) := (convertModule job p.module).run start
  { module := if config.strictMode then ensureStrict module else module
    comments := s.comments
    conversions := s.conversions.reverse
    diagnostics := s.diagnostics.reverse }

/-- The text of the converted module. -/
def Transformed.code (t : Transformed) (target : Target) : String :=
  printModule target t.comments t.module

end Worklet
