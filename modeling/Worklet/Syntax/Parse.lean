import Worklet.Syntax.Parse.Module
import Worklet.Text.Position

/-!
# Reading a program

Ties the rules of the grammar together and reads whole files.
-/

set_option autoImplicit false

namespace Worklet.Syntax

def rule (go : Rules) : Goal → Parser Ast
  | .expr => exprRule go
  | .assign => assignRule go
  | .binary least => binaryRule go least
  | .unary => unaryRule go
  | .operand => operandRule go
  | .newOperand => newOperandRule go
  | .target => bindingTarget go
  | .element => bindingElement go
  | .type => typeRule go
  | .typeOperator => typeOperatorRule go
  | .block => blockRule go
  | .statement => statementRule go
  | .item => itemRule go
  | .markup => markupRule go

/-- Reads a goal, with parts nested at most `depth` deep. -/
def parse : Nat → Rules
  | 0, _ => fail .tooDeep
  | depth + 1, goal => rule (parse depth) goal

/-- A program that was read. -/
structure Program where
  /-- The file name, as shown in locations. -/
  filename : String
  /-- The text of the file without a byte order mark. -/
  text : List Char
  module : Ast
  comments : Comments

/-- Where and why a file is no program. -/
structure ParseError where
  filename : String
  position : Text.Position
  fault : Fault
  deriving DecidableEq, Repr

/-- The text without a byte order mark at its head. -/
def dropMark : List Char → List Char
  | c :: rest => if c.toNat == 0xfeff then rest else c :: rest
  | [] => []

/-- The line that names an interpreter, if the file begins with one. -/
def shebang? : List Char → Option (List Char)
  | '#' :: '!' :: rest => some (rest.takeWhile fun c => !isLineBreak c)
  | _ => none

/-- The start of a module: a file's first byte is byte one. -/
def fileStart : Nat := 1

/-- The module of a file, with the state in which reading ended. A module begins where
its file does. -/
def readModule (dialect : Dialect) (text : List Char) : Except Failure (Ast × State) :=
  let line? := shebang? text
  let skipped := match line? with
    | some line => 2 + line.length
    | none => 0
  let from_ := fileStart + byteCount (text.take skipped)
  let depth := 40 * (text.length + 10)
  let start := State.start dialect (text.drop skipped) from_
  match (readItems (parse depth)).run start with
  | .ok (items, s) =>
    let hi := if items.isEmpty then s.token.span.lo else s.lastEnd
    .ok (.node (.module (line?.map String.ofList)) ⟨fileStart, hi⟩ items, s)
  | .error e => .error e

namespace Program

/-- Reads a file. -/
def parse (filename source : String) : Except ParseError Program :=
  let text := dropMark source.toList
  match readModule (Dialect.ofFile filename) text with
  | .ok (module, s) => .ok { filename, text, module, comments := s.comments }
  | .error e =>
    .error
      { filename
        position := Text.positionAt text (e.pos - fileStart)
        fault := e.fault }

/-- Line and column of a byte of the file. -/
def position (p : Program) (pos : Nat) : Text.Position :=
  Text.positionAt p.text (pos - fileStart)

end Program

end Worklet.Syntax
