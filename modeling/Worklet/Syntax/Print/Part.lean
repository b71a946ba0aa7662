import Worklet.Syntax.Print.Out
import Worklet.Syntax.Ast

/-!
# Printed parts

A tree in which every node has its printing step beside it, so that the layout of a node can use
both the printed children and their structure.

* `commaList`, `lines` — the two forms of a list.
-/

set_option autoImplicit false

namespace Worklet.Syntax

/-- A piece of syntax with the step that prints it and the parts inside it. -/
inductive Part where
  | mk (tree : Ast) (print : Print) (parts : List Part)

namespace Part

def tree : Part → Ast
  | .mk t _ _ => t

/-- The step that prints the syntax where an expression or a statement is asked for. -/
def print : Part → Print
  | .mk _ p _ => p

def parts : Part → List Part
  | .mk _ _ ps => ps

def absent : Part := .mk .absent .nothing []

instance : Inhabited Part := ⟨absent⟩

def at_ (p : Part) (i : Nat) : Part :=
  p.parts.getD i absent

def kind? (p : Part) : Option Kind := p.tree.kind?

/-- The place of the node. -/
def span (p : Part) : Span := p.tree.span

def isPresent (p : Part) : Bool := p.tree.isPresent

/-- A step on the part, if it is there. -/
def given (p : Part) (f : Part → Print) : Print :=
  if p.isPresent then f p else .nothing

/-- The part with a text before it, if it is there. -/
def after (p : Part) (s : Print) : Print :=
  p.given fun p => s ++ p.print

/-- The part with a text behind it, if it is there. -/
def before (p : Part) (s : Print) : Print :=
  p.given fun p => p.print ++ s

/-- A name with the comments before it. -/
def name (p : Part) : Print :=
  leadingAt p.span.lo ++
    match p.kind? with
    | some (.ident n) => text n
    | some (.word n) => text n
    | some (.privateName n) => text ("#" ++ n)
    | _ => p.print

end Part

/-- Prints with the comments before and behind it. -/
def commented (s : Span) (p : Print) : Print :=
  leadingAt s.lo ++ p ++ trailingAt s.hi true

/-- Prints with the comments before it. -/
def led (s : Span) (p : Print) : Print :=
  leadingAt s.lo ++ p

/-- A word and a blank, if the flag is set. -/
def flag (b : Bool) (word : String) : Print :=
  Print.when b (text word ++ blank)

/-- A semicolon. -/
def semi : Print := text ";"

/-! ### Lists -/

/-- Steps with a separator between them. -/
def separated (sep : Print) : List Print → Print
  | [] => .nothing
  | [p] => p
  | p :: rest => p ++ sep ++ separated sep rest

/-- A list on one line. A comment that trails an item follows it directly. -/
def inlineList (sep : Print) (ps : List Part) (item : Part → Print := Part.print) : Print :=
  separated sep (ps.map fun p => item p ++ trailingAt p.span.hi false)

def commaList (ps : List Part) (item : Part → Print := Part.print) : Print :=
  inlineList (text "," ++ gap) ps item

/-- A list on lines of its own, indented. An empty list still ends the line. -/
def lines (sep : Print) (ps : List Part) (item : Part → Print := Part.print) : Print :=
  if ps.isEmpty then newline
  else newline ++ indented (separated (sep ++ newline) (ps.map item)) ++ newline

def endsInHole (ps : List Part) : Bool :=
  match ps.getLast? with
  | some p => !p.isPresent
  | none => false

/-- The comma that keeps a hole at the end of a list. -/
def holeComma (ps : List Part) : Print :=
  Print.when (endsInHole ps) (text "," ++ gap)

end Worklet.Syntax
