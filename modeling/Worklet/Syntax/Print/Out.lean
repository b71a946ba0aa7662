import Worklet.Syntax.Comment
import Worklet.Target
import Worklet.Text.Ident

/-!
# Text under construction

Printing is a sequence of steps on the text written so far. The indent of a line is written with
its first text. There are two styles: *pretty*, and *compact*, which leaves out all blanks that
separate nothing.

* `Style`, `Out`, `Print` — the style, the state and a step.
* `text`, `blank`, `gap`, `wordGap`, `newline`, `indented` — the basic steps.
-/

set_option autoImplicit false

namespace Worklet.Syntax

structure Style where
  isCompact : Bool
  target : Target
  deriving DecidableEq, Repr, Inhabited

/-- The text so far. -/
structure Out where
  style : Style
  text : String
  indent : Nat
  /-- Nothing has been written on this line. -/
  atLineStart : Bool
  /-- The last text was a word that must not run into the next. -/
  pendingGap : Bool
  /-- The last character written. -/
  last : Char
  /-- Comments that are not printed yet. -/
  comments : Comments

namespace Out

/-- Nothing written yet. -/
def start (style : Style) (comments : Comments) : Out :=
  { style, text := "", indent := 0, atLineStart := true, pendingGap := false, last := ' ',
    comments }

/-- Writes characters that have no line break of the layout in them. -/
def put (o : Out) (s : String) : Out :=
  if s.isEmpty then o
  else
    let begun := if o.atLineStart then o.text ++ "".pushn ' ' (4 * o.indent) else o.text
    { o with text := begun ++ s, atLineStart := false, last := s.back }

def continuesWord (c : Char) : Bool :=
  Text.isIdentPart c || c == '\\'

/-- Writes a piece of the program, parted from the word before it. -/
def write (o : Out) (s : String) : Out :=
  if s.isEmpty then o
  else
    let o := if o.pendingGap && continuesWord s.front then o.put " " else o
    { o.put s with pendingGap := false }

/-- Ends the line, if anything stands on it. -/
def newline (o : Out) : Out :=
  if o.atLineStart then o
  else { o with text := o.text.push '\n', atLineStart := true, pendingGap := false }

end Out

def Print := Out → Out

namespace Print

def nothing : Print := fun o => o

instance : Inhabited Print := ⟨nothing⟩

/-- One step after the other. -/
def seq (a b : Print) : Print := fun o => b (a o)

instance : Append Print := ⟨seq⟩

/-- Steps in order. -/
def all (ps : List Print) : Print := fun o => ps.foldl (fun o p => p o) o

/-- Another step for each style. -/
def byStyle (pretty compact : Print) : Print := fun o =>
  if o.style.isCompact then compact o else pretty o

/-- A step of the pretty style only. -/
def pretty (p : Print) : Print := byStyle p nothing

/-- A step that depends on the target. -/
def byTarget (f : Target → Print) : Print := fun o => f o.style.target o

/-- One of two steps, by what has been written so far. -/
def choose (test : Out → Bool) (yes no : Print) : Print := fun o =>
  if test o then yes o else no o

/-- A text that depends on the style. -/
def styled (f : Style → String) : Print := fun o => o.write (f o.style)

/-- A step under a condition. -/
def when (b : Bool) (p : Print) : Print := if b then p else nothing

end Print

def text (s : String) : Print := fun o => o.write s

def blank : Print := fun o => { o.put " " with pendingGap := false }

/-- A blank of the pretty style. -/
def gap : Print := Print.pretty blank

/-- Parts a word from what follows: by a blank in the pretty style, else only if it has to be. -/
def wordGap : Print :=
  Print.byStyle blank fun o => { o with pendingGap := true }

/-- Parts what was written from a word that follows. -/
def gapBeforeWord : Print :=
  Print.byStyle blank fun o => if Out.continuesWord o.last then blank o else o

/-- Ends the line in the pretty style. -/
def newline : Print := Print.pretty Out.newline

/-- Ends the line in both styles. -/
def hardNewline : Print := Out.newline

def indented (p : Print) : Print :=
  Print.byStyle
    (fun o =>
      let o := p { o with indent := o.indent + 1 }
      { o with indent := o.indent - 1 })
    p

/-! ### Comments -/

/-- One comment. A line comment ends its line; a blank follows a block comment. -/
def comment (spaced : Bool) (c : Comment) : Print := fun o =>
  let o := if spaced then o.put " " else o
  match c.style with
  | .line => (o.put ("//" ++ c.text)).newline
  | .block => (o.put ("/*" ++ c.text ++ "*/")).put " "

/-- The leading comments of a byte. -/
def leadingAt (pos : Nat) : Print := fun o =>
  if pos == 0 then o
  else
    let (cs, comments) := o.comments.takeLeading pos
    cs.foldl (fun o c => comment false c o) { o with comments }

/-- The trailing comments of a byte. -/
def trailingAt (pos : Nat) (spaced : Bool) : Print := fun o =>
  if pos == 0 then o
  else
    let (cs, comments) := o.comments.takeTrailing pos
    cs.foldl (fun o c => comment spaced c o) { o with comments }

/-- There are leading comments at the byte. -/
def Out.hasLeading (o : Out) (pos : Nat) : Bool :=
  !(o.comments.leading.commentsAt pos).isEmpty

end Worklet.Syntax
