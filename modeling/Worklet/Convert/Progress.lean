import Worklet.Canonical
import Worklet.Closure
import Worklet.Config
import Worklet.Detect
import Worklet.Hash
import Worklet.Names
import Worklet.Wrapper

/-!
# Converting one candidate

* `Progress`, `Converting` — what changes, and steps that change it.
-/

set_option autoImplicit false

namespace Worklet

open Syntax

/-- What does not change while a module is converted. -/
structure Job where
  config : Config
  table : ScopeTable
  /-- The file name, as shown in locations. -/
  filename : String
  /-- Line and column of a byte of the file. -/
  position : Nat → Text.Position

/-- A function that was made a worklet. -/
structure Record where
  kind : FunctionKind
  reason : Reason
  name : Option String
  location : Location
  closure : List String
  canonical : String
  hash : Nat
  deriving DecidableEq, Repr, Inhabited

/-- A candidate without its marker, and what is attached to it. -/
structure Prepared where
  candidate : Candidate
  metadata : Metadata

namespace Job

/-- Where a span begins. What was made and not read stands nowhere. -/
def locate (job : Job) (s : Span) : Location :=
  if s.isMade then ⟨job.filename, 0, 0⟩
  else Location.ofPosition job.filename (job.position s.lo)

/-- The block begins with the marker. -/
def isMarked (job : Job) (body : Ast) : Bool :=
  hasDirective job.config.marker body

/-- All that is attached to a candidate, or why it stays as it is. -/
def prepare (job : Job) (c : Candidate) : Except Refusal Prepared :=
  if c.isGenerator then .error (.unsupported .generator)
  else if c.usesSuper then .error (.unsupported .usesSuper)
  else
    let candidate := c.unmarked job.config.marker
    match capture job.table candidate with
    | .error refusal => .error refusal
    | .ok closure =>
      let canonical := canonicalText job.config.target candidate
      .ok
        { candidate
          metadata :=
            { closure := closure.names
              canonical
              hash := workletHash canonical
              location := job.locate c.span } }

end Job

def Prepared.record (p : Prepared) (reason : Reason) : Record where
  kind := p.candidate.kind
  reason := reason
  name := p.candidate.name
  location := p.metadata.location
  closure := p.metadata.closure
  canonical := p.metadata.canonical
  hash := p.metadata.hash

/-- A candidate that was converted, why, and the function as it stands in the result. -/
structure Conversion where
  prepared : Prepared
  reason : Reason
  callable : Ast

def Conversion.record (c : Conversion) : Record :=
  c.prepared.record c.reason

/-- Statements that wait to be put around the statement being converted. -/
structure Frame where
  /-- How many functions and loops are around the list of statements. -/
  depth : Nat
  before : List Ast := []
  after : List Ast := []

/-- What changes while a module is converted. -/
structure Progress where
  /-- The module's names, and those made so far. -/
  names : UsedNames
  /-- The lists of statements around, the nearest first. -/
  frames : List Frame := []
  /-- How many functions and loops are around. -/
  depth : Nat := 0
  /-- The converted functions, the last one first. -/
  conversions : List Conversion := []
  /-- The functions that stay as they are, the last one first. -/
  diagnostics : List Diagnostic := []
  comments : Comments

abbrev Converting := StateM Progress

/-- Reports a function that stays as it is. -/
def report (refusal : Refusal) (location : Location) : Converting Unit :=
  modify fun s => { s with diagnostics := ⟨refusal, location⟩ :: s.diagnostics }

/-- Prepares a candidate and records it with the function that it becomes, or reports why it stays
as it is. A recorded candidate loses the comments inside it. -/
def attempt (job : Job) (c : Candidate) (reason : Reason) (callable : Prepared → Ast) :
    Converting (Option Prepared) := do
  match job.prepare c with
  | .error refusal =>
    report refusal (job.locate c.span)
    return none
  | .ok p =>
    modify fun s =>
      { s with
        comments := s.comments.stripWithin c.span
        conversions := ⟨p, reason, callable p⟩ :: s.conversions }
    return some p

/-- The name by which a wrapped function knows itself. -/
def selfName? (c : Candidate) : Option String :=
  match c.kind with
  | .expression => c.name
  | _ => none

/-- The wrapper of a prepared candidate. What the function is bound to inside is no name that the
function mentions. -/
def Prepared.wrapper (p : Prepared) : Ast :=
  let function := p.candidate.toFunction
  let selfName := selfName? p.candidate
  let names := selfName.toList.foldl UsedNames.insert (UsedNames.ofTree function)
  wrap function (names.freshName canonicalName) selfName p.metadata

/-- The wrapper of a candidate, or of none, if it stays as it is. -/
def wrapped (job : Job) (c : Option Candidate) (reason : Reason) : Converting (Option Ast) := do
  match c with
  | none => return none
  | some c =>
    return (← attempt job c reason fun p => p.candidate.toFunction).map Prepared.wrapper

/-- Changes the nearest frame. -/
def modifyFrame (f : Frame → Frame) : Converting Unit :=
  modify fun s =>
    match s.frames with
    | [] => s
    | frame :: frames => { s with frames := f frame :: frames }

/-- A variable for an accessor's wrapped function, if the accessor is evaluated only once for
each time the statements around it are. -/
def cacheName (base : String) : Converting (Option String) := do
  let s ← get
  match s.frames with
  | frame :: _ =>
    if frame.depth == s.depth then
      let (name, names) := s.names.fresh base
      set { s with names }
      modifyFrame fun f => { f with before := f.before ++ [cacheDecl name] }
      return some name
    else return none
  | [] => return none

/-- The body of an accessor that hands over to a wrapped function. -/
def delegateTo (wrapper : Ast) (base : String) : Converting Ast := do
  return delegate wrapper (← cacheName base)

/-- A step one function or loop deeper. -/
def deeper {α : Type} (step : Converting α) : Converting α := do
  modify fun s => { s with depth := s.depth + 1 }
  let a ← step
  modify fun s => { s with depth := s.depth - 1 }
  return a

/-- A step inside a list of statements of its own. -/
def inFrame {α : Type} (step : Converting α) : Converting α := do
  modify fun s => { s with frames := { depth := s.depth } :: s.frames }
  let a ← step
  modify fun s => { s with frames := s.frames.tail }
  return a

/-- The statements that wait before and after the statement just converted. -/
def takeQueued : Converting (List Ast × List Ast) := do
  let s ← get
  match s.frames with
  | [] => return ([], [])
  | frame :: frames =>
    set { s with frames := { frame with before := [], after := [] } :: frames }
    return (frame.before, frame.after)

end Worklet
