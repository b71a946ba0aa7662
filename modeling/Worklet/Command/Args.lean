import Worklet.Target

/-!
# Arguments

* `Command` — what is asked for.
* `Command.ofArgs?` — reads a list of arguments; none means that it is used wrongly.
-/

set_option autoImplicit false

namespace Worklet

structure ConfigOptions where
  /-- The path of a configuration. -/
  config : Option String
  /-- Strict mode, whatever the configuration says. -/
  strict : Bool
  /-- A target, whatever the configuration says. -/
  target : Option Target
  deriving DecidableEq, Repr, Inhabited

/-- What is asked for, of an input file. -/
inductive Command where
  /-- Print the converted module, or write it to a file. -/
  | transform (input : String) (output : Option String) (sourceMap : Bool)
    (options : ConfigOptions)
  /-- List the worklets. -/
  | check (input : String) (options : ConfigOptions)
  /-- Tell all about the worklets. -/
  | inspect (input : String) (json : Bool) (options : ConfigOptions)
  deriving DecidableEq, Repr, Inhabited

namespace Command

/-- The options that a command knows. -/
structure Grammar where
  /-- Options that stand alone. -/
  flags : List String
  /-- Options with a value. -/
  valued : List String
  /-- Letters for options with a value. -/
  letters : List (Char × String) := []

/-- Arguments sorted by what they are. -/
structure Sorted where
  positional : List String := []
  flags : List String := []
  values : List (String × String) := []

namespace Sorted

/-- One more plain argument. -/
def addPositional (s : Sorted) (arg : String) : Sorted :=
  { s with positional := s.positional ++ [arg] }

/-- An option that stands alone, at most once. -/
def addFlag? (s : Sorted) (name : String) : Option Sorted :=
  if s.flags.contains name then none else some { s with flags := name :: s.flags }

/-- An option with its value, at most once. -/
def addValue? (s : Sorted) (name value : String) : Option Sorted :=
  if (s.values.lookup name).isSome then none
  else some { s with values := (name, value) :: s.values }

end Sorted

/-- The argument is no value, because it looks like an option. -/
def looksLikeOption (arg : String) : Bool :=
  match arg.toList with
  | '-' :: _ :: _ => true
  | _ => false

/-- The parts of a long option: its name, and the value after an equals sign. -/
def longParts (cs : List Char) : String × Option String :=
  match cs.span (· != '=') with
  | (name, []) => (String.ofList name, none)
  | (name, _ :: value) => (String.ofList name, some (String.ofList value))

/-- The value that is written in one argument with a letter. -/
def attached : List Char → Option String
  | [] => none
  | '=' :: cs => some (String.ofList cs)
  | cs => some (String.ofList cs)

/-- Sorts arguments. After `--` all are plain. -/
def sort? (g : Grammar) (s : Sorted) : List String → Option Sorted
  | [] => some s
  | arg :: rest =>
    match arg.toList with
    | ['-', '-'] => some (rest.foldl Sorted.addPositional s)
    | '-' :: '-' :: cs =>
      match longParts cs with
      | (name, some value) =>
        if g.valued.contains name then do sort? g (← s.addValue? name value) rest else none
      | (name, none) =>
        if g.flags.contains name then do sort? g (← s.addFlag? name) rest
        else if g.valued.contains name then separate name rest
        else none
    | '-' :: c :: cs =>
      match g.letters.lookup c, attached cs with
      | none, _ => none
      | some name, some value => do sort? g (← s.addValue? name value) rest
      | some name, none => separate name rest
    | _ => sort? g (s.addPositional arg) rest
where
  /-- The value of an option is the next argument. -/
  separate (name : String) : List String → Option Sorted
    | [] => none
    | value :: rest =>
      if looksLikeOption value then none else do sort? g (← s.addValue? name value) rest

def path? (s : String) : Option String :=
  if s.isEmpty then none else some s

/-- A path that may be missing. -/
def pathValue? (s : Sorted) (name : String) : Option (Option String) :=
  match s.values.lookup name with
  | none => some none
  | some v => (path? v).map some

/-- The target, which may be missing. -/
def targetValue? (s : Sorted) : Option (Option Target) :=
  match s.values.lookup "target" with
  | none => some none
  | some v => (Target.ofText? v).map some

def input? (s : Sorted) : Option String :=
  match s.positional with
  | [p] => path? p
  | _ => none

def options? (s : Sorted) : Option ConfigOptions := do
  let config ← pathValue? s "config"
  let target ← targetValue? s
  return { config, strict := s.flags.contains "strict", target }

def transformGrammar : Grammar where
  flags := ["strict", "source-map"]
  valued := ["config", "target", "output"]
  letters := [('o', "output")]

def checkGrammar : Grammar where
  flags := ["strict"]
  valued := ["config", "target"]

def inspectGrammar : Grammar where
  flags := ["strict", "json"]
  valued := ["config", "target"]

/-- Reads the arguments of a program. -/
def ofArgs? : List String → Option Command
  | "transform" :: args => do
    let s ← sort? transformGrammar {} args
    return .transform (← input? s) (← pathValue? s "output") (s.flags.contains "source-map")
      (← options? s)
  | "check" :: args => do
    let s ← sort? checkGrammar {} args
    return .check (← input? s) (← options? s)
  | "inspect" :: args => do
    let s ← sort? inspectGrammar {} args
    return .inspect (← input? s) (s.flags.contains "json") (← options? s)
  | _ => none

def input : Command → String
  | .transform p .. => p
  | .check p _ => p
  | .inspect p _ _ => p

def options : Command → ConfigOptions
  | .transform _ _ _ o => o
  | .check _ o => o
  | .inspect _ _ o => o

end Command

end Worklet
