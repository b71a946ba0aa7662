import Worklet.Command.Args
import Worklet.Command.Report
import Worklet.Config.Decode

/-!
# Running a command

* `Command.run` — the effects of a command, in order.
-/

set_option autoImplicit false

namespace Worklet

open Syntax

/-- Why a command fails. -/
structure Trouble where
  message : String
  cause : Option String := none
  deriving DecidableEq, Repr, Inhabited

/-- The trouble in words. Each line of the cause is indented. -/
def Trouble.text (t : Trouble) : String :=
  "Error: " ++ t.message ++ "\n" ++
    match t.cause with
    | none => ""
    | some cause => "\nCaused by:\n    " ++ cause.replace "\n" "\n    " ++ "\n"

/-- What running a command does. -/
inductive Effect where
  | print (text : String)
  | warn (text : String)
  | write (path content : String)
  | fail (trouble : Trouble)
  deriving DecidableEq, Repr, Inhabited

/-- How files are read. -/
structure Reading where
  /-- The bytes of a file, or why they cannot be had. -/
  bytes : String → Except String ByteArray
  /-- The full name of a file. -/
  fullName : String → String

namespace Reading

/-- The text of a file, or why it cannot be had. -/
def text (r : Reading) (path : String) : Except String String :=
  match r.bytes path with
  | .error e => .error e
  | .ok bytes =>
    match String.fromUTF8? bytes with
    | some s => .ok s
    | none => .error "stream did not contain valid UTF-8"

/-- The configuration that options ask for. -/
def config (r : Reading) (o : ConfigOptions) : Except Trouble Config := do
  let base ←
    match o.config with
    | none => .ok Config.standard
    | some path =>
      match r.text path with
      | .error e => .error ⟨"failed to read config " ++ path, some e⟩
      | .ok text =>
        match Config.ofText text with
        | .error e => .error ⟨"invalid config " ++ path, some (e.located text)⟩
        | .ok c => .ok c
  return { base with
    strictMode := base.strictMode || o.strict
    target := o.target.getD base.target }

def program (r : Reading) (path : String) : Except Trouble Program :=
  match r.text path with
  | .error e => .error ⟨"failed to read " ++ path, some e⟩
  | .ok text =>
    match Program.parse (r.fullName path) text with
    | .error e =>
      .error ⟨(Location.ofPosition e.filename e.position).text ++ ": " ++ e.fault.message, none⟩
    | .ok p => .ok p

end Reading

namespace Command

/-- What a command does with a transformed file. -/
def effects (config : Config) (filename : String) (t : Transformed) : Command → List Effect
  | .transform input output sourceMap _ =>
    let code := t.code config.target
    let mapPath := output.getD input ++ ".map"
    (match output with
      | some path => Effect.write path code
      | none => .print code) ::
      (if sourceMap then
        [.write mapPath (t.sourceMap filename).pretty,
          .warn ("Source map written to " ++ mapPath ++ "\n")]
      else []) ++
      [.warn t.warnings]
  | .check _ _ =>
    [.print (String.join (t.records.map Record.line)), .warn t.warnings,
      .warn (t.summary filename)]
  | .inspect _ json _ =>
    if json then [.print ((t.document filename).pretty ++ "\n")]
    else [.print (String.join (t.records.map Record.details)), .warn t.warnings]

def run (r : Reading) (c : Command) : List Effect :=
  match r.config c.options with
  | .error trouble => [.fail trouble]
  | .ok config =>
    match r.program c.input with
    | .error trouble => [.fail trouble]
    | .ok p => c.effects config p.filename (Worklet.transform config p)

end Command

end Worklet
