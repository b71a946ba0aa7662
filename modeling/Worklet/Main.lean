import Worklet.Command.Run

/-!
# The program

Reads the files that a command names, and does what the command's effects say.
-/

set_option autoImplicit false

namespace Worklet.Program

/-- The text of an error of the operating system. -/
def errorText : IO.Error → String
  | .noFileOrDirectory .. => "No such file or directory (os error 2)"
  | .permissionDenied .. => "Permission denied (os error 13)"
  | .inappropriateType .. => "Is a directory (os error 21)"
  | e => toString e

/-- The bytes of a file, or why they cannot be had. -/
def readBytes (path : String) : IO (Except String ByteArray) := do
  try
    return .ok (← IO.FS.readBinFile path)
  catch e =>
    return .error (errorText e)

/-- The full name of a file. -/
def realName (path : String) : IO String := do
  try
    return (← IO.FS.realPath path).toString
  catch _ =>
    return path

def readingFor (c : Command) : IO Reading := do
  let input ← readBytes c.input
  let name ← realName c.input
  let config ←
    match c.options.config with
    | some path => readBytes path
    | none => pure (.error "")
  return {
    bytes := fun path => if path == c.input then input else config
    fullName := fun _ => name }

/-- Does what an effect says; a failure ends the program. -/
def perform : List Effect → IO UInt32
  | [] => return 0
  | .print text :: rest => do
    IO.print text
    perform rest
  | .warn text :: rest => do
    IO.eprint text
    perform rest
  | .fail trouble :: _ => do
    IO.eprint trouble.text
    return 1
  | .write path content :: rest => do
    try
      IO.FS.writeFile path content
    catch e =>
      IO.eprint (Trouble.text ⟨errorText e, none⟩)
      return 1
    perform rest

/-- How the program is used. -/
def usage : String :=
  "Rewrite worklet functions into serializable wrappers\n\n" ++
    "Usage: wk transform <INPUT> [-o <OUTPUT>] [--source-map] [OPTIONS]\n" ++
    "       wk check <INPUT> [OPTIONS]\n" ++
    "       wk inspect <INPUT> [--json] [OPTIONS]\n\n" ++
    "Options: --config <CONFIG>, --strict, --target <TARGET>\n"

end Worklet.Program

open Worklet Worklet.Program

/-- Runs the command that the arguments give. -/
def main (args : List String) : IO UInt32 := do
  match Command.ofArgs? args with
  | none =>
    IO.eprint usage
    return 2
  | some c => perform (c.run (← readingFor c))
