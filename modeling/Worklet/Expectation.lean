import Worklet.Number.Count
import Worklet.Text.Blank
import Worklet.Text.Quoted
import Worklet.Text.Search
import Worklet.Transform

/-!
# Expectations

A list of statements about the outcome of a transformation, one on a line.

* `Expectation`, `Expectation.readAll` — a statement, and reading a list of them.
-/

set_option autoImplicit false

namespace Worklet

open Syntax

/-- A statement about an outcome. -/
inductive Expectation where
  | contains (text : String)
  | notContains (text : String)
  | count (n : Nat) (text : String)
  | worklets (n : Nat)
  | diagnostics (n : Nat)
  | unchanged
  deriving DecidableEq, Repr, Inhabited

/-- Why a line is no statement. -/
inductive ExpectationFault where
  | noKey (text : String)
  | countForm
  | badCount (text : String) (error : CountError)
  | badWorklets (error : CountError)
  | badDiagnostics (error : CountError)
  | unknownKey (key : String)
  deriving DecidableEq, Repr, Inhabited

/-- A line that is no statement. -/
structure ExpectationError where
  /-- Counted from one. -/
  line : Nat
  fault : ExpectationFault
  deriving DecidableEq, Repr, Inhabited

def ExpectationFault.message : ExpectationFault → String
  | .noKey text => "expected `key: value`, got `" ++ text ++ "`"
  | .countForm => "`count: <n> <text>`"
  | .badCount text e => "bad count `" ++ text ++ "`: " ++ e.message
  | .badWorklets e => "bad worklet count: " ++ e.message
  | .badDiagnostics e => "bad diagnostic count: " ++ e.message
  | .unknownKey key => "unknown assertion `" ++ key ++ "`"

def ExpectationError.message (e : ExpectationError) : String :=
  "line " ++ toString e.line ++ ": " ++ e.fault.message

namespace Expectation

/-- Reads the text after `count:`. -/
def readCounted (value : String) : Except ExpectationFault Expectation :=
  match Text.splitFirst? ' ' value with
  | none => .error .countForm
  | some (n, text) =>
    match readCount n with
    | .error e => .error (.badCount n e)
    | .ok k => .ok (.count k (Text.trim text))

/-- Reads a line without blanks around it. -/
def readLine (line : String) : Except ExpectationFault Expectation :=
  if line == "unchanged" then .ok .unchanged
  else
    match Text.splitFirst? ':' line with
    | none => .error (.noKey line)
    | some (key, rest) =>
      let value := Text.trim rest
      match Text.trim key with
      | "contains" => .ok (.contains value)
      | "not-contains" => .ok (.notContains value)
      | "count" => readCounted value
      | "worklets" => (readCount value).map .worklets |>.mapError .badWorklets
      | "diagnostics" => (readCount value).map .diagnostics |>.mapError .badDiagnostics
      | key => .error (.unknownKey key)

/-- Nothing, or a remark. -/
def isSkipped (line : String) : Bool :=
  line.isEmpty || line.front == '#'

/-- Reads the lines from a number on. -/
def readLines (number : Nat) : List String → Except ExpectationError (List Expectation)
  | [] => .ok []
  | raw :: rest =>
    let line := Text.trim raw
    if isSkipped line then readLines (number + 1) rest
    else
      match readLine line with
      | .error fault => .error ⟨number, fault⟩
      | .ok e => (readLines (number + 1) rest).map (e :: ·)

def readAll (text : String) : Except ExpectationError (List Expectation) :=
  readLines 1 (Text.lines text)

end Expectation

/-- What statements are about. -/
structure Outcome where
  /-- The program as it is printed without a transformation. -/
  baseline : String
  /-- The program as it is printed after the transformation. -/
  code : String
  worklets : Nat
  /-- The texts of the diagnostics. -/
  diagnostics : List String
  deriving DecidableEq, Repr, Inhabited

def Outcome.ofProgram (config : Config) (p : Program) : Outcome :=
  let t := transform config p
  { baseline := printModule config.target p.comments p.module
    code := t.code config.target
    worklets := t.records.length
    diagnostics := t.diagnostics.map Diagnostic.text }

namespace Expectation

/-- The complaint if a condition does not hold. -/
def unlessHolds (condition : Bool) (complaint : String) : Option String :=
  if condition then none else some complaint

/-- What is wrong if the statement does not hold. -/
def complaint? (o : Outcome) : Expectation → Option String
  | .contains text =>
    unlessHolds (Text.holds text o.code) ("expected output to contain `" ++ text ++ "`")
  | .notContains text =>
    unlessHolds (!Text.holds text o.code) ("expected output not to contain `" ++ text ++ "`")
  | .count n text =>
    let found := Text.occurrences text o.code
    unlessHolds (found == n)
      ("expected " ++ toString n ++ " occurrence(s) of `" ++ text ++ "`, found " ++
        toString found)
  | .worklets n =>
    unlessHolds (o.worklets == n)
      ("expected " ++ toString n ++ " worklet(s), found " ++ toString o.worklets)
  | .diagnostics n =>
    let found := o.diagnostics.length
    unlessHolds (found == n)
      ("expected " ++ toString n ++ " diagnostic(s), found " ++ toString found ++ ": " ++
        Text.quotedList o.diagnostics)
  | .unchanged =>
    let expected := Text.trim o.baseline
    let actual := Text.trim o.code
    unlessHolds (actual == expected)
      ("expected output to equal the untransformed print\n--- expected ---\n" ++ expected ++
        "\n--- actual ---\n" ++ actual)

end Expectation

end Worklet
