import Worklet.Config
import Worklet.Document.Printer
import Worklet.Document.Reader

/-!
# Reading configurations

A configuration is an object with some of the four options, or a list of their values in order.
It is decoded in the order of its text, and the first complaint counts.
-/

set_option autoImplicit false

namespace Worklet

/-- What is wrong with a configuration. -/
inductive ConfigCause where
  | malformed (cause : Document.Cause)
  | unknownField (name : String) (known : List String)
  | duplicateField (name : String)
  /-- A value of the wrong type; both are named. -/
  | invalidType (found expected : String)
  | negativePosition (value : Int)
  | unknownTarget (name : String)
  /-- A list with more values than there are options. -/
  | tooLong (count : Nat)
  deriving DecidableEq, Repr

/-- A complaint about a configuration and the byte at which it is shown. -/
structure ConfigError where
  cause : ConfigCause
  pos : Nat
  deriving DecidableEq, Repr

namespace ConfigCause

/-- The wording of a complaint. -/
def message : ConfigCause → String
  | .malformed c => c.message
  | .unknownField name known =>
    "unknown field `" ++ name ++ "`, expected one of " ++
      ", ".intercalate (known.map fun k => "`" ++ k ++ "`")
  | .duplicateField name => "duplicate field `" ++ name ++ "`"
  | .invalidType found expected => "invalid type: " ++ found ++ ", expected " ++ expected
  | .negativePosition n => "invalid value: integer `" ++ toString n ++ "`, expected usize"
  | .unknownTarget name => "Unknown ES version: " ++ name
  | .tooLong n => "invalid length " ++ toString n ++ ", expected fewer elements in array"

/-- The text is no document, or holds more than a configuration. -/
def isMalformed : ConfigCause → Bool
  | .malformed _ => true
  | .tooLong _ => true
  | _ => false

end ConfigCause

namespace Document

/-- How a complaint names a scalar. -/
def Scalar.described : Scalar → String
  | .null => "null"
  | .bool b => "boolean `" ++ (if b then "true" else "false") ++ "`"
  | .integer n => "integer `" ++ toString n ++ "`"
  | .float s v => "floating point `" ++ floatText s v ++ "`"
  | .string s => "string " ++ Text.quoted s

/-- The text breaks off here. -/
def Fault.error (f : Fault) : ConfigError := ⟨.malformed f.cause, f.pos⟩

/-- The complaint that a value is not what was expected. -/
def mismatch (expected : String) : Document → ConfigError
  | .scalar v s => ⟨.invalidType v.described expected, s.stop⟩
  | .array _ _ s => ⟨.invalidType "sequence" expected, s.stop⟩
  | .object _ _ s => ⟨.invalidType "map" expected, s.stop⟩
  | .broken f => f.error

/-- The value behind which a list or object breaks off, if it does. -/
def closed {α : Type} (fault : Option Fault) (a : α) : Except ConfigError α :=
  match fault with
  | some f => .error f.error
  | none => .ok a

/-- A text. -/
def string : Document → Except ConfigError String
  | .scalar (.string s) _ => .ok s
  | v => .error (v.mismatch "a string")

/-- A truth value. -/
def bool : Document → Except ConfigError Bool
  | .scalar (.bool b) _ => .ok b
  | v => .error (v.mismatch "a boolean")

/-- A position among arguments. -/
def position : Document → Except ConfigError Nat
  | .scalar (.integer n) s =>
    if n < 0 then .error ⟨.negativePosition n, s.stop⟩ else .ok n.toNat
  | v => .error (v.mismatch "usize")

/-- The byte at which a complaint is shown that is found behind a value. -/
def settled : Document → Nat
  | .scalar _ s => s.settled
  | .array _ _ s => s.settled
  | .object _ _ s => s.settled
  | .broken f => f.pos

/-- A version of the language. -/
def target (v : Document) : Except ConfigError Target := do
  let s ← v.string
  match Target.ofText? s with
  | some t => return t
  | none => .error ⟨.unknownTarget s, v.settled⟩

def positions : Document → Except ConfigError (List Nat)
  | .array items fault _ => do
    let ns ← items.mapM position
    closed fault ns
  | v => .error (v.mismatch "a sequence")

def stringSet : Document → Except ConfigError (List String)
  | .array items fault _ => do
    let ss ← items.mapM string
    closed fault (ss.foldl insertNew [])
  | v => .error (v.mismatch "a set")

/-- A table of values that `item` decodes. -/
def table {α : Type} (item : Document → Except ConfigError α) :
    Document → Except ConfigError (Table α)
  | .object members fault _ => do
    let es ← members.mapM fun (k, v) => do return (k.text, ← item v)
    closed fault (es.foldl (fun t e => t.put e.1 e.2) [])
  | v => .error (v.mismatch "a map")

/-- Decodes the members of an object of known fields into a record that starts with defaults. -/
def members {α : Type} (known : List String) (set : String → Document → α → Except ConfigError α) :
    List String → α → List (Key × Document) → Except ConfigError α
  | _, a, [] => .ok a
  | seen, a, (k, v) :: rest =>
    if !known.contains k.text then .error ⟨.unknownField k.text known, k.spot.settled⟩
    else if seen.contains k.text then .error ⟨.duplicateField k.text, k.spot.settled⟩
    else do
      let a ← set k.text v a
      members known set (k.text :: seen) a rest

/-- Decodes a record of known fields, written as an object or as the list of its values. -/
def fields {α : Type} (name : String) (known : List String)
    (set : String → Document → α → Except ConfigError α) (start : α) :
    Document → Except ConfigError α
  | .object ms fault _ => do
    let a ← members known set [] start ms
    closed fault a
  | .array items fault s => do
    let a ← (known.zip items).foldlM (fun a (k, v) => set k v a) start
    if items.length > known.length then .error ⟨.tooLong items.length, s.stop⟩
    else closed fault a
  | v => .error (v.mismatch ("struct " ++ name))

end Document

def HookRegistry.fieldNames : List String :=
  ["functionHooks", "objectHooks", "builderRoots", "builderMethods"]

/-- The registry that a value describes. -/
def HookRegistry.ofDocument (v : Document) : Except ConfigError HookRegistry :=
  v.fields "HookRegistry" fieldNames
    (fun field v r => do
      if field == "functionHooks" then
        return { r with functionHooks := ← v.table fun p => do return ⟨← p.positions⟩ }
      else if field == "objectHooks" then return { r with objectHooks := ← v.stringSet }
      else if field == "builderRoots" then
        return { r with builderRoots := ← v.table Document.stringSet }
      else return { r with builderMethods := ← v.stringSet })
    .standard

namespace Config

/-- The fields of a configuration, in order. -/
def fieldNames : List String := ["marker", "target", "strictMode", "hooks"]

/-- The configuration that a value describes. -/
def ofDocument (v : Document) : Except ConfigError Config :=
  v.fields "WorkletConfig" fieldNames
    (fun field v c => do
      if field == "marker" then return { c with marker := ← v.string }
      else if field == "target" then return { c with target := ← v.target }
      else if field == "strictMode" then return { c with strictMode := ← v.bool }
      else return { c with hooks := ← HookRegistry.ofDocument v })
    .standard

/-- The configuration that a text describes. -/
def ofText (text : String) : Except ConfigError Config :=
  let (v, fault) := Document.read text
  match ofDocument v with
  | .ok c => Document.closed fault c
  | .error e => .error e

end Config

/-- The line and column of a byte, lines counted from one and columns in bytes. -/
def lineColumn (text : String) (pos : Nat) : Nat × Nat :=
  let rec go : List Char → Nat → Nat × Nat → Nat × Nat
    | [], _, at_ => at_
    | c :: rest, left, (line, column) =>
      if left < c.utf8Size then (line, column)
      else
        go rest (left - c.utf8Size)
          (if c == '\n' then (line + 1, 0) else (line, column + c.utf8Size))
  go text.toList pos (1, 0)

/-- The complaint with the place at which it is shown. -/
def ConfigError.located (e : ConfigError) (text : String) : String :=
  let (line, column) := lineColumn text e.pos
  e.cause.message ++ " at line " ++ toString line ++ " column " ++ toString column

end Worklet
