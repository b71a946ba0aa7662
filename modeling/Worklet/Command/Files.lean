import Worklet.Command.Run

/-!
# A tree of files

A directory in memory, on which commands can be tried out.
-/

set_option autoImplicit false

namespace Worklet

/-- Files by the parts of their full names. Directories are those that files lie in, and those
around the current one. -/
structure FileTree where
  current : List String
  files : List (List String × ByteArray)

/-- What a path leads to. -/
inductive Place where
  | file (name : List String) (bytes : ByteArray)
  | directory (name : List String)
  /-- Nothing is there, but the directory around it is. -/
  | free (name : List String)
  | missing
  | throughFile

/-- Why a path cannot be read or written. -/
inductive PathFault where
  | noEntry
  | notDirectory
  | isDirectory
  deriving DecidableEq, Repr, Inhabited

def PathFault.message : PathFault → String
  | .noEntry => "No such file or directory (os error 2)"
  | .notDirectory => "Not a directory (os error 20)"
  | .isDirectory => "Is a directory (os error 21)"

namespace FileTree

def isDirectory (t : FileTree) (name : List String) : Bool :=
  name.isPrefixOf t.current ||
    t.files.any fun f => name.isPrefixOf f.1 && name.length < f.1.length

/-- What a full name stands for. -/
def at_ (t : FileTree) (name : List String) : Place :=
  match t.files.lookup name with
  | some bytes => .file name bytes
  | none => if t.isDirectory name then .directory name else .free name

/-- Follows the parts of a path. -/
def follow (t : FileTree) (place : Place) : List String → Place
  | [] => place
  | part :: rest =>
    match place with
    | .directory name =>
      if part == "" || part == "." then t.follow place rest
      else if part == ".." then t.follow (.directory name.dropLast) rest
      else t.follow (t.at_ (name ++ [part])) rest
    | .file .. => .throughFile
    | .throughFile => .throughFile
    | _ => .missing

/-- What a path leads to. -/
def find (t : FileTree) (path : String) : Place :=
  let start := if path.startsWith "/" then [] else t.current
  t.follow (.directory start) (path.splitOn "/")

def nameText (name : List String) : String :=
  "/" ++ "/".intercalate name

def bytes (t : FileTree) (path : String) : Except PathFault ByteArray :=
  match t.find path with
  | .file _ bytes => .ok bytes
  | .directory _ => .error .isDirectory
  | .throughFile => .error .notDirectory
  | _ => .error .noEntry

def fullName (t : FileTree) (path : String) : String :=
  match t.find path with
  | .file name _ => nameText name
  | .directory name => nameText name
  | _ => path

def write (t : FileTree) (path content : String) : Except PathFault FileTree :=
  let put (name : List String) : FileTree :=
    { t with files := t.files.filter (·.1 != name) ++ [(name, content.toUTF8)] }
  match t.find path with
  | .file name _ => .ok (put name)
  | .free name => .ok (put name)
  | .directory _ => .error .isDirectory
  | .throughFile => .error .notDirectory
  | .missing => .error .noEntry

/-- How the tree is read. -/
def reading (t : FileTree) : Reading where
  bytes path := (t.bytes path).mapError PathFault.message
  fullName := t.fullName

structure Traces where
  tree : FileTree
  exit : Nat := 0
  stdout : String := ""
  stderr : String := ""

/-- What effects lead to. After a failure nothing more is done. -/
def executeAll (s : Traces) : List Effect → Traces
  | [] => s
  | .print text :: rest => executeAll { s with stdout := s.stdout ++ text } rest
  | .warn text :: rest => executeAll { s with stderr := s.stderr ++ text } rest
  | .write path content :: rest =>
    match s.tree.write path content with
    | .ok tree => executeAll { s with tree } rest
    | .error fault => fail s ⟨fault.message, none⟩
  | .fail trouble :: _ => fail s trouble
where
  fail (s : Traces) (trouble : Trouble) : Traces :=
    { s with exit := 1, stderr := s.stderr ++ trouble.text }

/-- What arguments lead to. Wrong ones change nothing. -/
def execute (t : FileTree) (args : List String) : Traces :=
  match Command.ofArgs? args with
  | none => { tree := t, exit := 2 }
  | some c => executeAll { tree := t } (c.run t.reading)

end FileTree

end Worklet
