import Worklet.Syntax.Print.Markup
import Worklet.Syntax.Print.Statement
import Worklet.Syntax.Print.TypeExpr

/-!
# Layout of declarations and module items
-/

set_option autoImplicit false

namespace Worklet.Syntax

/-- The names after the first of a nested namespace, and its body. -/
def namespaceBody : Part → Print
  | .mk t p ps =>
    match t.kind?, ps with
    | some .nestedNamespace, [name, body] => text "." ++ name.name ++ namespaceBody body
    | _, _ => gap ++ p

/-- A declaration without the comments around it. -/
def declBody (k : Kind) (ps : List Part) : Print :=
  let at_ (i : Nat) : Part := ps.getD i .absent
  match k with
  | .varDecl .. | .usingDecl _ => varBody k ps ++ semi
  | .funcDecl isDeclare => functionDeclLayout isDeclare (at_ 0) (at_ 1)
  | .classDecl isDeclare => classDeclLayout isDeclare (at_ 0) (at_ 1)
  | .interfaceDecl isDeclare =>
    flag isDeclare "declare" ++ text "interface" ++ blank ++ (at_ 0).name ++ (at_ 1).print ++
      Print.when (!(at_ 2).parts.isEmpty)
        (text " extends " ++ commaList (at_ 2).parts) ++
      gap ++ memberLines (at_ 3).parts
  | .typeAlias isDeclare =>
    flag isDeclare "declare" ++ text "type" ++ blank ++ (at_ 0).name ++ (at_ 1).print ++
      gap ++ text "=" ++ gap ++ (at_ 2).print ++ semi
  | .enumDecl isDeclare isConst =>
    flag isDeclare "declare" ++ flag isConst "const" ++ text "enum" ++ blank ++
      (at_ 0).name ++ gap ++ text "\x7b" ++ lines (text ",") (at_ 1).parts ++ text "\x7d"
  | .namespaceDecl word isDeclare =>
    flag isDeclare "declare" ++
      (match word with
        | .globalWord => .nothing
        | .namespaceWord => text "namespace" ++ blank
        | .moduleWord => text "module" ++ blank) ++
      keyLayout (at_ 0) ++
      if (at_ 1).isPresent then namespaceBody (at_ 1) else semi
  | _ => .nothing

/-- A declaration with its comments, on the line it stands on. -/
def declLayout (p : Part) : Print :=
  match p.kind? with
  | some k =>
    if k.isDeclaration then commented p.span (declBody k p.parts) else p.print
  | none => .nothing

/-- A statement, and the end of its line. A block leaves the line to what follows. -/
def stmtLayout (k : Kind) (s : Span) (ps : List Part) : Print :=
  match k with
  | .block => led s (blockBody s ps)
  | k =>
    let body := if k.isDeclaration then declBody k ps else stmtBody k ps
    commented s body ++ newline

/-- The local name of an import under another. -/
def importName (p : Part) : Print :=
  match p.kind? with
  | some (.importNamed isType) =>
    led p.span <|
      flag isType "type" ++
        (p.at_ 1).given (fun i => keyLayout i ++ text " as ") ++ (p.at_ 0).name
  | _ => p.print

/-- The specifier is a name between braces. -/
def isNamedSpecifier (p : Part) : Bool :=
  match p.kind? with
  | some (.importNamed _) | some (.exportSpecifier _) => true
  | _ => false

/-- Specifiers between braces. -/
def braceList (ps : List Part) (trailingComma : Bool) (item : Part → Print) : Print :=
  text "\x7b" ++
    (if ps.isEmpty then gap
      else
        gap ++ commaList ps item ++ Print.when trailingComma (text "," ++ gap) ++ gap) ++
    text "\x7d"

/-- The source of an import or export and its attributes. -/
def sourceLayout (source attrs : Part) : Print :=
  source.print ++ attrs.after (gap ++ text "with" ++ gap)

def importSpecs (specs : List Part) : Print :=
  let (named, others) := specs.partition isNamedSpecifier
  let others := others.map fun p =>
    match p.kind? with
    | some .importStar => text "*" ++ gap ++ text "as" ++ blank ++ (p.at_ 0).name
    | _ => (p.at_ 0).name
  let braces := if named.isEmpty then [] else [braceList named false importName]
  let all := others ++ braces
  if all.isEmpty then .nothing
  else
    separated (text "," ++ gap) all ++ (if braces.isEmpty then blank else gap) ++ text "from" ++
      gap

def exportSpecs (trailingComma : Bool) (specs : List Part) (hasSource : Bool) : Print :=
  let item (p : Part) : Print := match p.kind? with
    | some (.exportSpecifier isType) =>
      led p.span <|
        flag isType "type" ++ keyLayout (p.at_ 0) ++
          (p.at_ 1).given (fun e => text " as " ++ keyLayout e)
    | _ => p.print
  let (named, others) := specs.partition isNamedSpecifier
  let stars := others.map fun p =>
    led p.span (text "*" ++ gap ++ text "as" ++ blank ++ keyLayout (p.at_ 0))
  let braces :=
    if named.isEmpty && !stars.isEmpty then [] else [braceList named trailingComma item]
  separated (text "," ++ gap) (stars ++ braces) ++
    Print.when hasSource
      ((if braces.isEmpty then blank else gap) ++ text "from" ++ gap)

/-- An import or export without the comments around it. -/
def moduleDeclBody (k : Kind) (ps : List Part) : Print :=
  let at_ (i : Nat) : Part := ps.getD i .absent
  match k with
  | .importDecl isType =>
    text "import" ++ Print.when isType (blank ++ text "type") ++
      (if (at_ 0).parts.isEmpty then gap else wordGap) ++ importSpecs (at_ 0).parts ++
      sourceLayout (at_ 1) (at_ 2) ++ semi
  | .exportDecl => text "export" ++ blank ++ declLayout (at_ 0)
  | .exportNamed isType comma =>
    text "export" ++ gap ++ flag isType "type" ++
      exportSpecs comma (at_ 0).parts (at_ 1).isPresent ++ sourceLayout (at_ 1) (at_ 2) ++ semi
  | .exportAll isType =>
    text "export" ++ gap ++ flag isType "type" ++ text "*" ++ gap ++ text "from" ++ gap ++
      sourceLayout (at_ 0) (at_ 1) ++ semi
  | .exportDefaultDecl => text "export" ++ blank ++ text "default" ++ blank ++ declLayout (at_ 0)
  | .exportDefaultExpr =>
    text "export" ++ blank ++ text "default" ++ wordGap ++ (at_ 0).print ++ semi
  | .importEquals isExport isType =>
    flag isExport "export" ++ text "import" ++ blank ++ flag isType "type" ++ (at_ 0).name ++
      gap ++ text "=" ++ gap ++ (at_ 1).print ++ semi
  | .exportAssign => text "export" ++ gap ++ text "=" ++ gap ++ (at_ 0).print ++ semi
  | .exportAsNamespace => text "export as namespace " ++ (at_ 0).name ++ semi
  | _ => .nothing

def itemLayout (p : Part) : Print :=
  leadingAt p.span.lo ++ p.print ++ trailingAt p.span.hi true

/-- A whole module, or the body of a namespace. -/
def moduleLayout (k : Kind) (s : Span) (ps : List Part) : Print :=
  match k with
  | .module shebang =>
    leadingAt s.lo ++
      (match shebang with
        | some line => text ("#!" ++ line) ++ hardNewline
        | none => .nothing) ++
      Print.all (ps.map itemLayout) ++ trailingAt s.hi true
  | .moduleBlock =>
    led s <|
      text "\x7b" ++ newline ++
        indented (separated newline (ps.map itemLayout)) ++ text "\x7d"
  | .enumMember =>
    led s (keyLayout (ps.getD 0 .absent) ++ (ps.getD 1 .absent).after (gap ++ text "=" ++ gap))
  | .externalModule => led s (text "require(" ++ (ps.getD 0 .absent).print ++ text ")")
  | _ => .nothing

end Worklet.Syntax
