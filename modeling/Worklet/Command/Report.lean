import Worklet.Document.Printer
import Worklet.Transform

/-!
# Reports

The texts that tell about worklets.
-/

set_option autoImplicit false

namespace Worklet

namespace Record

/-- The worklet in one line. -/
def line (r : Record) : String :=
  r.location.text ++ ": " ++ r.reason.name ++ " " ++ r.name.getD "<anonymous>" ++ " (" ++
    r.kind.label ++ ")\n"

/-- All about the worklet. -/
def details (r : Record) : String :=
  r.location.text ++ " [" ++ r.reason.name ++ "]\n" ++
    "  closure:   " ++ ", ".intercalate r.closure ++ "\n" ++
    "  hash:      " ++ toString r.hash ++ "\n" ++
    "  canonical: " ++ r.canonical ++ "\n"

/-- All about the worklet, as a document. -/
def document (r : Record) : Document :=
  .record
    [("kind", .str r.kind.name), ("reason", .str r.reason.name), ("name", .optionStr r.name),
      ("location",
        .record
          [("file", .str r.location.file), ("line", .nat r.location.line),
            ("column", .nat r.location.column)]),
      ("closure", .list (r.closure.map .str)), ("canonical", .str r.canonical),
      ("hash", .nat r.hash)]

end Record

def Diagnostic.warning (d : Diagnostic) : String :=
  "warning: " ++ d.text ++ "\n"

namespace Transformed

def warnings (t : Transformed) : String :=
  String.join (t.diagnostics.map Diagnostic.warning)

/-- How many worklets and diagnostics there are. -/
def summary (t : Transformed) (filename : String) : String :=
  filename ++ ": " ++ toString t.records.length ++ " worklet(s), " ++
    toString t.diagnostics.length ++ " diagnostic(s)\n"

/-- All about the worklets, as a document. -/
def document (t : Transformed) (filename : String) : Document :=
  .record
    [("file", .str filename), ("worklets", .list (t.records.map Record.document)),
      ("diagnostics", .list (t.diagnostics.map fun d => .str d.text))]

/-- Something of the printed text stands in the file: a comment, a statement that was read, or
the empty module itself. -/
def hasSource (t : Transformed) : Bool :=
  t.comments.size != 0 || t.module.children.isEmpty ||
    t.module.children.any fun item => !item.span.isMade

/-- The map from the printed text to the file. It names the file and gives no positions. -/
def sourceMap (t : Transformed) (filename : String) : Document :=
  .record
    [("version", .nat 3),
      ("sources", .list (if t.hasSource then [.str filename] else [])),
      ("names", .list []), ("mappings", .str "")]

end Transformed

end Worklet
