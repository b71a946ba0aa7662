import Worklet.Syntax.Parse
import Worklet.Syntax.Print.ModuleItem

/-!
# Printing

* `layout` — how a node of each kind is printed from its parts.
* `partOf` — a tree with its printing steps.
* `printModule` — the text of a module in a style, with its comments.
-/

set_option autoImplicit false

namespace Worklet.Syntax

/-- How a node is printed. -/
def layout (k : Kind) (s : Span) (ps : List Part) : Print :=
  let at_ (i : Nat) : Part := ps.getD i .absent
  match k with
  | .word _ | .computed => keyLayout (.mk (.node k s []) .nothing ps)
  | .classExpr => commented s (classExprLayout (at_ 0) (at_ 1))
  | .new_ | .spread => exprLayout k s ps
  | .bindName _ | .arrayPat _ | .objectPat _ | .restPat | .assignPat | .patProp
  | .patShorthand => patternLayout k s ps
  | .param | .paramProp _ => paramLayout k s ps
  | .keyValue | .nameWithDefault | .getter | .setter | .method => memberOfObject k s ps
  | .constructor .. | .classMethod .. | .classProp _ | .accessorProp _ | .staticBlock
  | .emptyMember | .decorator => classMemberLayout k s ps
  | .switchCase | .catchClause => clauseLayout k s ps
  | .declarator _ => declaratorLayout s ps
  | .callSignature | .constructSignature | .propSignature .. | .getterSignature _
  | .setterSignature _ | .methodSignature .. | .indexSignature .. => signatureLayout k s ps
  | .jsxElement | .jsxOpening _ | .jsxClosing | .jsxFragment | .jsxAttr | .jsxContainer
  | .jsxEmpty | .jsxSpreadChild | .jsxText _ | .jsxMember | .jsxNamespaced =>
    markupLayout k s ps
  | .module _ | .moduleBlock | .enumMember | .externalModule => moduleLayout k s ps
  | k =>
    if k.isExpr then exprLayout k s ps
    else if k.isStmt then stmtLayout k s ps
    else if k.isModuleDecl then commented s (moduleDeclBody k ps) ++ newline
    else typeLayout k s ps

mutual

/-- The tree with its printing steps. -/
def partOf : Ast → Part
  | .absent => .absent
  | .list ts => .mk (.list ts) .nothing (partsOf ts)
  | .node k s cs =>
    let ps := partsOf cs
    .mk (.node k s cs) (layout k s ps) ps

/-- The trees with their printing steps. -/
def partsOf : List Ast → List Part
  | [] => []
  | t :: ts => partOf t :: partsOf ts

end

def printTree (style : Style) (comments : Comments) (t : Ast) : String :=
  ((partOf t).print (Out.start style comments)).text

/-- The text of a module in the pretty style. -/
def printModule (target : Target) (comments : Comments) (module : Ast) : String :=
  printTree ⟨false, target⟩ comments module

end Worklet.Syntax
