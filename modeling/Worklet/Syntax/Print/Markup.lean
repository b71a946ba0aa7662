import Worklet.Syntax.Print.Expr

/-!
# Layout of markup
-/

set_option autoImplicit false

namespace Worklet.Syntax

/-- The name of an element or attribute. -/
def markupNameLayout (p : Part) : Print :=
  match p.kind? with
  | some (.ident _) | some (.word _) => p.name
  | _ => p.print

/-- An attribute of an opening tag. -/
def markupAttrLayout (p : Part) : Print :=
  match p.kind? with
  | some .spread => text "\x7b" ++ p.print ++ text "\x7d"
  | _ => p.print

def markupLayout (k : Kind) (s : Span) (ps : List Part) : Print :=
  let at_ (i : Nat) : Part := ps.getD i .absent
  match k with
  | .jsxElement =>
    commented s <|
      (at_ 0).print ++ Print.all ((at_ 1).parts.map Part.print) ++ (at_ 2).print
  | .jsxOpening isSelfClosing =>
    let attrs := (at_ 1).parts
    led s <|
      text "<" ++ markupNameLayout (at_ 0) ++ (at_ 2).print ++
        Print.when (!attrs.isEmpty)
          (blank ++ separated gap (attrs.map markupAttrLayout)) ++
        text (if isSelfClosing then "/>" else ">")
  | .jsxClosing => led s (text "</" ++ markupNameLayout (at_ 0) ++ text ">")
  | .jsxFragment =>
    commented s (text "<>" ++ Print.all (ps.map Part.print) ++ text "</>")
  | .jsxAttr => led s (markupNameLayout (at_ 0) ++ (at_ 1).after (text "="))
  | .jsxContainer => led s (text "\x7b" ++ (at_ 0).print ++ text "\x7d")
  | .jsxEmpty => trailingAt s.lo true
  | .jsxSpreadChild => led s (text "\x7b..." ++ (at_ 0).print ++ text "\x7d")
  | .jsxText raw => text raw
  | .jsxMember => markupNameLayout (at_ 0) ++ text "." ++ (at_ 1).name
  | .jsxNamespaced => (at_ 0).name ++ text ":" ++ (at_ 1).name
  | _ => .nothing

end Worklet.Syntax
