import Worklet.Syntax.Print.Pattern

/-!
# Layout of expressions
-/

set_option autoImplicit false

namespace Worklet.Syntax

/-- Arguments between parentheses. -/
def argList (ps : List Part) : Print :=
  text "(" ++ commaList ps ++ text ")"

/-- A `new` expression; the compact style may leave out empty parentheses. -/
def newLayout (mayDrop : Bool) (s : Span) (ps : List Part) : Print :=
  let callee := ps.getD 0 .absent
  let args := ps.getD 1 .absent
  let targs := ps.getD 2 .absent
  led s <|
    text "new" ++ wordGap ++ callee.print ++ targs.print ++
      args.given fun a =>
        let full := argList a.parts
        if mayDrop && a.parts.isEmpty then Print.byStyle full .nothing else full

/-- An expression whose parts are used: a `new` expression keeps its parentheses there. -/
def usedOperand (p : Part) : Print :=
  match p.kind? with
  | some .new_ => newLayout false p.span p.parts
  | _ => p.print

/-- The operand of a member access: a whole number needs a dot of its own. -/
def memberObject (isNamed : Bool) (p : Part) : Print :=
  match p.kind? with
  | some (.numLit v raw) =>
    led p.span <| Print.styled fun st =>
      numberText st v raw ++ if isNamed && swallowsDot st v raw then "." else ""
  | _ => usedOperand p

/-- The member after an object. -/
def memberLayout (obj prop : Part) : Print :=
  match prop.kind? with
  | some .computed => memberObject false obj ++ keyLayout prop
  | some (.privateName _) => memberObject false obj ++ text "." ++ prop.name
  | _ =>
    memberObject true obj ++
      (if prop.span.isMade then .nothing else leadingAt (prop.span.lo - 1)) ++ text "." ++
      prop.name

/-- The member after an object in an optional chain. -/
def optMemberLayout (isOptional : Bool) (obj prop : Part) : Print :=
  let isComputed := match prop.kind? with
    | some .computed => true
    | _ => false
  usedOperand obj ++
    (if isOptional then text "?." else if isComputed then .nothing else text ".") ++
    keyLayout prop

/-- A blank keeps the operand from joining its operator. -/
def unaryNeedsBlank (op : UnaryOp) (arg : Part) : Bool :=
  match op, arg.kind? with
  | .plus, some (.update .increment true) => true
  | .plus, some (.unary .plus) => true
  | .minus, some (.update .decrement true) => true
  | .minus, some (.unary .minus) => true
  | _, _ => false

/-- A blank keeps the left operand from joining the operator. -/
def blankBeforeOperator (op : BinaryOp) (left : Part) : Bool :=
  match left.kind? with
  | some (.update .decrement false) =>
    op == .gt || op == .shr || op == .shrUnsigned || op == .ge
  | _ => false

/-- A blank keeps the right operand from joining the operator; looks at most `fuel` operands
deep. -/
def blankAfterOperator (op : BinaryOp) : Nat → Part → Bool
  | 0, _ => false
  | fuel + 1, right =>
    match right.kind? with
    | some (.update .decrement true) => op == .sub
    | some (.update .increment true) => op == .add
    | some (.unary .plus) => op == .add
    | some (.unary .minus) => op == .sub
    | some (.unary .not) =>
      (op == .lt || op == .shl) &&
        match (right.at_ 0).kind? with
        | some (.update .decrement true) => true
        | _ => false
    | some (.binary _) => blankAfterOperator op fuel (right.at_ 0)
    | _ => false

/-- Operands with an operator between them. -/
def binaryLayout (op : BinaryOp) (l r : Part) : Print :=
  if op.isWord then l.print ++ gapBeforeWord ++ text op.text ++ wordGap ++ r.print
  else
    l.print ++ (if blankBeforeOperator op l then blank else gap) ++ text op.text ++
      (if blankAfterOperator op 64 r then blank else gap) ++ r.print

/-- An operand after a word; one that a comment leads stands in parentheses. -/
def afterWord (needsGap : Print) (p : Part) : Print :=
  Print.choose (fun o => !p.span.isMade && o.hasLeading p.span.lo)
    (text "(" ++ p.print ++ text ")") (needsGap ++ p.print)

/-- An arrow function has one plain name as its parameter. -/
def hasPlainParam (ps : List Part) : Bool :=
  match ps with
  | [p] =>
    match p.kind? with
    | some (.bindName _) => true
    | _ => false
  | _ => false

def arrowLayout (isAsync : Bool) (params body tps ret : Part) : Print :=
  let ps := params.parts
  let plain := hasPlainParam ps
  Print.when isAsync (text "async" ++ if plain then blank else gap) ++
    tps.print ++
    (if plain then Print.byStyle (paramList ps) (commaList ps) else paramList ps) ++
    annotation ret gap ++ text "=>" ++
    match body.kind? with
    | some .block => body.print
    | _ => indented body.print

/-- Texts and substitutions of a template; `plainText` writes a text. -/
def templateLayout (es texts : List Part) (plainText : String → Print) : Print :=
  let textOf (p : Part) : Print := match p.kind? with
    | some (.quasi raw) => plainText raw
    | _ => .nothing
  let rec go : List Part → List Part → Print
    | t :: ts, e :: es => textOf t ++ text "$\x7b" ++ e.print ++ text "\x7d" ++ go ts es
    | t :: _, [] => textOf t
    | [], _ => .nothing
  text "`" ++ go texts es ++ text "`"

/-- A template that no function is applied to. -/
def plainTemplate (t : Part) : Print :=
  templateLayout (t.at_ 0).parts (t.at_ 1).parts fun raw =>
    Print.styled fun st => quasiText st raw

/-- A template that a function is applied to keeps its text. -/
def taggedTemplate (t : Part) : Print :=
  templateLayout (t.at_ 0).parts (t.at_ 1).parts text

/-- A property of an object literal. -/
def propLayout (p : Part) : Print :=
  match p.kind? with
  | some (.ident _) => p.name
  | _ => p.print

/-- A word before a key: the two are parted in the compact style only if the key needs it. -/
def keyWord (word : String) (key : Part) : Print :=
  text word ++
    match key.kind? with
    | some (.strLit ..) | some .computed => gap
    | _ => blank

/-- Layout of a property that is no name. -/
def memberOfObject (k : Kind) (s : Span) (ps : List Part) : Print :=
  let at_ (i : Nat) : Part := ps.getD i .absent
  match k with
  | .keyValue => led s (keyLayout (at_ 0) ++ text ":" ++ gap ++ (at_ 1).print)
  | .nameWithDefault =>
    led s ((at_ 0).name ++ gap ++ text "=" ++ gap ++ (at_ 1).print)
  | .getter =>
    led s <|
      keyWord "get" (at_ 0) ++ keyLayout (at_ 0) ++ gap ++ text "(" ++ text ")" ++
        gap ++ (at_ 2).print
  | .setter =>
    led s <|
      keyWord "set" (at_ 0) ++ keyLayout (at_ 0) ++ gap ++ text "(" ++
        (at_ 1).before (text "," ++ gap) ++ (at_ 2).print ++ text ")" ++ (at_ 3).print
  | .method =>
    let (isAsync, isGenerator) := functionFlags (at_ 1)
    led s <|
      flag isAsync "async" ++ Print.when isGenerator (text "*") ++ keyLayout (at_ 0) ++ gap ++
        functionTail (at_ 1)
  | _ => .nothing

/-- The words of an expression, without the comments around it. -/
def exprBody (k : Kind) (s : Span) (ps : List Part) : Print :=
  let at_ (i : Nat) : Part := ps.getD i .absent
  match k with
  | .ident n => text n
  | .privateName n => text ("#" ++ n)
  | .nullLit => text "null"
  | .boolLit b => text (if b then "true" else "false")
  | .numLit v raw => Print.styled fun st => numberText st v raw
  | .strLit us raw => Print.styled fun st => stringText st us raw
  | .bigintLit v raw => Print.styled fun st => bigintText st v raw
  | .regexLit p f => text ("/" ++ p ++ "/" ++ f)
  | .template => plainTemplate (.mk .absent .nothing ps)
  | .this => text "this"
  | .superWord => text "super"
  | .importWord => text "import"
  | .newTarget => text "new.target"
  | .importMeta => text "import.meta"
  | .array =>
    if ps.isEmpty then text "[]"
    else
      text "[" ++ newline ++
        indented (separated (text "," ++ newline) (ps.map Part.print) ++ holeComma ps) ++
        newline ++ text "]"
  | .object =>
    let closing := if s.isMade then 0 else s.hi - 1
    text "\x7b" ++
      Print.choose (fun o => ps.isEmpty && !o.hasLeading closing) .nothing
        (lines (text ",") ps propLayout) ++
      text "\x7d"
  | .funcExpr => functionExprLayout (at_ 0) (at_ 1)
  | .arrow isAsync => arrowLayout isAsync (at_ 0) (at_ 1) (at_ 2) (at_ 3)
  | .unary op =>
    text op.text ++
      (if op.isWord then wordGap else Print.when (unaryNeedsBlank op (at_ 0)) blank) ++
      (at_ 0).print
  | .update op true => text op.text ++ (at_ 0).print
  | .update op false => (at_ 0).print ++ text op.text
  | .binary op => binaryLayout op (at_ 0) (at_ 1)
  | .assign op => (at_ 0).print ++ gap ++ text op.text ++ gap ++ (at_ 1).print
  | .conditional =>
    (at_ 0).print ++ gap ++ text "?" ++ gap ++ (at_ 1).print ++ gap ++ text ":" ++ gap ++
      (at_ 2).print
  | .sequence => separated (text "," ++ gap) (ps.map Part.print)
  | .paren => text "(" ++ (at_ 0).print ++ text ")"
  | .member | .superMember => memberLayout (at_ 0) (at_ 1)
  | .call => usedOperand (at_ 0) ++ (at_ 2).print ++ argList (at_ 1).parts
  | .optMember o => optMemberLayout o (at_ 0) (at_ 1)
  | .optCall o =>
    usedOperand (at_ 0) ++ Print.when o (text "?.") ++ argList (at_ 1).parts
  | .tagged => usedOperand (at_ 0) ++ (at_ 1).print ++ taggedTemplate (at_ 2)
  | .yield_ isDelegate =>
    text "yield" ++ Print.when isDelegate (text "*") ++
      (at_ 0).given (afterWord (if isDelegate then gap else wordGap))
  | .await => text "await" ++ blank ++ (at_ 0).print
  | .asType => (at_ 0).print ++ text " as " ++ (at_ 1).print
  | .satisfiesType => (at_ 0).print ++ text " satisfies " ++ (at_ 1).print
  | .typeAssertion => text "<" ++ (at_ 1).print ++ text ">" ++ (at_ 0).print
  | .nonNull => (at_ 0).print ++ text "!"
  | .asConst => (at_ 0).print ++ text " as const"
  | .instantiation => (at_ 0).print ++ (at_ 1).print
  | _ => .nothing

def exprLayout (k : Kind) (s : Span) (ps : List Part) : Print :=
  match k with
  | .new_ => newLayout true s ps ++ trailingAt s.hi true
  | .spread => led s (text "..." ++ (ps.getD 0 .absent).print)
  | _ => commented s (exprBody k s ps)

end Worklet.Syntax
