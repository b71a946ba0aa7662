import Worklet.Syntax.Print.Class

/-!
# Layout of types
-/

set_option autoImplicit false

namespace Worklet.Syntax

def angleList (ps : List Part) : Print :=
  text "<" ++ commaList ps ++ text ">"

def mappedMarkLayout (m : Option MappedMark) (what : Print) : Print :=
  match m with
  | none => .nothing
  | some .present => what
  | some .plus => text "+" ++ what
  | some .minus => text "-" ++ what

def signatureKey (isComputed : Bool) (key : Part) : Print :=
  if isComputed then text "[" ++ key.print ++ text "]" else keyLayout key

/-- A member of an interface or an object type without its semicolon. -/
def signatureLayout (k : Kind) (s : Span) (ps : List Part) : Print :=
  let at_ (i : Nat) : Part := ps.getD i .absent
  match k with
  | .callSignature =>
    led s ((at_ 2).print ++ paramList (at_ 0).parts ++
      (at_ 1).after (blank ++ text ":" ++ blank))
  | .constructSignature =>
    led s (text "new" ++ (at_ 2).print ++ paramList (at_ 0).parts ++ annotation (at_ 1))
  | .propSignature isReadonly isOptional isComputed =>
    led s <|
      flag isReadonly "readonly" ++ signatureKey isComputed (at_ 0) ++
        optionalMark isOptional ++ annotation (at_ 1)
  | .getterSignature isComputed =>
    led s <|
      text "get" ++ blank ++ signatureKey isComputed (at_ 0) ++ text "()" ++
        annotation (at_ 1)
  | .setterSignature isComputed =>
    led s <|
      text "set" ++ blank ++ signatureKey isComputed (at_ 0) ++ text "(" ++
        (at_ 1).print ++ text ")"
  | .methodSignature isOptional isComputed =>
    led s <|
      signatureKey isComputed (at_ 0) ++ optionalMark isOptional ++ (at_ 3).print ++
        paramList (at_ 1).parts ++ annotation (at_ 2)
  | .indexSignature isReadonly isStatic =>
    led s <|
      flag isStatic "static" ++ Print.when isReadonly (text "readonly" ++ gap) ++ text "[" ++
        commaList (at_ 0).parts ++ text "]" ++ annotation (at_ 1) gap
  | _ => .nothing

/-- Members on lines of their own between braces. -/
def memberLines (ms : List Part) : Print :=
  text "\x7b" ++ lines .nothing ms (fun m => m.print ++ semi) ++ text "\x7d"

/-- A function type after its first words. -/
def functionTypeLayout (ps : List Part) : Print :=
  let at_ (i : Nat) : Part := ps.getD i .absent
  (at_ 1).print ++ paramList (at_ 0).parts ++ gap ++ text "=>" ++ gap ++ (at_ 2).print

def typeBody (k : Kind) (ps : List Part) : Print :=
  let at_ (i : Nat) : Part := ps.getD i .absent
  match k with
  | .typeAnn => (at_ 0).print
  | .typeParams | .typeArgs => angleList ps
  | .typeParam isIn isOut isConst =>
    flag isConst "const" ++ flag isIn "in" ++ flag isOut "out" ++ (at_ 0).name ++
      (at_ 1).after (text " extends ") ++ (at_ 2).after (gap ++ text "=" ++ gap)
  | .keywordType t => text t
  | .thisType => text "this"
  | .fnType => functionTypeLayout ps
  | .ctorType isAbstract => flag isAbstract "abstract" ++ text "new" ++ functionTypeLayout ps
  | .typeRef => (at_ 0).name ++ (at_ 1).print
  | .qualified => (at_ 0).name ++ text "." ++ (at_ 1).name
  | .typeQuery => text "typeof" ++ blank ++ (at_ 0).name ++ (at_ 1).print
  | .typeLit => memberLines ps
  | .arrayType => (at_ 0).print ++ text "[]"
  | .tupleType => text "[" ++ commaList ps ++ text "]"
  | .tupleElement => (at_ 0).before (text ":" ++ blank) ++ (at_ 1).print
  | .optionalType => (at_ 0).print ++ text "?"
  | .restType => text "..." ++ (at_ 0).print
  | .unionType => inlineList (gap ++ text "|" ++ gap) ps
  | .intersectionType => inlineList (gap ++ text "&" ++ gap) ps
  | .conditionalType =>
    (at_ 0).print ++ text " extends " ++ (at_ 1).print ++ text " ? " ++ (at_ 2).print ++
      text " : " ++ (at_ 3).print
  | .inferType => text "infer " ++ (at_ 0).print
  | .parenType => text "(" ++ (at_ 0).print ++ text ")"
  | .typeOperator t => text t ++ blank ++ (at_ 0).print
  | .indexedType => (at_ 0).print ++ text "[" ++ (at_ 1).print ++ text "]"
  | .mappedType ro opt =>
    let param := at_ 0
    text "\x7b" ++ newline ++
      indented
        (mappedMarkLayout ro (text "readonly" ++ blank) ++ text "[" ++ (param.at_ 0).name ++
          (param.at_ 1).after (text " in ") ++ (at_ 1).after (text " as ") ++ text "]" ++
          mappedMarkLayout opt (text "?") ++ (at_ 2).after (text ":" ++ blank) ++ semi) ++
      newline ++ text "\x7d"
  | .litType => (at_ 0).print
  | .templateType => templateLayout (at_ 0).parts (at_ 1).parts text
  | .typePredicate isAsserts =>
    flag isAsserts "asserts" ++ (at_ 0).name ++ (at_ 1).after (text " is ")
  | .importType =>
    text "import(" ++ (at_ 0).print ++ text ")" ++
      (at_ 1).given (fun q => text "." ++ q.name) ++ (at_ 2).print
  | .heritage => (at_ 0).print ++ (at_ 1).print
  | _ => .nothing

def typeLayout (k : Kind) (s : Span) (ps : List Part) : Print :=
  led s (typeBody k ps)

end Worklet.Syntax
