import Worklet.Syntax.Parse.Pattern

/-!
# Types

* `typeRule` — a type; `typeOperatorRule` — one without operators between types.
-/

set_option autoImplicit false

namespace Worklet.Syntax

/-- A type parameter with its marks, bound and default. -/
def typeParam (go : Rules) : Parser Ast := do
  let lo ← here
  let marked (w : String) : Parser Bool := do
    if (← isWord w) && (← next).kind.isName then advance; return true else return false
  let isConst ← marked "const"
  let isIn ← marked "in"
  let isOut ← marked "out"
  let name ← anyIdent
  let bound ← if ← eatWord "extends" then go .type else pure .absent
  let default ← if ← eat "=" then go .type else pure .absent
  mk lo (.typeParam isIn isOut isConst) [name, bound, default]

/-- Type parameters between angle brackets. -/
def typeParams (go : Rules) : Parser Ast := do
  let lo ← here
  expect "<"
  let ps ← sepUntil ">" "," (typeParam go)
  mk lo .typeParams ps

/-- Type parameters, if there are any. -/
def typeParams? (go : Rules) : Parser Ast := do
  if (← isTyped) && (← isPunct "<") then typeParams go else return .absent

/-- Type arguments between angle brackets. -/
def typeArgs (go : Rules) : Parser Ast := do
  let lo ← here
  expect "<"
  let ts ← sepUntil ">" "," (go .type)
  if ts.isEmpty then unexpected
  mk lo .typeArgs ts

/-- Type arguments, if they begin on this line. -/
def typeArgs? (go : Rules) : Parser Ast := do
  if (← isPunct "<") && !(← afterBreak) then typeArgs go else return .absent

/-- A name, or names divided by dots. -/
def entityName : Parser Ast := do
  let lo ← here
  let first ← anyIdent
  iterate (fun left => do
    if ← eat "." then
      let right ← anyWord
      return some (← mk lo .qualified [left, right])
    else return none) first

/-- A type or a predicate about a parameter. -/
def typeOrPredicate (go : Rules) : Parser Ast := do
  let lo ← here
  let after ← next
  if (← isWord "asserts") && after.kind.isName && !after.afterBreak then
    advance
    let plo ← here
    let subject ←
      if ← eatWord "this" then mk plo .thisType [] else anyIdent
    if ← eatWord "is" then
      let tlo ← here
      let t ← go .type
      let ann ← mk tlo .typeAnn [t]
      mk lo (.typePredicate true) [subject, ann]
    else mk lo (.typePredicate true) [subject, .absent]
  else if (← current).kind.isName && after.kind.isWord "is" && !after.afterBreak then
    let subject ← if ← eatWord "this" then mk lo .thisType [] else anyIdent
    expectWord "is"
    let tlo ← here
    let t ← go .type
    let ann ← mk tlo .typeAnn [t]
    mk lo (.typePredicate false) [subject, ann]
  else go .type

/-- The return type after a colon, if there is one. -/
def returnType? (go : Rules) : Parser Ast := do
  let lo ← here
  if (← isTyped) && (← isPunct ":") then
    advance
    let t ← typeOrPredicate go
    mk lo .typeAnn [t]
  else return .absent

/-- The tokens from here on open the parameters of a function type. -/
def opensFunctionType (go : Rules) : Parser Bool := do
  if ← isPunct "<" then return true
  unless ← isPunct "(" do return false
  looksLike do
    advance
    if (← isPunct ")") || (← isPunct "...") then return true
    let _ ← go .target
    if (← isPunct ":") || (← isPunct ",") || (← isPunct "?") || (← isPunct "=") then return true
    if ← eat ")" then isPunct "=>" else return false

def functionType (go : Rules) (lo : Nat) (kind : Kind) : Parser Ast := do
  let tps ← typeParams? go
  let ps ← arrowParams go
  let rlo ← here
  expect "=>"
  let t ← withContext (fun c => { c with allowConditionalType := true }) (typeOrPredicate go)
  let ann ← mk rlo .typeAnn [t]
  mk lo kind [.list ps, tps, ann]

/-- Types divided by a sign that may also stand first. -/
def joinedTypes (sign : String) (kind : Kind) (item : Parser Ast) : Parser Ast := do
  let lo ← here
  let leads ← eat sign
  let ts ← sepBy1 sign item
  match ts, leads with
  | [t], false => return t
  | _, _ => mk lo kind ts

/-- A type with operators between types. -/
def unionRule (go : Rules) : Parser Ast :=
  joinedTypes "|" .unionType (joinedTypes "&" .intersectionType (go .typeOperator))

def typeRule (go : Rules) : Parser Ast := do
  let lo ← here
  if ← opensFunctionType go then return ← functionType go lo .fnType
  if (← isWord "new") && (← looksLike do advance; return (← isPunct "(") || (← isPunct "<")) then
    advance
    return ← functionType go lo (.ctorType false)
  if (← isWord "abstract") && (← next).kind.isWord "new" then
    advance; advance
    return ← functionType go lo (.ctorType true)
  let t ← unionRule go
  if (← get).context.allowConditionalType && (← isWord "extends") && !(← afterBreak) then
    advance
    let bound ← withContext (fun c => { c with allowConditionalType := false }) (go .type)
    expect "?"
    let yes ← withContext (fun c => { c with allowConditionalType := true }) (go .type)
    expect ":"
    let no ← withContext (fun c => { c with allowConditionalType := true }) (go .type)
    mk lo .conditionalType [t, bound, yes, no]
  else return t

/-! ### Members -/

def opensIndexSignature : Parser Bool := do
  unless ← isPunct "[" do return false
  looksLike do
    advance
    let _ ← anyIdent
    isPunct ":"

/-- An index signature after its modifiers. -/
def indexSignature (go : Rules) (lo : Nat) (isReadonly isStatic : Bool) : Parser Ast := do
  expect "["
  let ps ← sepUntil "]" "," (paramPattern go)
  let ann ← typeAnnotation? go
  mk lo (.indexSignature isReadonly isStatic) [.list ps, ann]

/-- The key of a member of a type: a name counts as used. -/
def memberKey (go : Rules) : Parser (Ast × Bool) := do
  match ← propertyKey go with
  | .node (.word w) s _ => return (.node (.ident w) s [], false)
  | .node .computed _ [e] => return (e, true)
  | t => return (t, false)

/-- A parameter list with types, as in signatures. -/
def signatureParams (go : Rules) : Parser Ast := do
  return .list (← arrowParams go)

def memberEnd : Parser Unit := do
  unless ← eat "," do semicolon

/-- A word that opens an accessor or marks a member, with a key after it. -/
def opensKey : Parser Bool := do
  let t ← next
  match t.kind with
  | .name .. | .str _ | .num _ | .bigint _ | .privateName _ => return true
  | .punct "[" => return true
  | _ => return false

/-- A member of an interface or an object type. -/
def typeMember (go : Rules) : Parser Ast := do
  let lo ← here
  let finish (kind : Kind) (children : List Ast) : Parser Ast := do
    let t ← mk lo kind children
    memberEnd
    return t
  if (← isPunct "(") || (← isPunct "<") then
    let tps ← typeParams? go
    let ps ← signatureParams go
    let ann ← returnType? go
    return ← finish .callSignature [ps, ann, tps]
  if (← isWord "new") && (← looksLike do advance; return (← isPunct "(") || (← isPunct "<")) then
    advance
    let tps ← typeParams? go
    let ps ← signatureParams go
    let ann ← typeAnnotation? go
    return ← finish .constructSignature [ps, ann, tps]
  let isReadonly ←
    if (← isWord "readonly") && (← opensKey) then do advance; pure true else pure false
  if ← opensIndexSignature then
    let sig ← indexSignature go lo isReadonly false
    memberEnd
    return sig
  if (← isWord "get") && (← opensKey) then
    advance
    let (key, isComputed) ← memberKey go
    expect "("
    expect ")"
    let ann ← typeAnnotation? go
    return ← finish (.getterSignature isComputed) [key, ann]
  if (← isWord "set") && (← opensKey) then
    advance
    let (key, isComputed) ← memberKey go
    let ps ← arrowParams go
    return ← finish (.setterSignature isComputed) [key, ps.headD .absent]
  let (key, isComputed) ← memberKey go
  let isOptional ← eat "?"
  if (← isPunct "(") || (← isPunct "<") then
    let tps ← typeParams? go
    let ps ← signatureParams go
    let ann ← returnType? go
    finish (.methodSignature isOptional isComputed) [key, ps, ann, tps]
  else
    let ann ← typeAnnotation? go
    finish (.propSignature isReadonly isOptional isComputed) [key, ann]

/-- Members between braces. -/
def typeMembers (go : Rules) : Parser (List Ast) := do
  expect "\x7b"
  let ms ← withContext (fun c => { c with allowConditionalType := true }) <| many do
    if ← isPunct "\x7d" then return none else return some (← typeMember go)
  expect "\x7d"
  return ms

/-! ### Primary types -/

/-- The word `readonly` or `?` of a mapped type, with its sign. -/
def mappedMark (present : Parser Bool) : Parser (Option MappedMark) := do
  if ← eat "+" then
    let _ ← present
    return some .plus
  else if ← eat "-" then
    let _ ← present
    return some .minus
  else if ← present then return some .present
  else return none

/-- The tokens after an opening brace make a mapped type. -/
def opensMappedType : Parser Bool :=
  looksLike do
    advance
    let _ ← eat "+"
    let _ ← eat "-"
    let _ ← eatWord "readonly"
    unless ← eat "[" do return false
    let _ ← anyIdent
    isWord "in"

def mappedType (go : Rules) : Parser Ast := do
  let lo ← here
  withContext (fun c => { c with allowConditionalType := true }) do
    expect "\x7b"
    let ro ← mappedMark (eatWord "readonly")
    expect "["
    let plo ← here
    let name ← anyIdent
    expectWord "in"
    let bound ← go .type
    let param ← mk plo (.typeParam false false false) [name, bound, .absent]
    let nameType ← if ← eatWord "as" then go .type else pure .absent
    expect "]"
    let opt ← mappedMark (eat "?")
    let t ← if ← eat ":" then go .type else pure .absent
    unless ← eat "," do semicolon
    expect "\x7d"
    mk lo (.mappedType ro opt) [param, nameType, t]

def tupleElement (go : Rules) : Parser Ast := do
  let lo ← here
  let isRest ← eat "..."
  let labelled ← looksLike do
    let _ ← anyIdent
    let _ ← eat "?"
    isPunct ":"
  if labelled then
    let name ← anyIdent
    let isOptional ← eat "?"
    expect ":"
    let t ← go .type
    let bound := Ast.node (.bindName isOptional) name.span [name, .absent]
    let label := if isRest then Ast.node .restPat ⟨lo, name.span.hi⟩ [bound, .absent] else bound
    mk lo .tupleElement [label, t]
  else
    let tlo ← here
    let t ← go .type
    let t ← if ← eat "?" then mk tlo .optionalType [t] else pure t
    let t ← if isRest then mk lo .restType [t] else pure t
    mk lo .tupleElement [.absent, t]

/-- The text of a template up to a substitution or its end: the text, whether a substitution
follows, and what stands after the mark. -/
def templateText : List Char → Option (List Char × Bool × List Char)
  | [] => none
  | '\\' :: c :: rest => (templateText rest).map fun (t, b, r) => ('\\' :: c :: t, b, r)
  | '`' :: rest => some ([], false, rest)
  | '$' :: '\x7b' :: rest => some ([], true, rest)
  | c :: rest => (templateText rest).map fun (t, b, r) => (c :: t, b, r)

/-- A template from its opening backquote, which is at hand: its substitutions and texts. -/
def templateParts (substitution : Parser Ast) : Parser (List Ast × List Ast) := do
  let start ← here
  let parts ← many do
    let s ← get
    let t := s.token
    -- The token at hand is the opening backquote or the brace that ends a substitution.
    if t.kind == .punct "`" && t.span.lo != start then return none
    unless t.kind == .punct "`" || t.kind == .punct "\x7d" do unexpected
    match templateText s.rest with
    | none => failAt start .unterminatedTemplate
    | some (text, more, rest) =>
      let lo := t.span.hi
      let hi := lo + byteCount text
      let quasi := Ast.node (.quasi (String.ofList text)) ⟨lo, hi⟩ []
      if more then
        modify fun s => s.scan rest (hi + 2) ⟨false, true⟩
        let e ← withContext
          (fun c => { c with allowIn := true, expectColon := false }) substitution
        return some (quasi, e)
      else
        -- A backquote at another place than the first tells that the template is over.
        modify fun s =>
          { s with token := ⟨.punct "`", ⟨hi, hi + 1⟩, false, ['`']⟩, rest, lastEnd := hi }
        return some (quasi, .absent)
  return (parts.map (·.2) |>.filter Ast.isPresent, parts.map (·.1))

/-- Goes past the closing backquote of a template. -/
def templateEnd : Parser Unit :=
  modify fun s => s.scan s.rest s.token.span.hi ⟨false, true⟩

/-- Words that are types by themselves. -/
def keywordTypes : List String :=
  ["any", "unknown", "number", "object", "boolean", "bigint", "string", "symbol", "void",
    "undefined", "null", "never", "intrinsic"]

/-- A type reference or the type of a value. -/
def referenceType (go : Rules) (lo : Nat) (kind : Kind) (entity : Ast) : Parser Ast := do
  let args ← typeArgs? go
  mk lo kind [entity, args]

def importType (go : Rules) : Parser Ast := do
  let lo ← here
  expectWord "import"
  expect "("
  let arg ← stringLit
  expect ")"
  let qualifier ← if ← eat "." then entityName else pure .absent
  let args ← typeArgs? go
  mk lo .importType [arg, qualifier, args]

/-- A type that no operator stands before or after. -/
def primaryType (go : Rules) : Parser Ast := do
  let t ← current
  let lo := t.span.lo
  match t.kind with
  | .punct "(" =>
    advance
    let inner ← withContext (fun c => { c with allowConditionalType := true }) (go .type)
    expect ")"
    mk lo .parenType [inner]
  | .punct "[" =>
    advance
    let es ← withContext (fun c => { c with allowConditionalType := true }) <|
      sepUntil "]" "," (tupleElement go)
    mk lo .tupleType es
  | .punct "\x7b" =>
    if ← opensMappedType then mappedType go
    else
      let ms ← typeMembers go
      mk lo .typeLit ms
  | .punct "`" =>
    let (types, texts) ← templateParts (go .type)
    templateEnd
    let lit ← mk lo .templateType [.list types, .list texts]
    return .node .litType lit.span [lit]
  | .punct "-" =>
    advance
    let n ← current
    match n.kind with
    | .num v =>
      advance
      let arg := Ast.node (.numLit v (some (String.ofList n.raw))) n.span []
      let e ← mk lo (.unary .minus) [arg]
      mk lo .litType [e]
    | _ => unexpected
  | .str us =>
    advance
    mk lo .litType [.node (.strLit us (some (String.ofList t.raw))) t.span []]
  | .num v =>
    advance
    mk lo .litType [.node (.numLit v (some (String.ofList t.raw))) t.span []]
  | .bigint v =>
    advance
    mk lo .litType [.node (.bigintLit v (some (String.ofList t.raw))) t.span []]
  | .name "true" false => advance; mk lo .litType [.node (.boolLit true) t.span []]
  | .name "false" false => advance; mk lo .litType [.node (.boolLit false) t.span []]
  | .name "this" false => advance; mk lo .thisType []
  | .name "import" false => importType go
  | .name "typeof" false =>
    advance
    let entity ← if ← isWord "import" then importType go else entityName
    referenceType go lo .typeQuery entity
  | .name w isEscaped =>
    if !isEscaped && keywordTypes.contains w && !(← next).kind.isPunct "." then
      advance
      mk lo (.keywordType w) []
    else if isEscaped || !isReserved w then
      let entity ← entityName
      referenceType go lo .typeRef entity
    else unexpected
  | _ => unexpected

/-- A primary type with the brackets after it. -/
def arrayType (go : Rules) : Parser Ast := do
  let lo ← here
  let first ← primaryType go
  iterate (fun t => do
    if (← isPunct "[") && !(← afterBreak) then
      advance
      if ← eat "]" then return some (← mk lo .arrayType [t])
      let index ← withContext (fun c => { c with allowConditionalType := true }) (go .type)
      expect "]"
      return some (← mk lo .indexedType [t, index])
    else return none) first

/-- The word can begin a type, so that an operator word before it is one. -/
def opensType (k : TokenKind) : Bool :=
  match k with
  | .name .. | .str _ | .num _ | .bigint _ => true
  | .punct t => ["\x7b", "[", "(", "`", "-", "<"].contains t
  | _ => false

def typeOperatorRule (go : Rules) : Parser Ast := do
  let lo ← here
  let after ← next
  match (← current).kind with
  | .name "infer" false =>
    if after.kind.isName then
      advance
      let plo ← here
      let name ← anyIdent
      let bound? ← attempt do
        expectWord "extends"
        let b ← withContext (fun c => { c with allowConditionalType := false }) (go .type)
        if (← get).context.allowConditionalType && (← isPunct "?") then unexpected
        return b
      let param ← mk plo (.typeParam false false false) [name, bound?.getD .absent, .absent]
      mk lo .inferType [param]
    else arrayType go
  | .name w false =>
    if (w == "keyof" || w == "unique" || w == "readonly") && opensType after.kind &&
        !after.afterBreak then
      advance
      let t ← go .typeOperator
      mk lo (.typeOperator w) [t]
    else arrayType go
  | _ => arrayType go

end Worklet.Syntax
