import Worklet.Syntax.Print.Expr

/-!
# Layout of classes
-/

set_option autoImplicit false

namespace Worklet.Syntax

/-- The word for who may use a member. -/
def accessWord (a : Option Access) : Print :=
  match a with
  | some a => text a.text ++ blank
  | none => .nothing

/-- A word that is parted from a word after it. -/
def wordBefore (needsGap : Bool) (word : String) : Print :=
  text word ++ if needsGap then blank else wordGap

def isPrivateKey (key : Part) : Bool :=
  match key.kind? with
  | some (.privateName _) => true
  | _ => false

def methodWords (kind : MethodKind) (isAsync isGenerator : Bool) (key : Part) : Print :=
  let isPrivate := isPrivateKey key
  match kind with
  | .method => flag isAsync "async" ++ Print.when isGenerator (text "*")
  | .getter => wordBefore isPrivate "get"
  | .setter => wordBefore isPrivate "set"

def methodLayout (kind : MethodKind) (m : Modifiers) (s : Span) (key f : Part) : Print :=
  let (isAsync, isGenerator) := functionFlags f
  let isPrivate := isPrivateKey key
  led s <| led key.span <|
    decoratorLines (f.at_ 1).parts ++
      accessWord m.access ++
      Print.when m.isStatic (wordBefore isPrivate "static") ++
      flag m.isAbstract "abstract" ++ flag m.isOverride "override" ++
      methodWords kind isAsync isGenerator key ++
      keyLayout key ++ optionalMark m.isOptional ++
      signatureOf f ++
      if (f.at_ 2).isPresent then gap ++ (f.at_ 2).print else semi

def propertyLayout (isAccessor : Bool) (m : Modifiers) (s : Span) (ps : List Part) : Print :=
  let at_ (i : Nat) : Part := ps.getD i .absent
  let key := at_ 0
  led s <|
    decoratorLines (at_ 3).parts ++
      flag m.isDeclare "declare" ++
      accessWord m.access ++
      Print.when m.isStatic (wordBefore (isPrivateKey key) "static") ++
      flag m.isAbstract "abstract" ++ flag m.isOverride "override" ++
      flag m.isReadonly "readonly" ++ flag isAccessor "accessor" ++
      keyLayout key ++ optionalMark m.isOptional ++
      Print.when (m.isDefinite && (at_ 2).isPresent) (text "!") ++ annotation (at_ 2) ++
      (at_ 1).after (gap ++ text "=" ++ gap) ++ semi

def classMemberLayout (k : Kind) (s : Span) (ps : List Part) : Print :=
  let at_ (i : Nat) : Part := ps.getD i .absent
  match k with
  | .constructor access _ =>
    led s <|
      accessWord access ++ text "constructor" ++ paramList (at_ 1).parts ++
        if (at_ 2).isPresent then (at_ 2).print else semi
  | .classMethod kind m => methodLayout kind m s (at_ 0) (at_ 1)
  | .classProp m => propertyLayout false m s ps
  | .accessorProp m => propertyLayout true m s ps
  | .staticBlock => led s (text "static" ++ (at_ 0).print)
  | .emptyMember => led s semi
  | .decorator => led s (text "@" ++ (at_ 0).print ++ hardNewline)
  | _ => .nothing

/-- What follows the name of a class. -/
def classTail (c : Part) : Print :=
  (c.at_ 2).given (fun base =>
    blank ++ text "extends" ++ wordGap ++ base.print ++ (c.at_ 4).print) ++
    Print.when (!(c.at_ 5).parts.isEmpty)
      (blank ++ text "implements" ++ blank ++ commaList (c.at_ 5).parts) ++
    gap ++ text "\x7b" ++ lines .nothing (c.at_ 1).parts ++ text "\x7d"

def isAbstractClass (c : Part) : Bool :=
  match c.kind? with
  | some (.class_ a) => a
  | _ => false

def classExprLayout (name c : Part) : Print :=
  decoratorLines (c.at_ 0).parts ++ flag (isAbstractClass c) "abstract" ++ text "class" ++
    name.given (fun n => blank ++ n.name ++ (c.at_ 3).print) ++ classTail c

def classDeclLayout (isDeclare : Bool) (name c : Part) : Print :=
  flag isDeclare "declare" ++ decoratorLines (c.at_ 0).parts ++
    flag (isAbstractClass c) "abstract" ++ text "class" ++ blank ++ name.name ++
    (c.at_ 3).print ++ classTail c

end Worklet.Syntax
