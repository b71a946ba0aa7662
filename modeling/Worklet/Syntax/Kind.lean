import Worklet.Number.Binary64
import Worklet.Syntax.Operator

/-!
# Kinds of syntax

One constructor for each form of the language. A kind carries what is written in the node
itself: names, literal values, operators, flags. What stands inside the node are its children,
given here in order; a child in parentheses may be absent, one with an asterisk is a list.
-/

set_option autoImplicit false

namespace Worklet.Syntax

/-- A form of the language. -/
inductive Kind where
  /-- A name that refers to a binding, declares one, or labels a statement. -/
  | ident (name : String)
  /-- A name that is only spelled: a property, an attribute. -/
  | word (text : String)
  /-- A name with `#`, given without it. -/
  | privateName (text : String)
  -- Literals
  | nullLit
  | boolLit (value : Bool)
  | numLit (value : Binary64) (raw : Option String)
  | strLit (value : List UInt16) (raw : Option String)
  | bigintLit (value : Nat) (raw : Option String)
  | regexLit (pattern flags : String)
  /-- Children: expressions*, texts*. -/
  | template
  /-- A text of a template, as written. -/
  | quasi (raw : String)
  -- Expressions
  | this
  | superWord
  | importWord
  | newTarget
  | importMeta
  /-- Children: the elements; a hole is absent. -/
  | array
  /-- Children: the properties. -/
  | object
  /-- Children: expression. -/
  | spread
  /-- Children: key, value. -/
  | keyValue
  /-- A name with a default, as in a pattern read as an object. Children: name, value. -/
  | nameWithDefault
  /-- Children: key, (type), (body). -/
  | getter
  /-- Children: key, (this parameter), parameter, (body). -/
  | setter
  /-- Children: key, function. -/
  | method
  /-- A key in brackets. Children: expression. -/
  | computed
  /-- Children: (name), function. -/
  | funcExpr
  /-- Children: parameters*, decorators*, (body), (type parameters), (return type). -/
  | function (isAsync isGenerator : Bool)
  /-- Children: parameters*, body, (type parameters), (return type). -/
  | arrow (isAsync : Bool)
  /-- Children: (name), class. -/
  | classExpr
  /-- Children: decorators*, members*, (superclass), (type parameters), (superclass type
  arguments), implemented types*. -/
  | class_ (isAbstract : Bool)
  | unary (op : UnaryOp)
  | update (op : UpdateOp) (isBefore : Bool)
  | binary (op : BinaryOp)
  | assign (op : AssignOp)
  /-- Children: test, consequent, alternative. -/
  | conditional
  /-- Children: the expressions. -/
  | sequence
  | paren
  /-- Children: object, property. -/
  | member
  /-- Children: `super`, property. -/
  | superMember
  /-- Children: callee, arguments*, (type arguments). -/
  | call
  /-- Children: callee, (arguments*), (type arguments). -/
  | new_
  /-- A member inside an optional chain. Children: object, property. -/
  | optMember (isOptional : Bool)
  /-- A call inside an optional chain. Children: callee, arguments*, (type arguments). -/
  | optCall (isOptional : Bool)
  /-- Children: tag, (type arguments), template. -/
  | tagged
  /-- Children: (argument). -/
  | yield_ (isDelegate : Bool)
  | await
  /-- Children: expression, type. -/
  | asType
  | satisfiesType
  | typeAssertion
  /-- Children: expression. -/
  | nonNull
  /-- Children: expression. -/
  | asConst
  /-- Children: expression, type arguments. -/
  | instantiation
  -- Patterns
  /-- Children: name, (type). -/
  | bindName (isOptional : Bool)
  /-- Children: elements*, (type). -/
  | arrayPat (isOptional : Bool)
  /-- Children: properties*, (type). -/
  | objectPat (isOptional : Bool)
  /-- Children: pattern, (type). -/
  | restPat
  /-- Children: pattern, value. -/
  | assignPat
  /-- Children: key, pattern. -/
  | patProp
  /-- Children: bound name, (value). -/
  | patShorthand
  -- Classes
  /-- Children: key, parameters*, (body). -/
  | constructor (access : Option Access) (isOptional : Bool)
  /-- Children: key, function. The key may be a private name. -/
  | classMethod (kind : MethodKind) (mods : Modifiers)
  /-- Children: key, (value), (type), decorators*. The key may be a private name. -/
  | classProp (mods : Modifiers)
  /-- Children: key, (value), (type), decorators*. -/
  | accessorProp (mods : Modifiers)
  /-- Children: block. -/
  | staticBlock
  | emptyMember
  /-- Children: expression. -/
  | decorator
  /-- Children: decorators*, pattern. -/
  | param
  /-- A constructor parameter that declares a property. Children: decorators*, pattern. -/
  | paramProp (mods : Modifiers)
  -- Statements
  /-- Children: the statements. -/
  | block
  | emptyStmt
  | debuggerStmt
  | exprStmt
  /-- Children: (value). -/
  | returnStmt
  | throwStmt
  /-- Children: test, consequent, (alternative). -/
  | ifStmt
  /-- Children: test, body. -/
  | whileStmt
  /-- Children: test, body. -/
  | doWhileStmt
  /-- Children: (start), (test), (step), body. -/
  | forStmt
  /-- Children: target, object, body. -/
  | forIn
  /-- Children: target, object, body. -/
  | forOf (isAwait : Bool)
  /-- Children: label, body. -/
  | labeled
  /-- Children: (label). -/
  | breakStmt
  | continueStmt
  /-- Children: value, cases*. -/
  | switchStmt
  /-- Children: (test), then the statements. -/
  | switchCase
  /-- Children: block, (catch clause), (block). -/
  | tryStmt
  /-- Children: (pattern), block. -/
  | catchClause
  /-- Children: object, body. -/
  | withStmt
  /-- Children: the declarators. -/
  | varDecl (kind : VarKind) (isDeclare : Bool)
  /-- Children: pattern, (value). -/
  | declarator (isDefinite : Bool)
  /-- Children: the declarators. -/
  | usingDecl (isAwait : Bool)
  /-- Children: name, function. -/
  | funcDecl (isDeclare : Bool)
  /-- Children: name, class. -/
  | classDecl (isDeclare : Bool)
  -- Modules
  /-- Children: the statements and declarations. -/
  | module (shebang : Option String)
  /-- Children: specifiers*, source, (attributes). -/
  | importDecl (isType : Bool)
  /-- Children: local name, (imported name). -/
  | importNamed (isType : Bool)
  | importDefault
  | importStar
  /-- Children: declaration. -/
  | exportDecl
  /-- Children: specifiers*, (source), (attributes). The last flag tells that the text ends with a
  comma and the closing brace. -/
  | exportNamed (isType endsInComma : Bool)
  /-- Children: name, (exported name). -/
  | exportSpecifier (isType : Bool)
  /-- Children: name. -/
  | exportStarAs
  /-- Children: source, (attributes). -/
  | exportAll (isType : Bool)
  /-- Children: function, class or interface. -/
  | exportDefaultDecl
  /-- Children: expression. -/
  | exportDefaultExpr
  /-- Children: name, module or entity. -/
  | importEquals (isExport isType : Bool)
  /-- Children: string. -/
  | externalModule
  /-- Children: expression. -/
  | exportAssign
  /-- Children: name. -/
  | exportAsNamespace
  -- Declarations of types
  /-- Children: name, (type parameters), bases*, members*. -/
  | interfaceDecl (isDeclare : Bool)
  /-- Children: name, (type parameters), type. -/
  | typeAlias (isDeclare : Bool)
  /-- Children: name, members*. -/
  | enumDecl (isDeclare isConst : Bool)
  /-- Children: name or string, (value). -/
  | enumMember
  /-- Children: name or string, (body). -/
  | namespaceDecl (word : NamespaceWord) (isDeclare : Bool)
  /-- A namespace as the body of another. Children: name, body. -/
  | nestedNamespace
  /-- Children: the statements and declarations. -/
  | moduleBlock
  /-- Children: expression, (type arguments). -/
  | heritage
  -- Types
  /-- A type after a colon. Children: type. -/
  | typeAnn
  /-- Children: the parameters. -/
  | typeParams
  /-- Children: name, (constraint), (default). -/
  | typeParam (isIn isOut isConst : Bool)
  /-- Children: the types. -/
  | typeArgs
  | keywordType (text : String)
  | thisType
  /-- Children: parameters*, (type parameters), type. -/
  | fnType
  | ctorType (isAbstract : Bool)
  /-- Children: entity, (type arguments). -/
  | typeRef
  /-- Children: entity, name. -/
  | qualified
  /-- Children: entity, (type arguments). -/
  | typeQuery
  /-- Children: the members. -/
  | typeLit
  | arrayType
  /-- Children: the elements. -/
  | tupleType
  /-- Children: (label), type. -/
  | tupleElement
  | optionalType
  | restType
  | unionType
  | intersectionType
  /-- Children: type, bound, then-type, else-type. -/
  | conditionalType
  /-- Children: type parameter. -/
  | inferType
  | parenType
  | typeOperator (text : String)
  /-- Children: type, index type. -/
  | indexedType
  /-- Children: type parameter, (name type), (type). -/
  | mappedType (readonlyMark optionalMark : Option MappedMark)
  /-- Children: literal. -/
  | litType
  /-- Children: types*, texts*. -/
  | templateType
  /-- Children: name or `this`, (type). -/
  | typePredicate (isAsserts : Bool)
  /-- Children: string, (entity), (type arguments). -/
  | importType
  /-- Children: parameters*, (type), (type parameters). -/
  | callSignature
  | constructSignature
  /-- Children: key, (type). -/
  | propSignature (isReadonly isOptional isComputed : Bool)
  /-- Children: key, (type). -/
  | getterSignature (isComputed : Bool)
  /-- Children: key, parameter. -/
  | setterSignature (isComputed : Bool)
  /-- Children: key, parameters*, (type), (type parameters). -/
  | methodSignature (isOptional isComputed : Bool)
  /-- Children: parameters*, (type). -/
  | indexSignature (isReadonly isStatic : Bool)
  -- Elements
  /-- Children: opening tag, children*, (closing tag). -/
  | jsxElement
  /-- Children: name, attributes*, (type arguments). -/
  | jsxOpening (isSelfClosing : Bool)
  /-- Children: name. -/
  | jsxClosing
  /-- Children: the children. -/
  | jsxFragment
  /-- Children: name, (value). -/
  | jsxAttr
  /-- Children: expression. -/
  | jsxContainer
  | jsxEmpty
  /-- Children: expression. -/
  | jsxSpreadChild
  | jsxText (raw : String)
  /-- Children: object, name. -/
  | jsxMember
  /-- Children: namespace, name. -/
  | jsxNamespaced
  deriving DecidableEq, Repr

end Worklet.Syntax
