import Worklet.Syntax.Comment
import Worklet.Syntax.Dialect
import Worklet.Syntax.Token
import Worklet.Syntax.Ast

/-!
# Reading tokens

The state in which a program is read: the token at hand, the text after it, the comments met so
far. Readers are state transformers that fail with a place and a reason; a failed attempt leaves
the state as it was, comments included.

* `State`, `Parser` — the state and the readers over it.
-/

set_option autoImplicit false

namespace Worklet.Syntax

/-- Which comments may be trailing comments of the last token, if no line break comes between. -/
structure Trail where
  block : Bool
  line : Bool
  deriving DecidableEq, Repr, Inhabited

/-- Words that cannot name a binding. -/
def reservedWords : List String :=
  ["await", "break", "case", "catch", "class", "const", "continue", "debugger", "default",
    "delete", "do", "else", "export", "extends", "false", "finally", "for", "function", "if",
    "import", "in", "instanceof", "new", "null", "return", "super", "switch", "this", "throw",
    "true", "try", "typeof", "var", "void", "while", "with", "enum"]

/-- A word after which a block comment is not taken as its trailing comment. -/
def isKeyword (w : String) : Bool :=
  (reservedWords.contains w && w != "enum") || w == "let" || w == "yield"

/-- What may trail a token. A block comment trails `;`, braces, literals and names; a line
comment trails all but the operators between two operands. -/
def TokenKind.trail : TokenKind → Trail
  | .punct t =>
    ⟨t == ";" || t == "\x7b" || t == "\x7d", (BinaryOp.ofText? t).isNone⟩
  | .name w _ => ⟨!isKeyword w, true⟩
  | .num _ | .bigint _ | .str _ => ⟨true, true⟩
  | _ => ⟨false, true⟩

/-- What the surroundings of an expression allow. -/
structure Context where
  /-- The word `in` is an operator. -/
  allowIn : Bool := true
  /-- The word `yield` is an operator. -/
  inGenerator : Bool := false
  /-- A colon after a parenthesis belongs to a conditional expression. -/
  expectColon : Bool := false
  /-- Types may be conditional. -/
  allowConditionalType : Bool := true
  deriving DecidableEq, Repr, Inhabited

structure State where
  dialect : Dialect
  /-- More than the number of characters of the file: a bound on every repetition. -/
  limit : Nat
  token : Token
  /-- The text after the token. -/
  rest : List Char
  /-- The end of the token before this one. -/
  lastEnd : Nat
  comments : Comments
  context : Context
  /-- Some token has been read. -/
  started : Bool
  deriving Inhabited

abbrev Parser (α : Type) := StateT State (Except Failure) α

/-! ### Between tokens -/

/-- What was skipped before a token. -/
structure Skipped where
  rest : List Char
  pos : Nat
  afterBreak : Bool
  leading : List Comment
  trailing : List Comment
  fault : Option Failure := none

/-- The text of a block comment after its opening mark, and what follows the closing one. -/
def blockComment : List Char → Option (List Char × List Char)
  | [] => none
  | '*' :: '/' :: rest => some ([], rest)
  | c :: rest => (blockComment rest).map fun (text, r) => (c :: text, r)

def semicolonFollows (cs : List Char) : Bool :=
  cs.head? == some ';'

/-- Skips blanks and comments, in at most `fuel` steps. -/
def skip (trail : Trail) : Nat → Skipped → Skipped
  | 0, s => s
  | fuel + 1, s =>
    match s.rest with
    | '/' :: '/' :: rest =>
      let text := rest.takeWhile fun c => !isLineBreak c
      let comment : Comment := ⟨.line, String.ofList text⟩
      let s' := { s with rest := rest.drop text.length, pos := s.pos + 2 + byteCount text }
      skip trail fuel <|
        if s.afterBreak || !trail.line then { s' with leading := s.leading ++ [comment] }
        else { s' with trailing := s.trailing ++ [comment] }
    | '/' :: '*' :: rest =>
      match blockComment rest with
      | none => { s with fault := some ⟨.unterminatedComment, s.pos⟩ }
      | some (text, rest) =>
        let comment : Comment := ⟨.block, String.ofList text⟩
        let isLeading := (s.afterBreak || !trail.block) && !semicolonFollows rest
        let s' := { s with
          rest
          pos := s.pos + 4 + byteCount text
          afterBreak := s.afterBreak || text.any isLineBreak }
        skip trail fuel <|
          if isLeading then { s' with leading := s.leading ++ [comment] }
          else { s' with trailing := s.trailing ++ [comment] }
    | c :: rest =>
      if isLineBreak c then
        skip trail fuel { s with rest, pos := s.pos + c.utf8Size, afterBreak := true }
      else if isTokenBlank c then
        skip trail fuel { s with rest, pos := s.pos + c.utf8Size }
      else s
    | [] => s

/-- Puts comments at their anchors. At the end of the file what would lead the next token trails
the last one, if there was any. -/
def anchor (store : Comments) (started : Bool) (lastEnd lo : Nat) (atEnd : Bool)
    (s : Skipped) : Comments :=
  let store := s.trailing.foldl (fun st c => st.addTrailing lastEnd c) store
  if atEnd && started then s.leading.foldl (fun st c => st.addTrailing lastEnd c) store
  else if atEnd then s.leading.foldl (fun st c => st.addLeading lastEnd c) store
  else s.leading.foldl (fun st c => st.addLeading lo c) store

/-- Reads the token that follows `pos`, the end of the token before it. -/
def State.scan (s : State) (cs : List Char) (pos : Nat) (trail : Trail) : State :=
  let skipped := skip trail (s.limit + 1)
    { rest := cs, pos, afterBreak := false, leading := [], trailing := [] }
  let (kind, raw, rest) := match skipped.fault with
    | some f => (TokenKind.bad f.fault, [], [])
    | none => readToken skipped.rest
  let lo := skipped.pos
  { s with
    token := ⟨kind, ⟨lo, lo + byteCount raw⟩, skipped.afterBreak, raw⟩
    rest
    lastEnd := pos
    comments := anchor s.comments s.started pos lo (kind == TokenKind.endOfFile) skipped }

/-- The state at the start of a file whose text begins at byte `pos`. -/
def State.start (dialect : Dialect) (text : List Char) (pos : Nat) : State :=
  let s : State :=
    { dialect, limit := text.length + 1, token := default, rest := [], lastEnd := pos,
      comments := .empty, context := {}, started := false }
  { s.scan text pos ⟨false, false⟩ with started := true }

/-! ### Basic readers -/

def failAt {α : Type} (pos : Nat) (fault : Fault) : Parser α :=
  fun _ => .error ⟨fault, pos⟩

def current : Parser Token := do return (← get).token

/-- The first byte of the token at hand. -/
def here : Parser Nat := do return (← get).token.span.lo

/-- From a byte to the end of the last token. -/
def spanFrom (lo : Nat) : Parser Span := do return ⟨lo, (← get).lastEnd⟩

/-- How a message shows the token. -/
def Token.shown (t : Token) : String :=
  match t.kind with
  | .endOfFile => "<eof>"
  | _ => String.ofList t.raw

/-- Fails at the token at hand; a token that could not be read at all has its own reason. -/
def fail {α : Type} (fault : Fault) : Parser α := do
  let t ← current
  match t.kind with
  | .bad f => failAt t.span.lo f
  | _ => failAt t.span.lo fault

/-- Fails because the token at hand cannot stand here. -/
def unexpected {α : Type} : Parser α := do
  fail (.unexpectedToken (← current).shown)

/-- Goes on to the next token. -/
def advance : Parser Unit :=
  modify fun s => s.scan s.rest s.token.span.hi s.token.kind.trail

/-- The token at hand is this sign. -/
def isPunct (t : String) : Parser Bool := do
  return (← current).kind == .punct t

/-- The token at hand is this word, written without escapes. -/
def isWord (w : String) : Parser Bool := do
  return (← current).kind == .name w false

/-- A line break stands before the token at hand. -/
def afterBreak : Parser Bool := do return (← current).afterBreak

/-- Goes past the sign if it is at hand. -/
def eat (t : String) : Parser Bool := do
  if ← isPunct t then advance; return true else return false

/-- Goes past the word if it is at hand. -/
def eatWord (w : String) : Parser Bool := do
  if ← isWord w then advance; return true else return false

/-- Goes past the sign, which must be at hand. -/
def expect (t : String) : Parser Unit := do
  unless ← eat t do unexpected

/-- Goes past the word, which must be at hand. -/
def expectWord (w : String) : Parser Unit := do
  unless ← eatWord w do unexpected

/-- Runs a reader; if it fails, nothing has happened. -/
def attempt {α : Type} (p : Parser α) : Parser (Option α) := fun s =>
  match p s with
  | .ok (a, s') => .ok (some a, s')
  | .error _ => .ok (none, s)

/-- Runs a reader and goes back to where it began. -/
def lookahead {α : Type} (p : Parser α) : Parser (Option α) := fun s =>
  match p s with
  | .ok (a, _) => .ok (some a, s)
  | .error _ => .ok (none, s)

/-- The test holds of the tokens from here on. -/
def looksLike (p : Parser Bool) : Parser Bool := do
  return (← lookahead p).getD false

/-- The token after the one at hand. -/
def next : Parser Token := do
  return (← lookahead (do advance; current)).getD default

def withContext {α : Type} (f : Context → Context) (p : Parser α) : Parser α := do
  let old := (← get).context
  modify fun s => { s with context := f old }
  let a ← p
  modify fun s => { s with context := old }
  return a

/-- Results of a step until it gives none, in at most `fuel` steps. -/
def manyUpTo {α : Type} (step : Parser (Option α)) : Nat → Parser (List α)
  | 0 => fail .tooDeep
  | fuel + 1 => do
    match ← step with
    | none => return []
    | some a => return a :: (← manyUpTo step fuel)

/-- Results of a step until it gives none. -/
def many {α : Type} (step : Parser (Option α)) : Parser (List α) := do
  manyUpTo step (← get).limit

/-- Carries a value through steps until one declines, in at most `fuel` steps. -/
def iterateUpTo {α : Type} (step : α → Parser (Option α)) : Nat → α → Parser α
  | 0, _ => fail .tooDeep
  | fuel + 1, a => do
    match ← step a with
    | none => return a
    | some b => iterateUpTo step fuel b

/-- Carries a value through steps until one declines. -/
def iterate {α : Type} (step : α → Parser (Option α)) (a : α) : Parser α := do
  iterateUpTo step (← get).limit a

/-- Items up to a closing sign, divided by a separator that may also follow the last one. The
closing sign is read too. -/
def sepUntil {α : Type} (close separator : String) (item : Parser α) : Parser (List α) := do
  let items ← many do
    if ← isPunct close then return none
    let a ← item
    unless ← isPunct close do expect separator
    return some a
  expect close
  return items

def sepBy1 {α : Type} (separator : String) (item : Parser α) : Parser (List α) := do
  let first ← item
  let others ← many do
    if ← eat separator then return some (← item) else return none
  return first :: others

def isTyped : Parser Bool := do return (← get).dialect.isTyped

def hasJsx : Parser Bool := do return (← get).dialect.hasJsx

/-- A node from a byte to the end of the last token. -/
def mk (lo : Nat) (kind : Kind) (children : List Ast) : Parser Ast := do
  return .node kind (← spanFrom lo) children

/-- Ends a statement: a semicolon, or a place where one may be left out. -/
def semicolon : Parser Unit := do
  if ← eat ";" then return
  let t ← current
  if t.afterBreak || t.kind == .punct "\x7d" || t.kind == .endOfFile then return
  fail .missingSemicolon

/-- A semicolon may be left out here, or stands here. -/
def atStatementEnd : Parser Bool := do
  let t ← current
  return t.afterBreak || t.kind == .punct "\x7d" || t.kind == .punct ";" ||
    t.kind == .endOfFile

end Worklet.Syntax
