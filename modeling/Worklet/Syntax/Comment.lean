import Worklet.Syntax.Span

/-!
# Comments beside a tree

Comments are no part of the tree. Each is kept at an anchor: *leading* at the first byte of the
token after it, or *trailing* at the byte after the token before it.

* `Comment`, `Comments` — a comment and the store of both sides.
* `Comments.addLeading`, `Comments.addTrailing` — one more comment at an anchor.
-/

set_option autoImplicit false

namespace Worklet.Syntax

/-- How a comment is marked. -/
inductive CommentStyle where
  | line
  | block
  deriving DecidableEq, Repr

/-- A comment without its marks. -/
structure Comment where
  style : CommentStyle
  text : String
  deriving DecidableEq, Repr

/-- Comments by anchor, each anchor once. -/
abbrev Anchored := List (Nat × List Comment)

namespace Anchored

/-- One more comment at an anchor, after those already there. -/
def add (a : Anchored) (pos : Nat) (c : Comment) : Anchored :=
  match a with
  | [] => [(pos, [c])]
  | (p, cs) :: rest => if p == pos then (p, cs ++ [c]) :: rest else (p, cs) :: add rest pos c

def commentsAt (a : Anchored) (pos : Nat) : List Comment :=
  ((a.find? fun e => e.1 == pos).map (·.2)).getD []

/-- The store without the anchor. -/
def erase (a : Anchored) (pos : Nat) : Anchored :=
  a.filter fun e => e.1 != pos

/-- The anchors that pass a test. -/
def keep (a : Anchored) (p : Nat → Bool) : Anchored :=
  a.filter fun e => p e.1

def size (a : Anchored) : Nat :=
  a.foldl (fun n e => n + e.2.length) 0

end Anchored

structure Comments where
  leading : Anchored := []
  trailing : Anchored := []
  deriving DecidableEq, Repr, Inhabited

namespace Comments

def empty : Comments := {}

def addLeading (s : Comments) (pos : Nat) (c : Comment) : Comments :=
  { s with leading := s.leading.add pos c }

def addTrailing (s : Comments) (pos : Nat) (c : Comment) : Comments :=
  { s with trailing := s.trailing.add pos c }

/-- The leading comments of an anchor, and the store without them. -/
def takeLeading (s : Comments) (pos : Nat) : List Comment × Comments :=
  (s.leading.commentsAt pos, { s with leading := s.leading.erase pos })

/-- The trailing comments of an anchor, and the store without them. -/
def takeTrailing (s : Comments) (pos : Nat) : List Comment × Comments :=
  (s.trailing.commentsAt pos, { s with trailing := s.trailing.erase pos })

def size (s : Comments) : Nat :=
  s.leading.size + s.trailing.size

/-- The anchor lies strictly inside the span. -/
def inside (span : Span) (pos : Nat) : Bool :=
  span.lo < pos && pos < span.hi

/-- The store without the comments anchored strictly inside the span. A comment at the span's
own start or end belongs to what stands around it. A made span holds nothing. -/
def stripWithin (s : Comments) (span : Span) : Comments :=
  if span.isMade then s
  else
    { leading := s.leading.keep fun p => !inside span p
      trailing := s.trailing.keep fun p => !inside span p }

/-- The number of comments that `stripWithin` removes. -/
def countWithin (s : Comments) (span : Span) : Nat :=
  if span.isMade then 0
  else (s.leading.keep (inside span)).size + (s.trailing.keep (inside span)).size

end Comments

end Worklet.Syntax
