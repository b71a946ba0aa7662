/-!
# Spans

Where a piece of a program stands in its file. Bytes are counted from one, so that zero is free
to mark pieces that stand in no file.
-/

set_option autoImplicit false

namespace Worklet.Syntax

/-- The bytes from `lo` up to, and without, `hi`. -/
structure Span where
  lo : Nat
  hi : Nat
  deriving DecidableEq, Repr, Inhabited

namespace Span

/-- The span of what was made and not read. -/
def made : Span := ⟨0, 0⟩

/-- The piece was made and not read. -/
def isMade (s : Span) : Bool :=
  s.lo == 0 && s.hi == 0

end Span

end Worklet.Syntax
