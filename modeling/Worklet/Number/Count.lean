/-!
# Counts

Reading a whole number below 2^64 from decimal digits.
-/

set_option autoImplicit false

namespace Worklet

/-- Why a text is no count. -/
inductive CountError where
  | empty
  | invalidDigit
  | tooLarge
  deriving DecidableEq, Repr, Inhabited

/-- The reason in words. -/
def CountError.message : CountError → String
  | .empty => "cannot parse integer from empty string"
  | .invalidDigit => "invalid digit found in string"
  | .tooLarge => "number too large to fit in target type"

def countBound : Nat := Nat.pow 2 64

/-- Reads digits behind those that are read; the first fault counts. -/
def countDigits (n : Nat) : List Char → Except CountError Nat
  | [] => .ok n
  | c :: cs =>
    if !c.isDigit then .error .invalidDigit
    else
      let n := 10 * n + (c.toNat - '0'.toNat)
      if n < countBound then countDigits n cs else .error .tooLarge

/-- Reads a count. A plus sign may stand before the digits. -/
def readCount (s : String) : Except CountError Nat :=
  match s.toList with
  | [] => .error .empty
  | ['+'] => .error .invalidDigit
  | '+' :: cs => countDigits 0 cs
  | cs => countDigits 0 cs

end Worklet
