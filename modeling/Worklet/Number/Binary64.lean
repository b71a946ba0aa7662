/-!
# Numbers of the language

A numeric literal denotes the binary floating-point number of 64 bits nearest to it, a tie
going to the even mantissa. Literals have no sign.
-/

set_option autoImplicit false

namespace Worklet

/-- A floating-point number without sign. A finite one has a mantissa below `2 ^ 53` and an
exponent of at least `-1074`; the mantissa is at least `2 ^ 52` unless the exponent is least. -/
inductive Binary64 where
  | finite (mantissa : Nat) (exponent : Int)
  | infinite
  deriving DecidableEq, Repr

namespace Binary64

def minExponent : Int := -1074

def zero : Binary64 := .finite 0 minExponent

instance : Inhabited Binary64 := ⟨zero⟩

/-- A quotient rounded to the nearest integer, a tie to the even one. -/
def roundDiv (num den : Nat) : Nat :=
  let q := num / den
  let twice := 2 * (num % den)
  if twice > den || (twice == den && q % 2 == 1) then q + 1 else q

/-- The quotient divided by `2 ^ q`, as numerator and denominator. -/
def scale (num den : Nat) (q : Int) : Nat × Nat :=
  if q ≥ 0 then (num, den * Nat.pow 2 q.toNat) else (num * Nat.pow 2 (-q).toNat, den)

/-- The number nearest to `num / den`. -/
def ofRatio (num den : Nat) : Binary64 :=
  if num == 0 then zero
  else
    let k : Int := (num.log2 : Int) - den.log2
    let (n, d) := scale num den k
    let q := max (if n < d then k - 53 else k - 52) minExponent
    let (n, d) := scale num den q
    let m := roundDiv n d
    let (m, q) := if m == Nat.pow 2 53 then (Nat.pow 2 52, q + 1) else (m, q)
    if q > 971 then .infinite else .finite m q

/-- The number nearest to `digits * 10 ^ exponent`. An exponent so large or small that only the
number of digits matters is not multiplied out. -/
def ofScientific (digits : Nat) (exponent : Int) : Binary64 :=
  if digits == 0 then zero
  else
    let width : Int := (Nat.toDigits 10 digits).length
    if width + exponent > 400 then .infinite
    else if width + exponent < -400 then zero
    else if exponent ≥ 0 then ofRatio (digits * Nat.pow 10 exponent.toNat) 1
    else ofRatio digits (Nat.pow 10 (-exponent).toNat)

/-- The number nearest to a whole number. -/
def ofNat (n : Nat) : Binary64 :=
  ofRatio n 1

/-- A finite number as a quotient. -/
def ratio (mantissa : Nat) (exponent : Int) : Nat × Nat :=
  if exponent ≥ 0 then (mantissa * Nat.pow 2 exponent.toNat, 1)
  else (mantissa, Nat.pow 2 (-exponent).toNat)

/-- The whole number that this number is, if it is one. -/
def toNat? : Binary64 → Option Nat
  | .finite m q =>
    let (n, d) := ratio m q
    if n % d == 0 then some (n / d) else none
  | .infinite => none

end Binary64

end Worklet
