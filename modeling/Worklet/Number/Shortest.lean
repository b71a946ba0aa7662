import Worklet.Number.Binary64

/-!
# The fewest digits that read back

A finite number is written with the fewest decimal digits that denote it and no other number;
of two such decimals the nearer one is taken.
-/

set_option autoImplicit false

namespace Worklet.Binary64

/-- The interval of reals nearest to `mantissa * 2 ^ exponent`, as quotients over one
denominator: lower end, the number itself, upper end, denominator. -/
structure Neighbourhood where
  low : Nat
  mid : Nat
  high : Nat
  den : Nat
  closed : Bool

/-- The reals that round to the number; the ends belong to them if the mantissa is even. -/
def neighbourhood (m : Nat) (q : Int) : Neighbourhood :=
  let below := if m == Nat.pow 2 52 && q > minExponent then 1 else 2
  let (low, den) := ratio (4 * m - below) (q - 2)
  let (mid, _) := ratio (4 * m) (q - 2)
  let (high, _) := ratio (4 * m + 2) (q - 2)
  ⟨low, mid, high, den, m % 2 == 0⟩

/-- The quotient `a / b` lies in the interval. -/
def Neighbourhood.has (n : Neighbourhood) (a b : Nat) : Bool :=
  let (x, l, h) := (a * n.den, n.low * b, n.high * b)
  if n.closed then l ≤ x && x ≤ h else l < x && x < h

/-- `n * 10 ^ e` as a quotient. -/
def tenRatio (n : Nat) (e : Int) : Nat × Nat :=
  if e ≥ 0 then (n * Nat.pow 10 e.toNat, 1) else (n, Nat.pow 10 (-e).toNat)

/-- The multiple of `10 ^ e` in the interval nearest to the number, divided by `10 ^ e`. -/
def Neighbourhood.onGrid (n : Neighbourhood) (e : Int) : Option Nat :=
  let (sn, sd) := tenRatio 1 e
  let below := n.mid * sd / (n.den * sn)
  let rest := n.mid * sd % (n.den * sn)
  let has (k : Nat) : Bool := k != 0 && n.has (k * sn) sd
  let upFirst := 2 * rest > n.den * sn || (2 * rest == n.den * sn && below % 2 == 1)
  let (first, second) := if upFirst then (below + 1, below) else (below, below + 1)
  if has first then some first else if has second then some second else none

/-- The exponent of the leading decimal digit of `num / den`, found in at most `fuel` steps. -/
def leadingExponent (num den : Nat) : Nat → Int
  | 0 => 0
  | fuel + 1 =>
    if num ≥ den then (Nat.toDigits 10 (num / den)).length - 1
    else leadingExponent (num * 10) den fuel - 1

/-- The first grid, from coarse to fine, with a point in the interval. -/
def Neighbourhood.search (n : Neighbourhood) (e : Int) : Nat → Nat × Int
  | 0 => ((n.onGrid e).getD 0, e)
  | fuel + 1 =>
    match n.onGrid e with
    | some d => (d, e)
    | none => n.search (e - 1) fuel

/-- Digits and exponent of ten of the shortest decimal. -/
def shortest (m : Nat) (q : Int) : Nat × Int :=
  if m == 0 then (0, 0)
  else
    let n := neighbourhood m q
    n.search (leadingExponent n.mid n.den 400 + 1) 20

/-- `digits * 10 ^ e` without exponent; a fraction has a digit before its point. -/
def positionalText (digits : Nat) (e : Int) : String :=
  let ds := Nat.toDigits 10 digits
  if e ≥ 0 then String.ofList (ds ++ List.replicate (if digits == 0 then 0 else e.toNat) '0')
  else
    let places := (-e).toNat
    let ds := List.replicate (places + 1 - ds.length) '0' ++ ds
    let fraction := (ds.drop (ds.length - places)).reverse.dropWhile (· == '0') |>.reverse
    let whole := ds.take (ds.length - places)
    String.ofList (if fraction.isEmpty then whole else whole ++ '.' :: fraction)

/-- The shortest decimal of a number, without exponent. -/
def positional : Binary64 → String
  | .finite m q =>
    let (d, e) := shortest m q
    positionalText d e
  | .infinite => "inf"

end Worklet.Binary64
