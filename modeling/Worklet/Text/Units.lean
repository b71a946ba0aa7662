/-!
# Texts as UTF-16 code units

A character beyond the basic plane is two units. A list of units need not be text: it may hold
a surrogate without its partner.

* `units` — the units of a text.
-/

set_option autoImplicit false

namespace Worklet.Text

/-- The units of a code point, which may be a surrogate. -/
def codePointUnits (n : Nat) : List UInt16 :=
  if n < 0x10000 then [n.toUInt16]
  else [(0xd800 + (n - 0x10000) / 0x400).toUInt16, (0xdc00 + (n - 0x10000) % 0x400).toUInt16]

/-- The one or two units of a character. -/
def charUnits (c : Char) : List UInt16 :=
  codePointUnits c.toNat

def units (s : String) : List UInt16 :=
  s.toList.flatMap charUnits

/-- The number of units of a character. -/
def charWidth (c : Char) : Nat :=
  if c.toNat < 0x10000 then 1 else 2

/-- What a list of units spells at one place: a character, or a surrogate with no partner. -/
inductive Scalar where
  | char (c : Char)
  | lone (unit : UInt16)
  deriving DecidableEq, Repr

/-- The unit begins a pair. -/
def isHighSurrogate (u : UInt16) : Bool :=
  0xd800 ≤ u && u < 0xdc00

/-- The unit ends a pair. -/
def isLowSurrogate (u : UInt16) : Bool :=
  0xdc00 ≤ u && u < 0xe000

/-- Reads units from the left, a high surrogate together with the low one after it. -/
def scalars : List UInt16 → List Scalar
  | [] => []
  | [u] =>
    if isHighSurrogate u || isLowSurrogate u then [.lone u] else [.char (Char.ofNat u.toNat)]
  | u :: v :: rest =>
    if isHighSurrogate u && isLowSurrogate v then
      .char (Char.ofNat (0x10000 + (u.toNat - 0xd800) * 0x400 + (v.toNat - 0xdc00))) ::
        scalars rest
    else if isHighSurrogate u || isLowSurrogate u then .lone u :: scalars (v :: rest)
    else .char (Char.ofNat u.toNat) :: scalars (v :: rest)

/-- The units as text, if no surrogate stands alone. -/
def ofUnits? (us : List UInt16) : Option String :=
  (scalars us).foldr
    (fun s acc => match s, acc with
      | .char c, some cs => some (c :: cs)
      | _, _ => none)
    (some [])
  |>.map String.ofList

end Worklet.Text
