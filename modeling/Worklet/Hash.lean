import Worklet.Text.Units

/-!
# Hashes

A number for a canonical text: two 32-bit sums over its UTF-16 units, from the last to the
first, put side by side with some overlap.
-/

set_option autoImplicit false

namespace Worklet

def hashStep (h : UInt32) (unit : UInt16) : UInt32 :=
  h * 33 ^^^ unit.toUInt32

/-- The sum over the units, from the last to the first. -/
def hashUnits (seed : UInt32) (units : List UInt16) : UInt32 :=
  units.foldr (fun u h => hashStep h u) seed

def workletHash (text : String) : Nat :=
  let us := Text.units text
  (hashUnits 5381 us).toNat * 4096 + (hashUnits 52711 us).toNat

end Worklet
