import Worklet.Config.Hooks
import Worklet.Target

/-!
# Configuration

* `Config` — the options of a transformation.
* `Config.standard` — the options that hold unless others are given.
-/

set_option autoImplicit false

namespace Worklet

/-- The options of a transformation. -/
structure Config where
  /-- The directive that marks a worklet. -/
  marker : String
  /-- The version of the language that is printed. -/
  target : Target
  /-- A strict mode directive is put at the head of the module. -/
  strictMode : Bool
  hooks : HookRegistry
  deriving DecidableEq, Repr

namespace Config

/-- The marker that holds unless another is given. -/
def defaultMarker : String := "worklet"

/-- The options that hold unless others are given. -/
def standard : Config := ⟨defaultMarker, .es2022, false, .standard⟩

instance : Inhabited Config := ⟨standard⟩

/-- The configurations say the same. -/
def same (a b : Config) : Bool :=
  a.marker == b.marker && a.target == b.target && a.strictMode == b.strictMode &&
    a.hooks.same b.hooks

end Config

end Worklet
