/-!
# Versions of the language

* `Target` — the version that printed code is meant for, with its order.
* `Target.ofText?` — a version by its name, in any case.
-/

set_option autoImplicit false

namespace Worklet

/-- A version of the language. -/
inductive Target where
  | es3 | es5 | es2015 | es2016 | es2017 | es2018 | es2019 | es2020 | es2021 | es2022 | es2023
  | es2024 | esNext
  deriving DecidableEq, Repr, Inhabited

namespace Target

/-- All versions, the oldest first. -/
def all : List Target :=
  [.es3, .es5, .es2015, .es2016, .es2017, .es2018, .es2019, .es2020, .es2021, .es2022, .es2023,
    .es2024, .esNext]

/-- The place of a version in the order of time. -/
def rank (t : Target) : Nat :=
  t.ctorIdx

/-- The one version came before the other. -/
def isBefore (a b : Target) : Bool :=
  a.rank < b.rank

def name : Target → String
  | .es3 => "es3" | .es5 => "es5" | .es2015 => "es2015" | .es2016 => "es2016"
  | .es2017 => "es2017" | .es2018 => "es2018" | .es2019 => "es2019" | .es2020 => "es2020"
  | .es2021 => "es2021" | .es2022 => "es2022" | .es2023 => "es2023" | .es2024 => "es2024"
  | .esNext => "esnext"

/-- The version of a name in any case; the sixth edition goes by two names. -/
def ofText? (s : String) : Option Target :=
  let lower := s.toLower
  if lower == "es6" then some .es2015 else all.find? fun t => t.name == lower

/-- The version knows only the escapes of two and four digits. -/
def isLegacy (t : Target) : Bool :=
  t.isBefore .es2015

end Target

end Worklet
