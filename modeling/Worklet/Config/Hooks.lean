/-!
# Hooks

Which calls take worklets: names of functions whose arguments are worklets, names of functions
that take objects of worklets, and chains of method calls that begin at a builder.

* `HookRegistry` — the known hooks, with its queries.
-/

set_option autoImplicit false

namespace Worklet

/-- Values by name, in the order in which the names first came. -/
abbrev Table (α : Type) := List (String × α)

namespace Table

variable {α : Type}

def get? (t : Table α) (name : String) : Option α :=
  (t.find? fun e => e.1 == name).map (·.2)

/-- Gives a name a value. A known name keeps its place. -/
def put (t : Table α) (name : String) (value : α) : Table α :=
  match t with
  | [] => [(name, value)]
  | (n, v) :: rest => if n == name then (n, value) :: rest else (n, v) :: put rest name value

/-- The tables give the same values to the same names; order is of no account. -/
def same (eq : α → α → Bool) (s t : Table α) : Bool :=
  s.length == t.length && s.all fun e => (get? t e.1).any (eq e.2)

end Table

/-- Adds a member to a set in order of first mention. -/
def insertNew (set : List String) (member : String) : List String :=
  if set.contains member then set else set ++ [member]

/-- The sets have the same members; order is of no account. -/
def sameSet (s t : List String) : Bool :=
  s.length == t.length && s.all t.contains

/-- The argument positions of a hook that take worklets; none given means all. -/
structure HookSpec where
  positions : List Nat
  deriving DecidableEq, Repr, Inhabited

namespace HookSpec

/-- Every position. -/
def any : HookSpec := ⟨[]⟩

/-- The position takes a worklet. -/
def accepts (s : HookSpec) (position : Nat) : Bool :=
  s.positions.isEmpty || s.positions.contains position

end HookSpec

structure HookRegistry where
  /-- Functions whose arguments are worklets. -/
  functionHooks : Table HookSpec
  /-- Functions that take an object whose properties are worklets. -/
  objectHooks : List String
  /-- Namespaces of builders, with the constructors that begin a chain; none given means all. -/
  builderRoots : Table (List String)
  /-- Methods of a chain whose arguments are worklets; none given means all. -/
  builderMethods : List String
  deriving DecidableEq, Repr, Inhabited

namespace HookRegistry

def empty : HookRegistry := ⟨[], [], [], []⟩

def functionHook? (r : HookRegistry) (name : String) : Option HookSpec :=
  r.functionHooks.get? name

def isObjectHook (r : HookRegistry) (name : String) : Bool :=
  r.objectHooks.contains name

/-- The constructor of the namespace begins a chain. -/
def isBuilderRoot (r : HookRegistry) (space ctor : String) : Bool :=
  (r.builderRoots.get? space).any fun ctors => ctors.isEmpty || ctors.contains ctor

/-- The method of a chain takes worklets. -/
def isBuilderMethod (r : HookRegistry) (name : String) : Bool :=
  r.builderMethods.isEmpty || r.builderMethods.contains name

def same (a b : HookRegistry) : Bool :=
  Table.same (· == ·) a.functionHooks b.functionHooks &&
    sameSet a.objectHooks b.objectHooks &&
    Table.same sameSet a.builderRoots b.builderRoots &&
    sameSet a.builderMethods b.builderMethods

/-- The hooks of animation and gesture libraries. -/
def standard : HookRegistry where
  functionHooks :=
    [("useFrameCallback", ⟨[0]⟩), ("useAnimatedStyle", ⟨[0]⟩), ("useAnimatedProps", ⟨[0]⟩),
      ("createAnimatedPropAdapter", ⟨[0]⟩), ("useDerivedValue", ⟨[0]⟩),
      ("useAnimatedScrollHandler", ⟨[0]⟩), ("useAnimatedReaction", ⟨[0, 1]⟩),
      ("useWorkletCallback", ⟨[0]⟩), ("withTiming", ⟨[2]⟩), ("withSpring", ⟨[2]⟩),
      ("withDecay", ⟨[1]⟩), ("withRepeat", ⟨[3]⟩)]
  objectHooks := ["useAnimatedGestureHandler", "useAnimatedScrollHandler"]
  builderRoots :=
    [("Gesture",
      ["Tap", "Pan", "Pinch", "Rotation", "Fling", "LongPress", "ForceTouch", "Native",
        "Manual", "Race", "Simultaneous", "Exclusive", "Hover"])]
  builderMethods :=
    ["onBegin", "onStart", "onEnd", "onFinalize", "onUpdate", "onChange", "onTouchesDown",
      "onTouchesMove", "onTouchesUp", "onTouchesCancelled"]

end HookRegistry

end Worklet
