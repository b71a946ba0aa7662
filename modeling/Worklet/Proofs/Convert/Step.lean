import Worklet.Proofs.Convert.Converts

/-!
# Steps of converting

* `Ensures` — what holds after a step.
* `Progress.Sound`, `Progress.Fresh` — where the nearest list of statements stands, and that nothing
  waits there.
* `queued` — what is put around the statement being converted.
-/

set_option autoImplicit false

namespace Worklet

open Syntax

/-! ### What holds after a step -/

/-- From the state, the step ends with a result and a state for which something holds. -/
def Ensures {α : Type} (x : Converting α) (s : Progress) (post : α → Progress → Prop) : Prop :=
  post (x.run s).1 (x.run s).2

namespace Ensures

variable {α β : Type} {s : Progress}

theorem pure {post : α → Progress → Prop} {a : α} (h : post a s) :
    Ensures (Pure.pure a) s post := h

theorem bind {mid : α → Progress → Prop} {post : β → Progress → Prop} {x : Converting α}
    {f : α → Converting β} (hx : Ensures x s mid)
    (hf : ∀ a s', mid a s' → Ensures (f a) s' post) : Ensures (x >>= f) s post :=
  hf _ _ hx

theorem imp {post post' : α → Progress → Prop} {x : Converting α} (hx : Ensures x s post)
    (h : ∀ a s', post a s' → post' a s') : Ensures x s post' :=
  h _ _ hx

theorem get {post : α → Progress → Prop} {f : Progress → Converting α} (h : Ensures (f s) s post) :
    Ensures (MonadState.get >>= f) s post := h

theorem set {post : α → Progress → Prop} {s' : Progress} {f : PUnit → Converting α}
    (h : Ensures (f ⟨⟩) s' post) : Ensures (MonadStateOf.set s' >>= f) s post := h

end Ensures

/-! ### Lists of statements around -/

namespace Progress

/-- The nearest list of statements runs as often as what is converted. -/
def atFrame (s : Progress) : Bool :=
  match s.frames with
  | [] => false
  | frame :: _ => frame.depth == s.depth

/-- The nearest list of statements is no deeper than what is converted. -/
def Sound (s : Progress) : Prop :=
  ∀ frame ∈ s.frames.head?, frame.depth ≤ s.depth

/-- The nearest list of statements is where the walk is, and nothing waits there. -/
def Fresh (s : Progress) : Prop :=
  ∃ frames, s.frames = { depth := s.depth } :: frames

theorem Fresh.sound {s : Progress} (h : s.Fresh) : s.Sound := by
  obtain ⟨frames, hf⟩ := h
  simp [Sound, hf]

end Progress

/-- The nearest list of statements has variables and statements queued. -/
def queued (caches : List String) (stmts : List Ast) : List Frame → List Frame
  | [] => []
  | frame :: frames =>
    { frame with
      before := frame.before ++ caches.map cacheDecl, after := frame.after ++ stmts } :: frames

@[simp] theorem queued_nil (frames : List Frame) : queued [] [] frames = frames := by
  cases frames <;> simp [queued]

theorem queued_queued (caches caches' : List String) (stmts stmts' : List Ast)
    (frames : List Frame) :
    queued caches' stmts' (queued caches stmts frames) =
      queued (caches ++ caches') (stmts ++ stmts') frames := by
  cases frames <;> simp [queued]

section Inside

variable {α : Type} {s : Progress} {x : Converting α} {post : α → Progress → Prop}

theorem deeper_ensures
    (h : Ensures x { s with depth := s.depth + 1 } fun a s' =>
      post a { s' with depth := s'.depth - 1 }) :
    Ensures (deeper x) s post :=
  h

theorem inFrame_ensures
    (h : Ensures x { s with frames := { depth := s.depth } :: s.frames } fun a s' =>
      post a { s' with frames := s'.frames.tail }) :
    Ensures (inFrame x) s post :=
  h

end Inside

/-! ### Functions exported by default -/

theorem isDefaultFunction_eq_true {t : Ast} (h : isDefaultFunction t = true) :
    ∃ sp fs cs, t = .node .exportDefaultDecl sp [.node .funcExpr fs cs] := by
  unfold isDefaultFunction at h
  split at h
  · exact ⟨_, _, _, rfl⟩
  · cases h

theorem convertItem_eq {job : Job} {t : Ast} (h : isDefaultFunction t = false) :
    convertItem job t = pure t := by
  unfold convertItem
  split
  · cases h
  · rfl

end Worklet
