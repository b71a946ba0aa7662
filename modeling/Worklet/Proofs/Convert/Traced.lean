import Worklet.Proofs.Convert.Proceeds
import Worklet.Proofs.Convert.Ready
import Worklet.Proofs.Convert.Step

/-!
# Converting a node leaves a trace

Principal result: `convertNode_treats` — a node that is no call, and whose parts are converted,
becomes what its form says.
-/

set_option autoImplicit false

namespace Worklet

open Syntax

/-! ### Moves -/

/-- The comments that are left when functions were converted. -/
def leftComments (comments : Comments) (conversions : List Conversion) : Comments :=
  conversions.foldl (fun left e => left.stripWithin e.prepared.candidate.span) comments

/-- What a step did to the state, and the names that are then in use. -/
structure Moved (entries : List Entry) (caches : List String) (stmts : List Ast) (n : UsedNames)
    (s s' : Progress) : Prop where
  depth : s'.depth = s.depth
  frames : s'.frames = queued caches stmts s.frames
  conversions : s'.conversions = (convertedIn entries).reverse ++ s.conversions
  diagnostics : s'.diagnostics = (refusedIn entries).reverse ++ s.diagnostics
  comments : s'.comments = leftComments s.comments (convertedIn entries)
  names : s'.names = n

section Moved

variable {entries entries' : List Entry} {caches caches' : List String} {stmts stmts' : List Ast}
  {n n' : UsedNames} {s s' s'' : Progress}

@[simp] theorem convertedIn_append (a b : List Entry) :
    convertedIn (a ++ b) = convertedIn a ++ convertedIn b :=
  List.filterMap_append

@[simp] theorem refusedIn_append (a b : List Entry) :
    refusedIn (a ++ b) = refusedIn a ++ refusedIn b :=
  List.filterMap_append

theorem Moved.refl (s : Progress) : Moved [] [] [] s.names s s :=
  ⟨rfl, (queued_nil _).symm, rfl, rfl, rfl, rfl⟩

/-- **Moves compose.** -/
theorem Moved.trans (h : Moved entries caches stmts n s s')
    (h' : Moved entries' caches' stmts' n' s' s'') :
    Moved (entries ++ entries') (caches ++ caches') (stmts ++ stmts') n' s s'' where
  depth := h'.depth.trans h.depth
  frames := by rw [h'.frames, h.frames, queued_queued]
  conversions := by simp [h'.conversions, h.conversions]
  diagnostics := by simp [h'.diagnostics, h.diagnostics]
  comments := by simp [h'.comments, h.comments, leftComments]
  names := h'.names

/-- There is a list of statements around what is converted, no deeper, and near or not. -/
structure Progress.Stands (s : Progress) (near : Bool) : Prop where
  frames : s.frames ≠ []
  sound : s.Sound
  atFrame : s.atFrame = near

theorem Moved.stands {near : Bool} (h : Moved entries caches stmts n s s') (hs : s.Stands near) :
    s'.Stands near := by
  obtain ⟨hne, hsound, hnear⟩ := hs
  cases hf : s.frames with
  | nil => exact absurd hf hne
  | cons frame frames =>
    have hframes := h.frames
    rw [hf, queued] at hframes
    refine ⟨by simp [hframes], ?_, ?_⟩
    · simpa [Progress.Sound, hframes, h.depth, hf] using hsound
    · simpa [Progress.atFrame, hframes, h.depth, hf] using hnear

theorem Moved.deeper (h : Moved entries caches stmts n { s with depth := s.depth + 1 } s') :
    Moved entries caches stmts n s { s' with depth := s'.depth - 1 } :=
  ⟨by simp [h.depth], h.frames, h.conversions, h.diagnostics, h.comments, h.names⟩

theorem Moved.inFrame
    (h : Moved entries [] [] n { s with frames := { depth := s.depth } :: s.frames } s') :
    Moved entries [] [] n s { s' with frames := s'.frames.tail } :=
  ⟨h.depth, by rw [h.frames]; simp, h.conversions, h.diagnostics, h.comments, h.names⟩

/-- What waits around a statement is what was queued since nothing waited. -/
theorem takeQueued_moved (hf : s.Fresh) (h : Moved entries caches stmts n s s') :
    Ensures takeQueued s' fun r s'' => r = (caches.map cacheDecl, stmts) ∧
      Moved entries [] [] n s s'' := by
  obtain ⟨frames, hf⟩ := hf
  have hframes := h.frames
  rw [hf, queued] at hframes
  unfold takeQueued
  refine .get ?_
  rw [hframes]
  refine .set (.pure ⟨by simp, ?_⟩)
  exact ⟨h.depth, by simp [hf], h.conversions, h.diagnostics, h.comments, h.names⟩

end Moved

section Traced

variable {job : Job} {s : Progress}

/-! ### Converting a candidate -/

theorem report_moved (refusal : Refusal) (location : Location) :
    Ensures (report refusal location) s fun _ s' =>
      Moved [.refused ⟨refusal, location⟩] [] [] s.names s s' :=
  ⟨rfl, (queued_nil _).symm, rfl, rfl, rfl, rfl⟩

/-- A candidate is recorded or reported. -/
theorem attempt_moved (job : Job) (c : Candidate) (reason : Reason) (callable : Prepared → Ast) :
    Ensures (attempt job c reason callable) s fun r s' =>
      (∃ p, job.prepare c = .ok p ∧ r = some p ∧
        Moved [.converted ⟨p, reason, callable p⟩] [] [] s.names s s') ∨
      (∃ refusal, job.prepare c = .error refusal ∧ r = none ∧
        Moved [.refused ⟨refusal, job.locate c.span⟩] [] [] s.names s s') := by
  unfold attempt
  cases hp : job.prepare c with
  | error refusal => exact .inr ⟨refusal, rfl, rfl, rfl, (queued_nil _).symm, rfl, rfl, rfl, rfl⟩
  | ok p =>
    have hspan : p.candidate.span = c.span := by rw [(Job.prepare_eq_ok hp).1]; rfl
    exact .inl ⟨p, rfl, rfl, rfl, (queued_nil _).symm, rfl, rfl,
      congrArg s.comments.stripWithin hspan.symm, rfl⟩

theorem wrapped_moved (job : Job) (c : Candidate) (reason : Reason) :
    Ensures (wrapped job (some c) reason) s fun r s' =>
      (∃ p, job.prepare c = .ok p ∧ r = some p.wrapper ∧
        Moved [.converted ⟨p, reason, p.candidate.toFunction⟩] [] [] s.names s s') ∨
      (∃ refusal, job.prepare c = .error refusal ∧ r = none ∧
        Moved [.refused ⟨refusal, job.locate c.span⟩] [] [] s.names s s') := by
  refine .bind (attempt_moved job c reason fun p => p.candidate.toFunction) ?_
  rintro r s' (⟨p, hp, rfl, hm⟩ | ⟨refusal, hp, rfl, hm⟩)
  · exact .pure (.inl ⟨p, hp, rfl, hm⟩)
  · exact .pure (.inr ⟨refusal, hp, rfl, hm⟩)

theorem modifyFrame_moved (caches : List String) (stmts : List Ast) {f : Frame → Frame}
    (hf : ∀ frame, f frame = { frame with
      before := frame.before ++ caches.map cacheDecl, after := frame.after ++ stmts }) :
    Ensures (modifyFrame f) s fun _ s' => Moved [] caches stmts s.names s s' := by
  obtain ⟨names, frames, depth, conversions, diagnostics, comments⟩ := s
  cases frames with
  | nil => exact ⟨rfl, rfl, rfl, rfl, rfl, rfl⟩
  | cons frame frames => exact ⟨rfl, by simp [queued, ← hf]; rfl, rfl, rfl, rfl, rfl⟩

/-- A variable is made if the statements around are near. -/
theorem cacheName_moved (base : String) :
    Ensures (cacheName base) s fun cache s' =>
      if s.atFrame then cache = some (s.names.freshName base) ∧
        Moved [] cache.toList [] (s.names.insert (s.names.freshName base)) s s'
      else cache = none ∧ Moved [] [] [] s.names s s' := by
  unfold cacheName
  refine .get ?_
  split
  · rename_i frame frames hframes
    have hat : s.atFrame = (frame.depth == s.depth) := by simp [Progress.atFrame, hframes]
    rw [hat]
    split
    · have hset : Moved [] [] [] (s.names.fresh base).2 s { s with names := (s.names.fresh base).2 } :=
        ⟨rfl, (queued_nil _).symm, rfl, rfl, rfl, rfl⟩
      refine .set (.bind (modifyFrame_moved [(s.names.fresh base).1] [] fun frame => ?_)
        fun _ s' hs => .pure ⟨rfl, hset.trans hs⟩)
      rw [List.append_nil]
      rfl
    · exact ⟨rfl, .refl _⟩
  · rename_i hframes
    rw [show s.atFrame = false by simp [Progress.atFrame, hframes]]
    exact ⟨rfl, .refl _⟩

theorem delegateTo_moved (e : Ast) (base : String) :
    Ensures (delegateTo e base) s fun body s' =>
      ∃ cache, body = delegate e cache ∧
        if s.atFrame then cache = some (s.names.freshName base) ∧
          Moved [] cache.toList [] (s.names.insert (s.names.freshName base)) s s'
        else cache = none ∧ Moved [] [] [] s.names s s' :=
  .bind (cacheName_moved base) fun cache _ hcache => .pure ⟨cache, rfl, hcache⟩

theorem Candidate.ofFunction_body {kind : FunctionKind} {name : Option String} {f : Ast}
    {c : Candidate} (hc : Candidate.ofFunction kind name f = some c) : functionBody f = c.body := by
  obtain ⟨_, _, _, _, _, _, _, _, rfl, -, -, rfl⟩ := Candidate.ofFunction_eq_some hc
  rfl

/-- A function of a name stays as it is, or is reported, or loses its marker. -/
theorem convertDeclared_moved (hs : s.frames ≠ []) (name f : Ast) :
    Ensures (convertDeclared job name f) s fun f' s' =>
      (f' = f ∧ Moved [] [] [] s.names s s' ∧ ∀ n c, name.identName? = some n →
        Candidate.ofFunction .declaration (some n) f = some c → job.isMarked c.body = false) ∨
      ∃ n c, name.identName? = some n ∧ Candidate.ofFunction .declaration (some n) f = some c ∧
        job.isMarked c.body = true ∧
        ((∃ refusal, job.prepare c = .error refusal ∧ f' = f ∧
            Moved [.refused ⟨refusal, job.locate c.span⟩] [] [] s.names s s') ∨
          ∃ p, job.prepare c = .ok p ∧ f' = withBody p.candidate.body f ∧
            Moved [.converted ⟨p, .directive, declaredWith p.candidate.body f⟩] []
              (metadataStmts n p.metadata) s.names s s') := by
  unfold convertDeclared
  refine .get ?_
  split
  · rename_i n frame frames hn hframes
    split
    · rename_i hmarked
      split
      · rename_i hc
        refine .pure (.inl ⟨rfl, .refl _, fun n' c hn' hc' => ?_⟩)
        cases hn.symm.trans hn'
        cases hc.symm.trans hc'
      · rename_i c hc
        rw [Candidate.ofFunction_body hc] at hmarked
        refine .bind (attempt_moved job c .directive fun p => declaredWith p.candidate.body f) ?_
        rintro r s' (⟨p, hp, rfl, hm⟩ | ⟨refusal, hp, rfl, hm⟩)
        · refine .bind (modifyFrame_moved [] (metadataStmts n p.metadata) fun frame => by simp) ?_
          intro _ s'' hm'
          rw [hm.names] at hm'
          exact .pure (.inr ⟨n, c, hn, hc, hmarked, .inr ⟨p, hp, rfl, hm.trans hm'⟩⟩)
        · exact .pure (.inr ⟨n, c, hn, hc, hmarked, .inl ⟨refusal, hp, rfl, hm⟩⟩)
    · rename_i hmarked
      refine .pure (.inl ⟨rfl, .refl _, fun n' c hn' hc => ?_⟩)
      rw [← Candidate.ofFunction_body hc]
      simpa using hmarked
  · rename_i hnone
    refine .pure (.inl ⟨rfl, .refl _, fun n c hn hc => ?_⟩)
    cases hf : s.frames with
    | nil => exact absurd hf hs
    | cons frame frames => exact absurd hf (hnone n frame frames hn)

/-! ### Nodes -/

/-- A step does to a node in a slot what the node's form says. -/
def Treats (job : Job) (w : Slot) (t : Ast) (s : Progress) (x : Converting Ast) : Prop :=
  Ensures x s fun t' s' => ∃ own,
    treat job w t (cacheFor job s.atFrame s.names w t).1 = (t', own) ∧ own.late = [] ∧
    Moved own.now own.caches own.stmts (cacheFor job s.atFrame s.names w t).2 s s'

section Treats

variable {w : Slot} {t : Ast} {f : Form} {p : Prepared} {refusal : Refusal}

theorem treat_none (hf : form? w t = none) (cache : Option String) :
    treat job w t cache = (t, {}) := by
  simp [treat, hf]

theorem treat_unmarked (hf : form? w t = some f) (hm : job.isMarked f.subject.body = false)
    (hd : w.detects t = none) (cache : Option String) : treat job w t cache = (t, {}) := by
  cases hp : f.subject.prepare job <;> simp [treat, hf, Form.treat, hp, hm, hd]

theorem treat_refused (hf : form? w t = some f) (hm : job.isMarked f.subject.body = true)
    (hd : w.detects t = none) (hp : f.subject.prepare job = .error refusal)
    (cache : Option String) :
    treat job w t cache = (t, { now := [.refused ⟨refusal, job.locate f.subject.span⟩] }) := by
  simp [treat, hf, Form.treat, hp, hm, hd]

theorem treat_ok (hf : form? w t = some f) (hm : job.isMarked f.subject.body = true)
    (hp : f.subject.prepare job = .ok p) (cache : Option String) :
    treat job w t cache =
      (f.turned p cache,
        { now := [.converted ⟨p, .directive, f.callable p⟩]
          caches := if f.isAccessor then cache.toList else []
          stmts := f.attached p }) := by
  simp [treat, hf, Form.treat, hp, hm]

theorem Treats.of_none {x : Converting Ast} (hc : cacheFor job s.atFrame s.names w t = (none, s.names))
    (h : Ensures x s fun t' s' => ∃ own, treat job w t none = (t', own) ∧ own.late = [] ∧
      Moved own.now own.caches own.stmts s.names s s') : Treats job w t s x := by
  unfold Treats
  rw [hc]
  exact h

theorem Treats.none (hf : form? w t = none) : Treats job w t s (pure t) :=
  .of_none (cacheFor_none hf) (.pure ⟨{}, treat_none hf _, rfl, .refl _⟩)

theorem Treats.unmarked (hf : form? w t = some f) (hm : job.isMarked f.subject.body = false)
    (hd : w.detects t = Option.none) : Treats job w t s (pure t) :=
  .of_none (cacheFor_unmarked hf hm) (.pure ⟨{}, treat_unmarked hf hm hd _, rfl, .refl _⟩)

theorem Treats.ifMarked {c : Option Candidate} {form : Candidate → Form} {marked : Bool}
    {x : Converting Ast} (hform : ∀ c, (form c).subject = .candidate c)
    (hf : form? w t = c.map form) (hb : ∀ c', c = some c' → marked = job.isMarked c'.body)
    (hd : w.detects t = Option.none) (hnone : c = Option.none → x = pure t)
    (hx : ∀ c', c = some c' → job.isMarked c'.body = true → Treats job w t s x) :
    Treats job w t s (if marked then x else pure t) := by
  cases c with
  | none =>
    rw [hnone rfl, ite_self]
    exact .none hf
  | some c =>
    rw [hb c rfl]
    split
    · exact hx c rfl ‹_›
    · rename_i hm
      exact .unmarked hf (by simpa [hform, Subject.body] using hm) hd

theorem Treats.wrapped {place : Ast → Ast} {c : Option Candidate} {marked : Bool}
    (hf : form? w t = c.map (.wrapped place))
    (hb : ∀ c', c = some c' → marked = job.isMarked c'.body) (hd : w.detects t = Option.none)
    {k : Option Ast → Converting Ast} (hsome : ∀ e, k (some e) = pure (place e))
    (hnone : k Option.none = pure t) :
    Treats job w t s
      (if marked then Worklet.wrapped job c .directive >>= k else pure t) := by
  refine .ifMarked (fun _ => rfl) hf hb hd (by rintro rfl; exact hnone) ?_
  rintro c rfl hm
  refine .of_none (cacheFor_of_not_accessor hf rfl) (.bind (wrapped_moved job c .directive) ?_)
  rintro r s' (⟨p, hp, rfl, hmoved⟩ | ⟨refusal, hp, rfl, hmoved⟩)
  · rw [hsome]
    exact .pure ⟨_, treat_ok hf hm hp _, rfl, hmoved⟩
  · rw [hnone]
    exact .pure ⟨_, treat_refused hf hm hd hp _, rfl, hmoved⟩

/-- A marked accessor hands over to its wrapper. -/
theorem Treats.accessor {place : Ast → Ast} {c : Option Candidate} {marked : Bool}
    (hf : form? w t = c.map (.accessor place))
    (hb : ∀ c', c = some c' → marked = job.isMarked c'.body) (hd : w.detects t = Option.none)
    {k : Option Ast → Converting Ast}
    (hsome : ∀ e, k (some e) = do return place (← delegateTo e (cacheBase t)))
    (hnone : k Option.none = pure t) :
    Treats job w t s
      (if marked then Worklet.wrapped job c .directive >>= k else pure t) := by
  refine .ifMarked (fun _ => rfl) hf hb hd (by rintro rfl; exact hnone) ?_
  rintro c rfl hm
  refine .bind (wrapped_moved job c .directive) ?_
  rintro r s' (⟨p, hp, rfl, hmoved⟩ | ⟨refusal, hp, rfl, hmoved⟩)
  · have hframe : s'.atFrame = s.atFrame := by
      unfold Progress.atFrame
      rw [hmoved.frames, hmoved.depth, queued_nil]
    rw [hsome]
    refine .bind (delegateTo_moved p.wrapper (cacheBase t)) ?_
    rintro _ s'' ⟨cache, rfl, hcache⟩
    rw [hframe, hmoved.names] at hcache
    cases hnear : s.atFrame with
    | true =>
      rw [hnear, if_pos rfl] at hcache
      obtain ⟨rfl, hcache⟩ := hcache
      rw [cacheFor_near hf rfl hm hp]
      exact .pure ⟨_, treat_ok hf hm hp _, rfl, hmoved.trans hcache⟩
    | false =>
      rw [hnear, if_neg (by simp)] at hcache
      obtain ⟨rfl, hcache⟩ := hcache
      rw [cacheFor_far]
      exact .pure ⟨_, treat_ok hf hm hp _, rfl, hmoved.trans hcache⟩
  · rw [hnone, cacheFor_refused hf hp]
    exact .pure ⟨_, treat_refused hf hm hd hp _, rfl, hmoved⟩

/-- A marked function of a name loses its marker. -/
theorem Treats.declared {place : Ast → Ast} {name f : Ast} (hs : s.frames ≠ [])
    (hf : form? w t = Form.ofDeclaration place name f) (hd : w.detects t = Option.none)
    (ht : place f = t) :
    Treats job w t s (do return place (← convertDeclared job name f)) := by
  have hcache : cacheFor job s.atFrame s.names w t = (Option.none, s.names) := by
    cases hform : form? w t with
    | none => exact cacheFor_none hform
    | some form =>
      have hform' := hform
      rw [hf, Form.ofDeclaration, Option.bind_eq_some_iff] at hform'
      obtain ⟨n, -, hform'⟩ := hform'
      obtain ⟨c, -, rfl⟩ := Option.map_eq_some_iff.1 hform'
      exact cacheFor_of_not_accessor hform rfl
  refine .bind (convertDeclared_moved hs name f) ?_
  rintro f' s' (⟨rfl, hmoved, hplain⟩ | ⟨n, c, hn, hc, hm, hresult⟩)
  · refine .pure ⟨{}, ?_, rfl, ?_⟩
    · rw [ht]
      cases hform : form? w t with
      | none => exact treat_none hform _
      | some form =>
        rw [hf, Form.ofDeclaration, Option.bind_eq_some_iff] at hform
        obtain ⟨n, hn, hform⟩ := hform
        obtain ⟨c, hc, rfl⟩ := Option.map_eq_some_iff.1 hform
        exact treat_unmarked (by rw [hf, Form.ofDeclaration, hn, Option.bind_some, hc]; rfl)
          (hplain n c hn hc) hd _
    · rw [hcache]
      exact hmoved
  · have hform : form? w t = some (.declared place n f c) := by
      rw [hf, Form.ofDeclaration, hn, Option.bind_some, hc]
      rfl
    rw [hcache]
    rcases hresult with ⟨refusal, hp, rfl, hmoved⟩ | ⟨p, hp, rfl, hmoved⟩
    · refine .pure ⟨{ now := _ }, ?_, rfl, hmoved⟩
      rw [treat_refused hform hm hd hp, ht]
      rfl
    · exact .pure ⟨_, treat_ok hform hm hp _, rfl, hmoved⟩

/-! ### Each kind of node -/

theorem convertExpr_treats {t : Ast} (hp : t.kind? ≠ some .paren)
    (hf : form? .plain t = (Candidate.ofExpr t).map (.wrapped id))
    (hb : ∀ c, Candidate.ofExpr t = some c → job.isMarked (exprBody t) = job.isMarked c.body) :
    Treats job .plain t s (convertExpr job t) := by
  have hexpr : convertFunctionExpr job .directive t =
      (do return (← Worklet.wrapped job (Candidate.ofExpr t) .directive).getD t) := by
    unfold convertFunctionExpr
    split
    · simp [Ast.kind?] at hp
    · rfl
  rw [convertExpr, hexpr]
  exact .wrapped hf hb rfl (fun _ => rfl) rfl

theorem convertFuncExpr_treats (sp : Span) (cs : List Ast) :
    Treats job .plain (.node .funcExpr sp cs) s (convertExpr job (.node .funcExpr sp cs)) := by
  rcases cs with _ | ⟨name, _ | ⟨f, _ | ⟨_, _⟩⟩⟩
  case cons.cons.nil =>
    refine convertExpr_treats (by simp [Ast.kind?]) rfl fun c hc => ?_
    rw [← Candidate.ofFunction_body hc]
    rfl
  all_goals exact convertExpr_treats (by simp [Ast.kind?]) rfl fun c hc => by cases hc

theorem convertArrow_treats (a : Bool) (sp : Span) (cs : List Ast) :
    Treats job .plain (.node (.arrow a) sp cs) s (convertExpr job (.node (.arrow a) sp cs)) := by
  refine convertExpr_treats (by simp [Ast.kind?]) rfl fun c hc => ?_
  obtain ⟨_, _, _, _, _, ⟨⟩, rfl⟩ := Candidate.ofArrow_eq_some hc
  exact (hasDirective_arrowBody _ _).symm

theorem isMarked_ofFunction {kind : FunctionKind} {name : Option String} {f : Ast} (c : Candidate)
    (hc : Candidate.ofFunction kind name f = some c) :
    job.isMarked (functionBody f) = job.isMarked c.body := by
  rw [Candidate.ofFunction_body hc]

theorem convertProp_treats {k : Kind} (hk : k = .method ∨ k = .getter ∨ k = .setter) (sp : Span)
    (cs : List Ast) :
    Treats job .plain (.node k sp cs) s (convertProp job (.node k sp cs)) := by
  unfold convertProp
  split
  · rename_i key f heq
    cases heq
    exact .wrapped rfl isMarked_ofFunction rfl (fun _ => rfl) rfl
  · rename_i key type body heq
    cases heq
    refine .accessor rfl (fun c hc => ?_) rfl (fun _ => rfl) rfl
    obtain ⟨_, _, _, _, ⟨⟩, -, rfl⟩ := Candidate.ofGetter_eq_some hc
    rfl
  · rename_i key this param body heq
    cases heq
    refine .accessor rfl (fun c hc => ?_) rfl (fun _ => rfl) rfl
    obtain ⟨_, _, _, _, _, ⟨⟩, -, rfl⟩ := Candidate.ofSetter_eq_some hc
    rfl
  · refine .none ?_
    unfold form?
    split <;> grind

/-- A function of a form that is never converted is reported if it is marked. -/
theorem Treats.unsupported {shape : Shape} {span : Span} {body : Ast}
    (hf : form? w t = some (.unsupported shape span body)) (hd : w.detects t = Option.none) :
    Treats job w t s
      (if job.isMarked body then do report (.unsupported shape) (job.locate span); return t
        else pure t) := by
  split
  · rename_i hm
    refine .of_none (cacheFor_of_not_accessor hf rfl)
      (.bind (report_moved (.unsupported shape) (job.locate span)) fun _ s' hmoved => ?_)
    exact .pure ⟨_, treat_refused hf hm hd rfl _, rfl, hmoved⟩
  · rename_i hm
    exact .unmarked hf (Bool.eq_false_iff.2 hm) hd

theorem convertMember_treats {k : Kind}
    (hk : (∃ kind mods, k = .classMethod kind mods) ∨ ∃ access opt, k = .constructor access opt)
    (sp : Span) (cs : List Ast) :
    Treats job .plain (.node k sp cs) s (convertMember job (.node k sp cs)) := by
  have hflip (b : Bool) (x y : Converting Ast) :
      (if !b then x else y) = if b then y else x := by cases b <;> rfl
  unfold convertMember
  split
  · rename_i kind mods sp key f heq
    cases heq
    simp only [hflip]
    by_cases hkey : key.isPrivateName = true
    · rw [if_pos hkey]
      exact .unsupported (by simp [form?, hkey]) rfl
    · rw [if_neg hkey]
      have hform : form? .plain (.node (.classMethod kind mods) sp [key, f]) =
          (Candidate.ofFunction (.ofMethod kind mods.isStatic) (keyText key) f).map
            (.ofMethod kind mods sp key f) := by
        simp only [form?, if_neg hkey]
      cases kind with
      | method => exact .wrapped hform isMarked_ofFunction rfl (fun _ => rfl) rfl
      | getter | setter => exact .accessor hform isMarked_ofFunction rfl (fun _ => rfl) rfl
  · rename_i access opt sp cs heq
    cases heq
    have hform : form? .plain (.node (.constructor access opt) sp cs) =
        some (.unsupported .constructor sp ((Ast.node (.constructor access opt) sp cs).child 2)) :=
      rfl
    have h := @Treats.unsupported job s .plain _ _ _ _ hform rfl
    split at h
    · rename_i hm
      rw [if_pos hm]
      exact h
    · rename_i hm
      rw [if_neg hm]
      exact h
  · refine .none ?_
    unfold form?
    split <;> grind

/-- **A node whose parts are converted becomes what its form says.** -/
theorem convertNode_treats {k : Kind} (hs : s.frames ≠ []) (hk : k ≠ .call) (sp : Span)
    (cs : List Ast) :
    Treats job .plain (.node k sp cs) s (convertNode job (.node k sp cs)) := by
  unfold convertNode
  split
  case h_10 =>
    refine .none ?_
    unfold form?
    split <;> grind
  all_goals
    rename_i heq
    cases heq
  case h_1 => exact convertFuncExpr_treats sp cs
  case h_2 => exact convertArrow_treats _ sp cs
  case h_3 => exact absurd rfl hk
  case h_4 => exact .declared hs rfl rfl rfl
  case h_5 | h_6 | h_7 => exact convertProp_treats (by simp) sp cs
  case h_8 | h_9 => exact convertMember_treats (by simp) sp cs

/-- A function exported by default, whose parts are converted. -/
theorem convertItem_treats (hs : s.frames ≠ []) (sp fs : Span) (cs : List Ast) :
    Treats job .statement (.node .exportDefaultDecl sp [.node .funcExpr fs cs]) s
      (convertItem job (.node .exportDefaultDecl sp [.node .funcExpr fs cs])) := by
  unfold convertItem
  split
  · rename_i name f heq
    cases heq
    by_cases hname : name.isPresent = true
    · rw [if_pos hname]
      exact .declared hs (by simp [form?, hname]) rfl rfl
    · rw [if_neg hname]
      exact .wrapped (by simp [form?, hname]) isMarked_ofFunction rfl (fun _ => rfl) rfl
  · refine .none ?_
    unfold form?
    split <;> grind

end Treats

end Traced

end Worklet
