import Worklet.Proofs.Convert.Stable
import Worklet.Proofs.Scope.Likeness

/-!
# Functions of trees that are read alike

Principal results: `Candidate.ofFunction_eq_some` and its like — what a tree is that is a candidate;
`subject?_form?` — a form is the form of the function that a node is; `FunctionLikeness.subject?` —
nodes with related children are related functions.
-/

set_option autoImplicit false

namespace Worklet

open Syntax

/-! ### What candidates are read from -/

variable {kind : FunctionKind} {name : Option String} {mods : Modifiers} {s : Span} {w : Slot}
  {k : Kind} {α : Type} {t t' : Ast}

namespace Candidate

variable {c : Candidate}

theorem ofFunction_eq_some (h : ofFunction kind name t = some c) :
    ∃ a g s ps d body rest qs, t = .node (.function a g) s (.list ps :: d :: body :: rest) ∧
      body.isAbsent = false ∧ paramPatterns? ps = some qs ∧ c = ⟨kind, name, qs, body, s, a, g⟩ := by
  unfold ofFunction at h
  split at h
  · split at h
    · cases h
    · rename_i hbody
      obtain ⟨qs, hqs, rfl⟩ := Option.map_eq_some_iff.1 h
      exact ⟨_, _, _, _, _, _, _, qs, rfl, Bool.eq_false_iff.2 hbody, hqs, rfl⟩
  · cases h

theorem ofArrow_eq_some (h : ofArrow t = some c) :
    ∃ a s ps body rest, t = .node (.arrow a) s (.list ps :: body :: rest) ∧
      c = ⟨.arrow, none, ps, arrowBody body, s, a, false⟩ := by
  unfold ofArrow at h
  split at h
  · cases h
    exact ⟨_, _, _, _, _, rfl, rfl⟩
  · cases h

theorem ofGetter_eq_some (h : ofGetter t = some c) :
    ∃ s key type body, t = .node .getter s [key, type, body] ∧ body.isAbsent = false ∧
      c = ⟨.objectGetter, keyText key, [], body, s, false, false⟩ := by
  unfold ofGetter at h
  split at h
  · rw [Option.ite_none_left_eq_some] at h
    cases h.2
    exact ⟨_, _, _, _, rfl, Bool.eq_false_iff.2 h.1, rfl⟩
  · cases h

theorem ofSetter_eq_some (h : ofSetter t = some c) :
    ∃ s key this param body, t = .node .setter s [key, this, param, body] ∧
      body.isAbsent = false ∧
      c = ⟨.objectSetter, keyText key, [param], body, s, false, false⟩ := by
  unfold ofSetter at h
  split at h
  · rw [Option.ite_none_left_eq_some] at h
    cases h.2
    exact ⟨_, _, _, _, _, rfl, Bool.eq_false_iff.2 h.1, rfl⟩
  · cases h

theorem ofFunction_eq_none (h : ∀ a g s cs, t ≠ .node (.function a g) s cs) :
    ofFunction kind name t = none := by
  unfold ofFunction
  split
  · exact absurd rfl (h _ _ _ _)
  · rfl

end Candidate

theorem functionBody_eq_absent {f : Ast} (h : ∀ a g s cs, f ≠ .node (.function a g) s cs) :
    functionBody f = .absent := by
  unfold functionBody
  split
  · exact absurd rfl (h _ _ _ _)
  · rfl

/-! ### The function that a node is -/

theorem candidate?_classMethod {kind : MethodKind} {key f : Ast} (hkey : key.isPrivateName = false) :
    candidate? (.node (.classMethod kind mods) s [key, f]) =
      Candidate.ofFunction (.ofMethod kind mods.isStatic) (keyText key) f := by
  have hnone : ∀ text s cs, key ≠ .node (.privateName text) s cs := by
    rintro text s cs rfl
    cases hkey
  unfold candidate?
  split <;> grind

/-- The form of a node belongs to the function that the node is. -/
theorem subject?_form? (w : Slot) (t : Ast) : (form? w t).map (·.subject) = subject? w t := by
  have hmap (c : Option Candidate) (g : Candidate → Form) (hg : ∀ c, (g c).subject = .candidate c) :
      (c.map g).map (·.subject) = c.map .candidate := by
    cases c with
    | none => rfl
    | some c => simp [hg]
  have hdecl (place : Ast → Ast) (name f : Ast) (h : name.identName?.isSome = true) :
      (Form.ofDeclaration place name f).map (·.subject) =
        (Candidate.ofFunction .declaration name.identName? f).map .candidate := by
    obtain ⟨n, hn⟩ := Option.isSome_iff_exists.1 h
    rw [Form.ofDeclaration, hn, Option.bind_some, hmap _ _ fun _ => rfl]
  have hnone (place : Ast → Ast) (name f : Ast) (h : ¬ name.identName?.isSome = true) :
      (Form.ofDeclaration place name f).map (·.subject) = none := by
    rw [Form.ofDeclaration, Option.not_isSome_iff_eq_none.1 h]
    rfl
  unfold form?
  split
  · simp only [subject?, candidate?]
    split
    · rfl
    · exact hmap _ _ fun _ => rfl
  · exact hmap _ _ fun _ => rfl
  · simp only [subject?, candidate?]
    split
    · exact hdecl _ _ _ ‹_›
    · exact hnone _ _ _ ‹_›
  · exact hmap _ _ fun _ => rfl
  · exact hmap _ _ fun _ => rfl
  · exact hmap _ _ fun _ => rfl
  · rename_i kind mods s key f
    simp only [subject?]
    split
    · rfl
    · rename_i hkey
      rw [hmap _ _ fun c => by cases kind <;> rfl]
      rw [candidate?_classMethod (Bool.eq_false_iff.2 hkey)]
  · rfl
  · rename_i s fs name f
    simp only [subject?]
    by_cases hw : w = .statement
    · simp only [hw, true_and]
      cases hname : name.isPresent with
      | true =>
        simp only [if_true, forall_const]
        split
        · exact hdecl _ _ _ ‹_›
        · exact hnone _ _ _ ‹_›
      | false =>
        have hident : name.identName? = none := by
          unfold Ast.isPresent Ast.isAbsent at hname
          split at hname
          · rfl
          · cases hname
        simp only [Bool.false_eq_true, if_false, IsEmpty.forall_iff, if_true, hident]
        exact hmap _ _ fun _ => rfl
    · simp [hw]
  · rename_i hexpr harrow hdeclared hmethod hgetter hsetter hclass hctor hdefault
    unfold subject?
    split
    · exact absurd rfl (hctor _ _ _ _)
    · exact absurd rfl (hclass _ _ _ _ _)
    · split
      · rfl
      · simp only [candidate?, Candidate.ofExpr]
        rfl
    · exact absurd rfl (hdeclared _ _ _ _)
    · exact absurd rfl (hdefault _ _ _ _)
    · rename_i _ _ hother _ _
      unfold candidate?
      split
      · exact absurd rfl (hdeclared _ _ _ _)
      · exact absurd rfl (hother _ _)
      · exact absurd rfl (harrow _ _ _)
      · exact absurd rfl (hmethod _ _ _)
      · simp only [Candidate.ofGetter]
        rfl
      · simp only [Candidate.ofSetter]
        rfl
      · rfl
      · exact absurd rfl (hclass _ _ _ _ _)
      · rfl

theorem subject?_classMethod_of_length {kind : MethodKind} {cs : List Ast} (h : cs.length ≠ 2) :
    subject? w (.node (.classMethod kind mods) s cs) = none := by
  unfold subject?
  split <;> simp_all
  unfold candidate?
  split <;> simp_all

theorem subject?_eq_none (hk : isFunctionKind k = false) (s : Span) (cs : List Ast) :
    subject? w (.node k s cs) = none := by
  rw [← subject?_form?, form?_eq_none hk]
  rfl

/-! ### Functions alike -/

section Alike

variable (φ : Span → Span) (E : Ast → Ast → Prop)

/-- Two candidates of the same form, with related parameters and bodies. An expression that is the
body of an arrow counts before it is made a block. -/
structure Candidate.Like (c c' : Candidate) : Prop where
  kind : c'.kind = c.kind
  name : c'.name = c.name
  span : c'.span = φ c.span
  isAsync : c'.isAsync = c.isAsync
  isGenerator : c'.isGenerator = c.isGenerator
  params : List.Forall₂ E c.params c'.params
  body : E c.body c'.body ∨
    ∃ b b', E b b' ∧ c.body = Candidate.arrowBody b ∧ c'.body = Candidate.arrowBody b'

/-- Two functions, one at either span, with related parameters and bodies. -/
inductive Subject.Like (s s' : Span) : Subject → Subject → Prop
  | candidate {c c' : Candidate} : c.Like φ E c' → Subject.Like s s' (.candidate c) (.candidate c')
  | unsupported (shape : Shape) {body body' : Ast} : E body body' →
    Subject.Like s s' (.unsupported shape s body) (.unsupported shape s' body')

/-- A likeness that keeps the keys of methods. -/
structure FunctionLikeness : Prop extends Likeness φ E where
  absent : E .absent .absent
  key : ∀ {t t' : Ast}, E t t' → keyText t' = keyText t
  privateName : ∀ {t t' : Ast}, E t t' → t'.isPrivateName = t.isPrivateName

variable {φ E}

theorem rel_map {β : Type} {R : α → α → Prop} {S : β → β → Prop} {f g : α → β} {a b : Option α}
    (hf : ∀ {x y}, R x y → S (f x) (g y)) (h : Option.Rel R a b) :
    Option.Rel S (a.map f) (b.map g) := by
  cases h with
  | none => exact .none
  | some h => exact .some (hf h)

theorem rel_imp {R S : α → α → Prop} {a b : Option α} (hRS : ∀ x y, R x y → S x y)
    (h : Option.Rel R a b) : Option.Rel S a b := by
  cases h with
  | none => exact .none
  | some h => exact .some (hRS _ _ h)

theorem paramPatterns?_eq_none (h : ∀ s cs, t ≠ .node .param s cs) (ts : List Ast) :
    paramPatterns? (t :: ts) = none := by
  unfold paramPatterns?
  split
  · cases ‹_ = []›
  · rename_i heq
    cases heq
    exact absurd rfl (h _ _)
  · rfl

namespace FunctionLikeness

variable (L : FunctionLikeness φ E)
include L

theorem isAbsent_eq (h : E t t') : t'.isAbsent = t.isAbsent := by
  simpa [Ast.isPresent] using L.present h

theorem paramPatterns? {ts ts' : List Ast} (h : List.Forall₂ E ts ts') :
    Option.Rel (List.Forall₂ E) (Worklet.paramPatterns? ts) (Worklet.paramPatterns? ts') := by
  induction h with
  | nil => exact .some .nil
  | cons h _ ih =>
    rcases L.node (k := .param) h rfl with ⟨s, s', cs, cs', rfl, rfl, -, hcs⟩ | ⟨ht, ht'⟩
    · rcases hcs with _ | ⟨_, _ | ⟨hp, _ | ⟨_, _⟩⟩⟩
      case cons.cons.nil => exact rel_map (fun h => .cons hp h) ih
      all_goals exact .none
    · rw [paramPatterns?_eq_none ht, paramPatterns?_eq_none ht']
      exact .none

theorem ofFunction (h : E t t') (kind : FunctionKind) (name : Option String) :
    Option.Rel (Candidate.Like φ E) (Candidate.ofFunction kind name t)
      (Candidate.ofFunction kind name t') := by
  rcases L.function_or h with ⟨a, g, s, cs, cs', rfl, rfl, hcs⟩ | ⟨hf, hf'⟩
  · rcases hcs with _ | ⟨hps, _ | ⟨_, _ | ⟨hbody, _⟩⟩⟩
    case cons.cons.cons =>
      rcases L.list hps with ⟨ps, ps', rfl, rfl, hpatterns⟩ | ⟨hne, hne'⟩
      · simp only [Candidate.ofFunction, L.isAbsent_eq hbody]
        split
        · exact .none
        · exact rel_map (fun h => ⟨rfl, rfl, rfl, rfl, rfl, h, .inl hbody⟩) (L.paramPatterns? hpatterns)
      · have hnone {ps : Ast} (h : ∀ ts, ps ≠ .list ts) (s : Span) (cs : List Ast) :
            Candidate.ofFunction kind name (.node (.function a g) s (ps :: cs)) = none := by
          unfold Candidate.ofFunction
          split
          · rename_i heq
            cases heq
            exact absurd rfl (h _)
          · rfl
        rw [hnone hne, hnone hne']
        exact .none
    all_goals
      simp only [Candidate.ofFunction]
      exact .none
  · rw [Candidate.ofFunction_eq_none hf, Candidate.ofFunction_eq_none hf']
    exact .none

theorem functionBody (h : E t t') : E (functionBody t) (functionBody t') := by
  rcases L.function_or h with ⟨a, g, s, cs, cs', rfl, rfl, hcs⟩ | ⟨hf, hf'⟩
  · rcases hcs with _ | ⟨_, _ | ⟨_, _ | ⟨hbody, _⟩⟩⟩
    case cons.cons.cons => exact hbody
    all_goals exact L.absent
  · rw [functionBody_eq_absent hf, functionBody_eq_absent hf']
    exact L.absent

theorem getD {ts ts' : List Ast} (h : List.Forall₂ E ts ts') (i : Nat) :
    E (ts.getD i .absent) (ts'.getD i .absent) := by
  induction h generalizing i with
  | nil => exact L.absent
  | cons h _ ih =>
    cases i with
    | zero => exact h
    | succ i => simpa using ih i

section Nodes

variable {cs cs' : List Ast} (h : List.Forall₂ E cs cs') {s s' : Span}
include h

theorem ofArrow (hs : s' = φ s) (a : Bool) :
    Option.Rel (Candidate.Like φ E) (Candidate.ofArrow (.node (.arrow a) s cs))
      (Candidate.ofArrow (.node (.arrow a) s' cs')) := by
  rcases h with _ | ⟨hps, _ | ⟨hbody, _⟩⟩
  case cons.cons =>
    rcases L.list hps with ⟨ps, ps', rfl, rfl, hpatterns⟩ | ⟨hne, hne'⟩
    · exact .some ⟨rfl, rfl, hs, rfl, rfl, hpatterns, .inr ⟨_, _, hbody, rfl, rfl⟩⟩
    · have hnone {ps : Ast} (h : ∀ ts, ps ≠ .list ts) (s : Span) (cs : List Ast) :
          Candidate.ofArrow (.node (.arrow a) s (ps :: cs)) = none := by
        unfold Candidate.ofArrow
        split
        · rename_i heq
          cases heq
          exact absurd rfl (h _)
        · rfl
      rw [hnone hne, hnone hne']
      exact .none
  all_goals
    simp only [Candidate.ofArrow]
    exact .none

theorem ofGetter (hs : s' = φ s) :
    Option.Rel (Candidate.Like φ E) (Candidate.ofGetter (.node .getter s cs))
      (Candidate.ofGetter (.node .getter s' cs')) := by
  rcases h with _ | ⟨hkey, _ | ⟨_, _ | ⟨hbody, _ | ⟨_, _⟩⟩⟩⟩
  case cons.cons.cons.nil =>
    simp only [Candidate.ofGetter, L.isAbsent_eq hbody, L.key hkey]
    split
    · exact .none
    · exact .some ⟨rfl, rfl, hs, rfl, rfl, .nil, .inl hbody⟩
  all_goals exact .none

theorem ofSetter (hs : s' = φ s) :
    Option.Rel (Candidate.Like φ E) (Candidate.ofSetter (.node .setter s cs))
      (Candidate.ofSetter (.node .setter s' cs')) := by
  rcases h with _ | ⟨hkey, _ | ⟨_, _ | ⟨hparam, _ | ⟨hbody, _ | ⟨_, _⟩⟩⟩⟩⟩
  case cons.cons.cons.cons.nil =>
    simp only [Candidate.ofSetter, L.isAbsent_eq hbody, L.key hkey]
    split
    · exact .none
    · exact .some ⟨rfl, rfl, hs, rfl, rfl, .cons hparam .nil, .inl hbody⟩
  all_goals exact .none

/-- Related default exports are related functions. -/
theorem subject?_default (w : Slot)
    (hd : ∀ t t', cs = [t] → cs' = [t'] → DefaultsAlike E t t') :
    Option.Rel (Subject.Like φ E s s') (subject? w (.node .exportDefaultDecl s cs))
      (subject? w (.node .exportDefaultDecl s' cs')) := by
  have hnone {s : Span} {cs : List Ast} (h : ∀ fs name f, cs ≠ [.node .funcExpr fs [name, f]]) :
      subject? w (.node .exportDefaultDecl s cs) = none := by
    unfold subject?
    split <;> simp_all [candidate?]
  rcases h with _ | ⟨_, _ | ⟨_, _⟩⟩
  case cons.nil =>
    rcases hd _ _ rfl rfl with ⟨fs, fs', ds, ds', rfl, rfl, hds⟩ | ⟨ht, ht'⟩
    · rcases hds with _ | ⟨hname, _ | ⟨hf, _ | ⟨_, _⟩⟩⟩
      case cons.cons.nil =>
        simp only [subject?, L.identName?_eq hname, L.present hname]
        split
        · exact rel_map .candidate (L.ofFunction hf _ _)
        · exact .none
      all_goals
        rw [hnone (by simp), hnone (by simp)]
        exact .none
    · rw [hnone (by simpa using fun fs name f => ht fs [name, f]),
        hnone (by simpa using fun fs name f => ht' fs [name, f])]
      exact .none
  all_goals
    rw [hnone (by simp), hnone (by simp)]
    exact .none

/-- **Nodes with related children are related functions.** -/
theorem subject? (w : Slot) (hs : opensFunction k = true → s' = φ s)
    (hd : k = .exportDefaultDecl → ∀ t t', cs = [t] → cs' = [t'] → DefaultsAlike E t t') :
    Option.Rel (Subject.Like φ E s s') (Worklet.subject? w (.node k s cs))
      (Worklet.subject? w (.node k s' cs')) := by
  cases hk : isFunctionKind k with
  | false =>
    rw [subject?_eq_none hk, subject?_eq_none hk]
    exact .none
  | true =>
    revert hk
    fun_cases isFunctionKind k <;> intro hk
    · simp only [Worklet.subject?]
      split
      · exact .none
      · rcases h with _ | ⟨hname, _ | ⟨hf, _ | ⟨_, _⟩⟩⟩
        case cons.cons.nil =>
          simp only [candidate?, Candidate.ofExpr, L.identName?_eq hname]
          exact rel_map .candidate (L.ofFunction hf _ _)
        all_goals exact .none
    · exact rel_map .candidate (L.ofArrow h (hs rfl) _)
    · rcases h with _ | ⟨hname, _ | ⟨hf, _ | ⟨_, _⟩⟩⟩
      case cons.cons.nil =>
        simp only [Worklet.subject?, candidate?, L.identName?_eq hname]
        split
        · exact rel_map .candidate (L.ofFunction hf _ _)
        · exact .none
      all_goals exact .none
    · rcases h with _ | ⟨hkey, _ | ⟨hf, _ | ⟨_, _⟩⟩⟩
      case cons.cons.nil =>
        simp only [Worklet.subject?, candidate?, L.key hkey]
        exact rel_map .candidate (L.ofFunction hf _ _)
      all_goals exact .none
    · exact rel_map .candidate (L.ofGetter h (hs rfl))
    · exact rel_map .candidate (L.ofSetter h (hs rfl))
    · rcases h with _ | ⟨hkey, _ | ⟨hf, _ | ⟨_, _⟩⟩⟩
      case cons.cons.nil =>
        simp only [Worklet.subject?, L.privateName hkey]
        split
        · exact .some (.unsupported _ (L.functionBody hf))
        · rename_i hkey'
          have hkey' := Bool.eq_false_iff.2 hkey'
          rw [candidate?_classMethod hkey', candidate?_classMethod ((L.privateName hkey).trans hkey'),
            L.key hkey]
          exact rel_map .candidate (L.ofFunction hf _ _)
      all_goals
        rw [subject?_classMethod_of_length (by simp), subject?_classMethod_of_length (by simp)]
        exact .none
    · exact .some (.unsupported _ (L.getD h 2))
    · exact L.subject?_default h w (hd rfl)
    · cases hk

end Nodes

end FunctionLikeness

end Alike

end Worklet
