import Worklet.Proofs.Convert.GivesWay
import Worklet.Proofs.Convert.Opened
import Worklet.Proofs.Convert.Reasons

/-!
# What a program mentions

Converting makes identifiers: those of attached metadata, of wrappers and of accessors that hand over.
The identifiers that were read go along with their functions.

Principal result: `transform_keeps_mentions` — every other name is mentioned as often as before.
-/

set_option autoImplicit false

namespace Worklet

open Syntax Outline Scoping

/-! ### Identifiers that were read -/

def isIdent : Kind → Bool
  | .ident _ => true
  | _ => false

mutual

/-- The tree without the identifiers that were made. -/
def asRead : Ast → Ast
  | .absent => .absent
  | .list ts => .list (asReadAll ts)
  | .node k s cs => if isIdent k && s.isMade then .absent else .node k s (asReadAll cs)

def asReadAll : List Ast → List Ast
  | [] => []
  | t :: ts => asRead t :: asReadAll ts

end

theorem asReadAll_eq_map (ts : List Ast) : asReadAll ts = ts.map asRead := by
  induction ts with
  | nil => rw [asReadAll, List.map_nil]
  | cons t ts ih => rw [asReadAll, ih, List.map_cons]

variable {k : Kind} {c : Candidate} {cs : List Ast}

theorem asRead_node (hk : isIdent k = false) (s : Span) (cs : List Ast) :
    asRead (.node k s cs) = .node k s (asReadAll cs) := by
  simp [asRead, hk]

@[simp] theorem asRead_madeIdent (n : String) : asRead (madeIdent n) = .absent := rfl

/-! ### Names that facts mention -/

namespace Outline

mutual

/-- The names that a fact mentions. -/
def mentioned : Outline → List String
  | .reference n => [n]
  | .declare _ _ => []
  | .scope _ _ body => mentionedAll body

def mentionedAll : List Outline → List String
  | [] => []
  | o :: os => mentioned o ++ mentionedAll os

end

@[simp] theorem mentionedAll_append (os os' : List Outline) :
    mentionedAll (os ++ os') = mentionedAll os ++ mentionedAll os' :=
  Joins.append ⟨rfl, fun _ _ => rfl⟩ _ _

@[simp] theorem mentionedAll_declareAll (kind : BindingKind) (names : List String) :
    mentionedAll (declareAll kind names) = [] :=
  Joins.eq_nil ⟨rfl, fun _ _ => rfl⟩ (by simp [declareAll, mentioned])

mutual

theorem map_name_mentions : ∀ (o : Outline) (id next : Nat),
    (mentions id next o).map (·.name) = mentioned o
  | .reference _, _, _ => rfl
  | .declare _ _, _, _ => rfl
  | .scope _ _ body, _, _ => by rw [mentions, mentioned, map_name_mentionsAll body]

theorem map_name_mentionsAll : ∀ (os : List Outline) (id next : Nat),
    (mentionsAll id next os).map (·.name) = mentionedAll os
  | [], _, _ => rfl
  | o :: os, _, _ => by
    rw [mentionsAll, mentionedAll, List.map_append, map_name_mentions o, map_name_mentionsAll os]

end

end Outline

/-- The references of a module's table have the names that its facts mention. -/
theorem map_name_references (module : Ast) :
    (ScopeTable.ofModule module).references.map (·.name) = mentionedAll (outline module) := by
  rw [ScopeTable.ofModule, (ScopeTable.addAll_empty _).references]
  exact map_name_mentionsAll _ _ _

/-- The names that a tree mentions with identifiers that were read. -/
def readNames (m : Role) (t : Ast) : List String :=
  mentionedAll (outlineIn m (asRead t))

/-! ### Parts at stake -/

/-- The decorators of a function and of its parameters. -/
def decoratorsOf : Ast → List Ast
  | .node (.function _ _) _ (.list ps :: d :: _) => d :: ps.map (·.child 0)
  | _ => []

/-- The patterns of a function's parameters. -/
def patternsOf : Ast → List Ast
  | .node (.function _ _) _ (.list ps :: _) => ps.map (·.child 1)
  | _ => []

/-- Where the function of a node stands, and the names in the parts that the node loses or has twice
when the function is converted. -/
def atStake : Ast → Option (Span × List String)
  | .node .funcExpr _ [_, f] => some (f.span, (decoratorsOf f).flatMap (readNames .refers))
  | .node .method _ [_, f] => some (f.span, (decoratorsOf f).flatMap (readNames .refers))
  | .node (.classMethod .method _) _ [_, f] =>
    some (f.span, (decoratorsOf f).flatMap (readNames .refers))
  | .node (.classMethod _ _) _ [_, f] => some (f.span, (patternsOf f).flatMap (readNames .binds))
  | .node .setter s [_, _, param, _] => some (s, readNames .binds param)
  | _ => none

mutual

/-- The names in the parts that a tree loses or has twice when the functions at some places are
converted. -/
def misplaced (converted : List Span) : Ast → List String
  | .absent => []
  | .list ts => misplacedAll converted ts
  | .node k s cs =>
    (match atStake (.node k s cs) with
      | some (span, names) => if converted.contains span then names else []
      | none => []) ++ misplacedAll converted cs

def misplacedAll (converted : List Span) : List Ast → List String
  | [] => []
  | t :: ts => misplaced converted t ++ misplacedAll converted ts

end

/-! ### Made code -/

variable {converted : List Span} {t : Ast} {job : Job} {p : Prepared} {s : Span}
  {kind : FunctionKind} {name : Option String} {f : Form}

section Made

theorem mem_misplacedAll {n : String} :
    ∀ {ts : List Ast}, t ∈ ts → n ∈ misplaced converted t → n ∈ misplacedAll converted ts
  | _ :: _, .head _, h => List.mem_append_left _ h
  | _ :: _, .tail _ ht, h => List.mem_append_right _ (mem_misplacedAll ht h)

theorem asReadAll_append (ts us : List Ast) :
    asReadAll (ts ++ us) = asReadAll ts ++ asReadAll us := by
  simp only [asReadAll_eq_map, List.map_append]

theorem readNames_madeIdents (names : List String) :
    outlineAll .refers (asReadAll (names.map madeIdent)) = [] := by
  induction names with
  | nil => rfl
  | cons n ns ih => simp [asReadAll, outlineAll, outlineAs, ih]

theorem readNames_metadataStmts (target : String) (m : Metadata) :
    mentionedAll (outlineAll .refers (asReadAll (metadataStmts target m))) = [] := by
  simp [metadataStmts, assignProperty, madeStatement, madeAssign, madeMember, made, madeString,
    madeNumber, asReadAll, asRead, isIdent, outlineAll, outlineAs, isTypeKind, readNames_madeIdents,
    mentionedAll]

theorem readNames_params (ps : List Ast) :
    mentionedAll (outlineAll .refers (asReadAll (ps.map madeParam))) =
      ps.flatMap (readNames .binds) := by
  induction ps with
  | nil => rfl
  | cons p ps ih =>
    simp [madeParam, made, asReadAll, asRead, isIdent, outlineAll, outlineAs, ih, readNames,
      outlineIn]

/-- A call that makes a function and attaches its metadata mentions what the function does. -/
theorem readNames_wrap (a g : Bool) (params : List Ast) (body : Ast) (binding : String)
    (selfName : Option String) (m : Metadata) :
    readNames .refers (wrap (madeFunction a g params body) binding selfName m) =
      mentionedAll (outlineAll .refers (asReadAll params)) ++ readNames .body body := by
  simp [readNames, wrap, madeFunction, madeCall, madeParen, madeFunctionExpr, madeVar, madeReturn,
    madeBinding, madeBlock, made, asRead, asReadAll, asReadAll_append, isIdent, outlineIn, outlineAs,
    outlineAll, outlineAll_append, outlineDeclarators, boundNames, declareName, isTypeKind, bodyFacts,
    mentionedAll, mentioned, readNames_metadataStmts, Ast.identName?]

theorem readNames_stripDirective (marker : String) (t : Ast) :
    readNames .body (stripDirective marker t) = readNames .body t := by
  unfold stripDirective
  split
  · split
    · rename_i first rest h
      unfold isDirective at h
      split at h
      · simp [readNames, asRead, asReadAll, isIdent, outlineIn, outlineAs, outlineAll, isTypeKind,
          bodyFacts]
      · cases h
    · rfl
  · rfl

theorem readNames_wrapper (hp : job.prepare c = .ok p) :
    readNames .refers p.wrapper = c.params.flatMap (readNames .binds) ++ readNames .body c.body := by
  rw [Prepared.wrapper, Candidate.toFunction, readNames_wrap, Candidate.paramList, readNames_params,
    (Job.prepare_eq_ok hp).1, Candidate.unmarked, readNames_stripDirective]

/-- An accessor that hands over mentions what its function does. -/
theorem readNames_delegate (hp : job.prepare c = .ok p) (cache : Option String) :
    readNames .body (delegate p.wrapper cache) =
      c.params.flatMap (readNames .binds) ++ readNames .body c.body := by
  rw [← readNames_wrapper hp]
  cases cache <;>
    simp [readNames, delegate, madeBlock, madeReturn, madeCall, madeMember, madeParen, madeAssign,
      madeBinding, made, asRead, asReadAll, isIdent, outlineIn, outlineAs, outlineAll, isTypeKind,
      bodyFacts]

theorem readNames_unparen (t : Ast) : readNames .refers t.unparen = readNames .refers t := by
  fun_induction Ast.unparen t with
  | case1 s e ih =>
    rw [ih]
    simp [readNames, asRead, asReadAll, isIdent, outlineIn, outlineAs, outlineAll, isTypeKind]
  | case2 t h => rfl

theorem readNames_arrowBody (t : Ast) :
    readNames .body (Candidate.arrowBody t) = readNames .body t := by
  unfold Candidate.arrowBody
  split
  · rfl
  · rename_i h
    have hblock : ∀ s ss, asRead t ≠ .node .block s ss := by
      intro s ss heq
      cases t with
      | node k s' cs =>
        rw [asRead] at heq
        split at heq
        · cases heq
        · cases heq
          exact h _ _ rfl
      | _ => cases heq
    have := readNames_unparen t
    simp only [readNames, outlineIn] at this
    rw [readNames, readNames, outlineIn_body hblock, ← this]
    simp [asRead, asReadAll, isIdent, outlineIn, outlineAs, outlineAll, isTypeKind, bodyFacts]

theorem readNames_cacheDecls (names : List String) :
    mentionedAll (outlineAll .refers (asReadAll (names.map cacheDecl))) = [] := by
  induction names with
  | nil => rfl
  | cons n ns ih =>
    simp [cacheDecl, madeVar, madeBinding, made, asReadAll, asRead, isIdent, outlineAll, outlineAs,
      outlineDeclarators, boundNames, ih]

end Made

/-! ### Converted trees -/

/-- The functions that a trace says are converted stand at some places. -/
def ConvertsAt (converted : List Span) (tr : Trace) : Prop :=
  ∀ e, .converted e ∈ tr.entries → e.span ∈ converted

theorem convertsAt_append {a b : Trace} :
    ConvertsAt converted (a ++ b) ↔ ConvertsAt converted a ∧ ConvertsAt converted b := by
  simp only [ConvertsAt, Trace.mem_entries_append, or_imp, forall_and]

theorem asRead_eq_node :
    asRead t = .node k s cs ↔
      ∃ cs₀, t = .node k s cs₀ ∧ (isIdent k && s.isMade) = false ∧ cs = asReadAll cs₀ := by
  constructor
  · intro h
    cases t with
    | node k' s' cs' =>
      rw [asRead] at h
      split at h
      · cases h
      · rename_i hk
        cases h
        exact ⟨cs', rfl, Bool.eq_false_iff.2 hk, rfl⟩
    | _ => cases h
  · rintro ⟨cs₀, rfl, hk, rfl⟩
    simp [asRead, hk]

theorem asRead_eq_list {ts : List Ast} :
    asRead t = .list ts ↔ ∃ ts₀, t = .list ts₀ ∧ ts = asReadAll ts₀ := by
  cases t with
  | node k s cs =>
    simp only [asRead]
    split <;> simp
  | list ts₀ =>
    simp only [asRead, Ast.list.injEq]
    exact ⟨fun h => ⟨ts₀, rfl, h.symm⟩, fun ⟨_, h, h'⟩ => h ▸ h'.symm⟩
  | absent => simp [asRead]

section Becomes

variable {n : String} {N : Nat} {w : Slot} {t' : Ast} {tr : Trace}

/-- A small tree without its made identifiers, and what is left of them when the tree is converted. No
part at stake mentions the name. -/
def Rereads (job : Job) (converted : List Span) (n : String) (N : Nat) (T T' : Ast) : Prop :=
  ∃ w t t' tr, Becomes job w t t' tr ∧ ConvertsAt converted tr ∧ n ∉ misplaced converted t ∧
    sizeOf t < N ∧ T = asRead t ∧ T' = asRead t'

theorem BecomesAll.rereads : ∀ {ws : Nat → Slot} {ts ts' : List Ast} {tr : Trace},
    BecomesAll job ws ts ts' tr → ConvertsAt converted tr → n ∉ misplacedAll converted ts →
    (∀ t ∈ ts, sizeOf t < N) →
    List.Forall₂ (Rereads job converted n N) (asReadAll ts) (asReadAll ts')
  | _, _, _, _, .nil, _, _, _ => .nil
  | _, _, _, _, .cons h hs rfl, hc, hn, hN => by
    rw [convertsAt_append] at hc
    rw [misplacedAll, List.mem_append, not_or] at hn
    exact .cons ⟨_, _, _, _, h, hc.1, hn.1, hN _ List.mem_cons_self, rfl, rfl⟩
      (hs.rereads hc.2 hn.2 fun t ht => hN t (List.mem_cons_of_mem _ ht))

/-- A tree is an identifier exactly if what it becomes is that identifier. -/
theorem Becomes.ident_iff (h : Becomes job w t t' tr) (n : String) (s : Span) :
    (∃ cs, t = .node (.ident n) s cs) ↔ ∃ cs, t' = .node (.ident n) s cs := by
  rcases h.node_or (k := .ident n) rfl rfl (fun _ _ => rfl) with
    ⟨s', cs, cs', tr₁, rfl, rfl, -⟩ | ⟨hne, hne'⟩
  · simp
  · simp [hne, hne']

theorem asRead_isPresent (t : Ast) :
    (asRead t).isPresent = true ↔ t.isPresent = true ∧ ¬∃ n s cs, t = .node (.ident n) s cs ∧
      s.isMade = true := by
  cases t with
  | absent => simp [asRead]
  | list ts => simp [asRead, Ast.isPresent, Ast.isAbsent]
  | node k s cs =>
    cases k <;> simp [asRead, isIdent, Ast.isPresent, Ast.isAbsent]
    split <;> simp_all

theorem Becomes.asRead_isPresent (h : Becomes job w t t' tr) :
    (asRead t').isPresent = (asRead t).isPresent := by
  rw [Bool.eq_iff_iff, Worklet.asRead_isPresent, Worklet.asRead_isPresent, h.resembles.present]
  refine and_congr_right fun _ => not_congr (exists_congr fun n => exists_congr fun s => ?_)
  rw [exists_and_right, exists_and_right, h.ident_iff]

/-- **The rules of scopes do not see that the parts of a node were converted**, when the identifiers
that were made are left out. -/
theorem likeness_rereads (job : Job) (converted : List Span) (n : String) (N : Nat) :
    Likeness id (Rereads job converted n N) where
  present := by
    rintro _ _ ⟨w, t, t', tr, h, -, -, -, rfl, rfl⟩
    exact h.asRead_isPresent
  list := by
    rintro _ _ ⟨w, t, t', tr, h, hc, hn, hN, rfl, rfl⟩
    rcases h.list_or with ⟨ts, ts', rfl, rfl, hts⟩ | ⟨hne, hne'⟩
    · cases h with
      | list hts =>
        exact .inl ⟨_, _, rfl, rfl, hts.rereads hc hn fun u hu =>
          Nat.lt_trans (sizeOf_lt_of_mem_list hu) hN⟩
    · simp only [ne_eq, asRead_eq_list]
      exact .inr ⟨fun _ ⟨ts, heq, _⟩ => hne ts heq, fun _ ⟨ts, heq, _⟩ => hne' ts heq⟩
  block := by
    rintro _ _ ⟨w, t, t', tr, h, -, -, -, rfl, rfl⟩
    have := h.block_iff
    simpa [asRead_eq_node, isIdent] using this
  node := by
    rintro _ _ k ⟨w, t, t', tr, h, hc, hn, hN, rfl, rfl⟩ hk
    obtain ⟨hf, ht, hs⟩ := plain_of_isLookedFor hk
    rcases h.node_or hf ht hs with ⟨s, cs, cs', -, rfl, rfl, -⟩ | ⟨hne, hne'⟩
    · obtain ⟨_, tr₁, own, -, heq, hcs, -, rfl⟩ := h.of_node ht (hs s cs')
      cases heq
      rw [convertsAt_append] at hc
      by_cases hmade : (isIdent k && s.isMade) = true
      · exact .inr ⟨by simp [asRead, hmade], by simp [asRead, hmade]⟩
      · rw [Bool.not_eq_true] at hmade
        refine .inl ⟨s, s, asReadAll cs, asReadAll cs', by simp [asRead, hmade],
          by simp [asRead, hmade], fun _ => rfl, ?_⟩
        refine hcs.rereads ?_ (fun h => hn (List.mem_append_right _ h)) fun u hu => ?_
        · exact fun e he => hc.1 e (by simpa using he)
        · exact Nat.lt_trans (sizeOf_lt_of_mem_node hu) hN
    · simp only [ne_eq, asRead_eq_node]
      exact .inr ⟨fun _ _ ⟨cs, heq, _⟩ => hne _ cs heq, fun _ _ ⟨cs, heq, _⟩ => hne' _ cs heq⟩

/-- The function of a default export stays one until the export is converted. -/
theorem BecomesAll.rereads_default {cs' : List Ast}
    (h : BecomesAll job (job.config.hooks.childSlot w (.node .exportDefaultDecl s cs)) cs cs' tr)
    (hc : ConvertsAt converted tr) (hn : n ∉ misplacedAll converted cs)
    (hN : ∀ u ∈ cs, sizeOf u < N) {T T' : Ast} (hT : asReadAll cs = [T])
    (hT' : asReadAll cs' = [T']) :
    DefaultsAlike (Rereads job converted n N) T T' := by
  rw [asReadAll_eq_map, List.map_eq_singleton_iff] at hT hT'
  obtain ⟨t, rfl, rfl⟩ := hT
  obtain ⟨t', rfl, rfl⟩ := hT'
  by_cases hf : ∃ fs ds, t' = .node .funcExpr fs ds
  · obtain ⟨fs, ds, rfl⟩ := hf
    obtain ⟨ds₀, heq, hds⟩ := h.of_default
    cases heq
    refine .inl ⟨fs, fs, _, _, rfl, rfl, hds.rereads hc ?_ fun u hu => ?_⟩
    · exact fun h => hn (List.mem_append_left _ (List.mem_append_right _ h))
    · exact Nat.lt_trans (sizeOf_lt_of_mem_node hu) (hN _ List.mem_cons_self)
  · have hf' : ¬∃ fs ds, t = .node .funcExpr fs ds := by
      rintro ⟨fs, ds, rfl⟩
      rcases h with _ | ⟨h, _, _⟩
      rcases Becomes.exported_or h with ⟨_, _, ds', _, -, rfl, -⟩ | ⟨hne, -⟩
      · exact hf ⟨_, ds', rfl⟩
      · exact absurd rfl (hne _ _)
    simp only [DefaultsAlike, ne_eq, asRead_eq_node]
    exact .inr ⟨fun fs _ ⟨ds, heq, _⟩ => hf' ⟨fs, ds, heq⟩, fun fs _ ⟨ds, heq, _⟩ => hf ⟨fs, ds, heq⟩⟩

/-! ### Functions -/

/-- The name is mentioned as often by converted trees, whatever their role. -/
def SameCount (n : String) (t t' : Ast) : Prop :=
  ∀ m, (readNames m t').count n = (readNames m t).count n

/-- Smaller trees mention a name as often when they are converted. -/
def SmallerSame (job : Job) (converted : List Span) (n : String) (N : Nat) : Prop :=
  ∀ {w : Slot} {t t' : Ast} {tr : Trace}, Becomes job w t t' tr → ConvertsAt converted tr →
    n ∉ misplaced converted t → sizeOf t < N → SameCount n t t'

/-- A function mentions what its decorators, its parameters and its body mention. -/
theorem readNames_function (a g : Bool) (s : Span) (ps d body : Ast) (rest : List Ast) :
    readNames .refers (.node (.function a g) s (ps :: d :: body :: rest)) =
      readNames .refers d ++ (readNames .refers ps ++ readNames .body body) := by
  simp [readNames, asRead, asReadAll, isIdent, outlineIn, outlineAs, mentionedAll, mentioned]

theorem readNames_cons_param (s : Span) (d q : Ast) (ps : List Ast) :
    readNames .refers (.list (.node .param s [d, q] :: ps)) =
      readNames .refers d ++ readNames .binds q ++ readNames .refers (.list ps) := by
  simp [readNames, asRead, asReadAll, isIdent, outlineIn, outlineAs, outlineAll]

/-- The decorators and the patterns of parameters are mentioned apart. -/
theorem LiftsParams.count {ps ps' qs : List Ast} (h : LiftsParams job ps ps' qs tr)
    (ih : SmallerSame job converted n N) (hc : ConvertsAt converted tr)
    (hn : n ∉ misplacedAll converted ps) (hN : ∀ p ∈ ps, sizeOf p < N) :
    (readNames .refers (.list ps)).count n =
        ((ps.map (·.child 0)).flatMap (readNames .refers)).count n +
          ((ps.map (·.child 1)).flatMap (readNames .binds)).count n ∧
      (readNames .refers (.list ps')).count n = (readNames .refers (.list ps)).count n ∧
      (qs.flatMap (readNames .binds)).count n =
        ((ps.map (·.child 1)).flatMap (readNames .binds)).count n := by
  induction h with
  | nil => exact ⟨rfl, rfl, rfl⟩
  | @cons s d d' q q' ps ps' qs trd trq tr all hd hq _ hall ihs =>
    subst hall
    rw [convertsAt_append, convertsAt_append] at hc
    simp only [misplacedAll, misplaced, atStake, List.nil_append, List.append_nil, List.mem_append,
      not_or] at hn
    have hsize := hN _ List.mem_cons_self
    simp at hsize
    obtain ⟨h₁, h₂, h₃⟩ := ihs hc.2 hn.2 fun p hp => hN p (List.mem_cons_of_mem _ hp)
    have hd := ih hd hc.1.1 hn.1.1 (by omega) .refers
    have hq := ih hq hc.1.2 hn.1.2 (by omega) .binds
    simp only [readNames_cons_param, List.map_cons, List.flatMap_cons, List.count_append, hd, hq]
    simp only [Ast.child, Ast.children, List.getD_cons_zero, List.getD_cons_succ] at *
    omega

theorem Lifts.span_eq {f f' : Ast} (h : Lifts job kind name f f' c tr) : c.span = f.span := by
  obtain ⟨-, -, -, -, -, -⟩ := h
  rfl

/-- What a function mentions, when its parts are converted. -/
theorem Lifts.count {f f' : Ast} (h : Lifts job kind name f f' c tr)
    (ih : SmallerSame job converted n N) (hc : ConvertsAt converted tr)
    (hn : n ∉ misplaced converted f) (hN : sizeOf f ≤ N) :
    (readNames .refers f).count n =
        ((decoratorsOf f).flatMap (readNames .refers)).count n +
          (c.params.flatMap (readNames .binds) ++ readNames .body c.body).count n ∧
      (∀ body, (readNames .refers (withBody body f')).count n =
        ((decoratorsOf f).flatMap (readNames .refers)).count n +
          ((patternsOf f).flatMap (readNames .binds)).count n + (readNames .body body).count n) ∧
      (c.params.flatMap (readNames .binds)).count n =
        ((patternsOf f).flatMap (readNames .binds)).count n := by
  obtain ⟨hps, hd, hbody, hrest, -, rfl⟩ := h
  simp only [convertsAt_append] at hc
  simp only [misplaced, misplacedAll, atStake, List.nil_append, List.mem_append, not_or] at hn
  simp at hN
  obtain ⟨h₁, h₂, h₃⟩ := hps.count ih hc.1 hn.1 fun p hp => by
    have := List.sizeOf_lt_of_mem hp
    omega
  have hd := ih hd hc.2.1 hn.2.1 (by omega) .refers
  have hbody := ih hbody hc.2.2.1 hn.2.2.1 (by omega) .body
  refine ⟨?_, fun body => ?_, h₃⟩
  · simp only [readNames_function, decoratorsOf, List.flatMap_cons, List.count_append]
    omega
  · simp only [withBody, readNames_function, decoratorsOf, patternsOf, List.flatMap_cons,
      List.count_append]
    omega

/-- Only patterns and blocks have a role. -/
theorem readNames_role (hi : isIdent k = false) (hp : isPatternKind k = false) (hb : k ≠ .block)
    (m : Role) (s : Span) (cs : List Ast) :
    readNames m (.node k s cs) = readNames .refers (.node k s cs) := by
  rw [readNames, readNames, asRead_node hi, outlineIn_eq m hp hb, outlineIn]

theorem count_eq_zero_of_atStake {span : Span} {names : List String}
    (hn : n ∉ misplaced converted (.node k s cs)) (hs : atStake (.node k s cs) = some (span, names))
    (hspan : span ∈ converted) :
    names.count n = 0 := by
  rw [misplaced, hs, List.mem_append, not_or] at hn
  exact List.count_eq_zero.2 (by simpa [hspan] using hn.1)

theorem notMem_misplaced_of_mem {u : Ast} (hn : n ∉ misplaced converted (.node k s cs))
    (hu : u ∈ cs) : n ∉ misplaced converted u :=
  fun h => hn (List.mem_append_right _ (mem_misplacedAll hu h))

theorem Lifts.readNames_funcExpr {f f' : Ast} (h : Lifts job kind name f f' c tr) (s : Span)
    (e : Ast) :
    readNames .refers (.node .funcExpr s [e, f]) = readNames .refers f := by
  obtain ⟨-, -, -, -, -, -⟩ := h
  rw [readNames_function]
  simp [readNames, asRead, asReadAll, isIdent, outlineIn, outlineAs, mentionedAll, mentioned,
    declareName]

theorem readNames_pair (hi : isIdent k = false) (hk : hasOwnRule k = false)
    (ht : isTypeKind k = false) (s : Span) (a b : Ast) :
    readNames .refers (.node k s [a, b]) = readNames .refers a ++ readNames .refers b := by
  have hrule := outlineBy_plainRule .refers (.node k s (asReadAll [a, b]))
  rw [plainRule_eq_parts hk] at hrule
  rw [readNames, asRead_node hi, outlineIn, ← hrule]
  simp [outlineBy, Rule.flat, ht, asReadAll, Item.parts, readNames, outlineIn]

theorem readNames_arrow (a : Bool) (s : Span) (ps : List Ast) (body : Ast) (rest : List Ast) :
    readNames .refers (.node (.arrow a) s (.list ps :: body :: rest)) =
      ps.flatMap (readNames .binds) ++ readNames .body body := by
  have hparams : mentionedAll (outlinePatterns (asReadAll ps)) = ps.flatMap (readNames .binds) := by
    induction ps with
    | nil => rfl
    | cons q ps ih => simp [asReadAll, outlinePatterns, ih, readNames, outlineIn]
  simp [readNames, asRead, asReadAll, isIdent, outlineIn, outlineAs, mentionedAll, mentioned, hparams]

theorem readNames_funcDecl (d : Bool) (s : Span) (name f : Ast) :
    readNames .refers (.node (.funcDecl d) s [name, f]) = readNames .refers f := by
  simp [readNames, asRead, asReadAll, isIdent, outlineIn, outlineAs, declareName]

theorem readNames_default (s fs : Span) (name f : Ast) :
    readNames .refers (.node .exportDefaultDecl s [.node .funcExpr fs [name, f]]) =
      readNames .refers f := by
  simp [readNames, asRead, asReadAll, isIdent, outlineIn, outlineAs, declareName]

theorem readNames_defaultExpr (s : Span) (e : Ast) :
    readNames .refers (.node .exportDefaultExpr s [e]) = readNames .refers e := by
  simp [readNames, asRead, asReadAll, isIdent, outlineIn, outlineAs, outlineAll, isTypeKind]

theorem readNames_classProp (mods : Modifiers) (s : Span) (key value : Ast) :
    readNames .refers (.node (.classProp mods) s [key, value, .absent, .list []]) =
      readNames .refers key ++ readNames .refers value := by
  simp [readNames, asRead, asReadAll, isIdent, outlineIn, outlineAs, outlineAll, isTypeKind]

theorem readNames_getter (s : Span) (key type body : Ast) :
    readNames .refers (.node .getter s [key, type, body]) =
      readNames .refers key ++ readNames .body body := by
  simp [readNames, asRead, asReadAll, isIdent, outlineIn, outlineAs, mentionedAll, mentioned]

theorem readNames_setter (s : Span) (key this param body : Ast) :
    readNames .refers (.node .setter s [key, this, param, body]) =
      readNames .refers key ++ (readNames .binds param ++ readNames .body body) := by
  simp [readNames, asRead, asReadAll, isIdent, outlineIn, outlineAs, mentionedAll, mentioned]

theorem GivesWay.readNames_role (h : GivesWay job w t f tr) (p : Prepared) (cache : Option String)
    (m : Role) :
    readNames m t = readNames .refers t ∧
      readNames m (f.turned p cache) = readNames .refers (f.turned p cache) := by
  cases h <;>
    exact ⟨Worklet.readNames_role rfl rfl (by simp) m _ _, Worklet.readNames_role rfl rfl (by simp) m _ _⟩

theorem BecomesAll.count_patterns : ∀ {ps ps' : List Ast} {tr : Trace},
    BecomesAll job (fun _ => .plain) ps ps' tr → SmallerSame job converted n N →
    ConvertsAt converted tr → n ∉ misplacedAll converted ps → (∀ q ∈ ps, sizeOf q < N) →
    (ps'.flatMap (readNames .binds)).count n = (ps.flatMap (readNames .binds)).count n
  | _, _, _, .nil, _, _, _, _ => rfl
  | _, _, _, .cons h hs rfl, ih, hc, hn, hN => by
    rw [convertsAt_append] at hc
    rw [misplacedAll, List.mem_append, not_or] at hn
    have hrest := hs.count_patterns ih hc.2 hn.2 fun q hq => hN q (List.mem_cons_of_mem _ hq)
    have hfirst := ih h hc.1 hn.1 (hN _ List.mem_cons_self) .binds
    simp only [List.flatMap_cons, List.count_append, hfirst, hrest]

/-! ### What takes the place of a function, form by form -/

theorem SmallerSame.part {u u' : Ast} (ih : SmallerSame job converted n (sizeOf (Ast.node k s cs)))
    (h : Becomes job w u u' tr) (hc : ConvertsAt converted tr)
    (hn : n ∉ misplaced converted (.node k s cs)) (hu : u ∈ cs) : SameCount n u u' :=
  ih h hc (notMem_misplaced_of_mem hn hu) (sizeOf_lt_of_mem_node hu)

section Lifted

variable {f f' : Ast} (h : Lifts job kind name f f' c tr) (ih : SmallerSame job converted n N)
  (hc : ConvertsAt converted tr) (hn : n ∉ misplaced converted f) (hN : sizeOf f ≤ N)
  (hp : job.prepare c = .ok p)

include h ih hc hn hN hp

/-- A wrapper has the parameters and the body, and no decorators. -/
theorem Lifts.count_wrapper (hd : ((decoratorsOf f).flatMap (readNames .refers)).count n = 0) :
    (readNames .refers p.wrapper).count n = (readNames .refers f).count n := by
  obtain ⟨h₁, -, -⟩ := h.count ih hc hn hN
  rw [readNames_wrapper hp, h₁, hd, Nat.zero_add]

/-- A declared function keeps all its parts. -/
theorem Lifts.count_declared :
    (readNames .refers (withBody p.candidate.body f')).count n = (readNames .refers f).count n := by
  obtain ⟨h₁, h₂, h₃⟩ := h.count ih hc hn hN
  have hbody : p.candidate.body = stripDirective job.config.marker c.body := by
    rw [(Job.prepare_eq_ok hp).1]
    rfl
  rw [h₁, h₂, hbody, readNames_stripDirective, List.count_append]
  omega

/-- An accessor keeps its parameters, which the wrapper that it hands over to has as well. -/
theorem Lifts.count_accessor (cache : Option String)
    (hps : ((patternsOf f).flatMap (readNames .binds)).count n = 0) :
    (readNames .refers (withBody (delegate p.wrapper cache) f')).count n =
      (readNames .refers f).count n := by
  obtain ⟨h₁, h₂, -⟩ := h.count ih hc hn hN
  rw [h₁, h₂, readNames_delegate hp, hps, Nat.add_zero]

end Lifted

theorem count_arrow {a : Bool} {ps ps' rest : List Ast} {body body' : Ast} {trp trb : Trace}
    (ih : SmallerSame job converted n (sizeOf (Ast.node (.arrow a) s (.list ps :: body :: rest))))
    (hps : BecomesAll job (fun _ => .plain) ps ps' trp) (hcp : ConvertsAt converted trp)
    (hbody : Becomes job w body body' trb) (hcb : ConvertsAt converted trb)
    (hn : n ∉ misplaced converted (.node (.arrow a) s (.list ps :: body :: rest))) :
    (ps'.flatMap (readNames .binds) ++ readNames .body body').count n =
      (readNames .refers (.node (.arrow a) s (.list ps :: body :: rest))).count n := by
  have hbody := ih.part hbody hcb hn (by simp) .body
  simp only [misplaced, misplacedAll, atStake, List.nil_append, List.mem_append, not_or] at hn
  have hps := hps.count_patterns ih hcp hn.1 fun q hq => by
    have := List.sizeOf_lt_of_mem hq
    simp
    omega
  simp only [readNames_arrow, List.count_append, hps, hbody]

/-- **What takes the place of a function mentions what the function did.** -/
theorem GivesWay.count (h : GivesWay job w t f tr) (hp : f.subject.prepare job = .ok p)
    (hspan : p.candidate.span ∈ converted) (ih : SmallerSame job converted n (sizeOf t))
    (hc : ConvertsAt converted tr) (hn : n ∉ misplaced converted t) (cache : Option String) :
    SameCount n t (f.turned p cache) := by
  intro m
  rw [(h.readNames_role p cache m).1, (h.readNames_role p cache m).2]
  have hcandidate : ∀ c, f.subject = .candidate c → c.span ∈ converted := by
    intro c hc
    rw [hc] at hp
    rwa [(Job.prepare_eq_ok hp).1] at hspan
  cases h with
  | @expression _ s name name' f f' c trn tr _ hname hf hall =>
    subst hall
    rw [convertsAt_append] at hc
    have h₀ := count_eq_zero_of_atStake hn rfl (hf.span_eq ▸ hcandidate c rfl)
    rw [hf.readNames_funcExpr]
    exact hf.count_wrapper ih hc.2 (notMem_misplaced_of_mem hn (by simp)) (by simp; omega) hp h₀
  | @arrow _ a s body body' ps ps' rest rest' trp trb trr _ hps hbody hrest hall =>
    subst hall
    simp only [convertsAt_append] at hc
    have hwrapper := readNames_wrapper hp
    simp only [readNames_arrowBody] at hwrapper
    simp only [Form.wrapped, id_eq, hwrapper]
    exact count_arrow ih hps hc.1 hbody hc.2.1 hn
  | @declaration _ d s name name' f f' x c trn tr _ hname hx hf hall =>
    subst hall
    rw [convertsAt_append] at hc
    simp only [Form.declared, readNames_funcDecl]
    exact hf.count_declared ih hc.2 (notMem_misplaced_of_mem hn (by simp)) (by simp; omega) hp
  | @method _ s key key' f f' c trk tr _ hkey hf hall =>
    subst hall
    rw [convertsAt_append] at hc
    have h₀ := count_eq_zero_of_atStake hn rfl (hf.span_eq ▸ hcandidate c rfl)
    have hkey := ih.part hkey hc.1 hn (by simp) .refers
    have hf := hf.count_wrapper ih hc.2 (notMem_misplaced_of_mem hn (by simp)) (by simp; omega) hp h₀
    simp only [Form.wrapped, made]
    rw [readNames_pair (k := .method) rfl rfl rfl, readNames_pair (k := .keyValue) rfl rfl rfl,
      List.count_append, List.count_append, hkey, hf]
  | @getter _ s key key' type type' body body' trk trt trb _ hkey htype hbody hb hall =>
    subst hall
    simp only [convertsAt_append] at hc
    have hkey := ih.part hkey hc.1 hn (by simp) .refers
    have hbody := ih.part hbody hc.2.2 hn (by simp) .body
    simp only [Form.accessor, readNames_getter, readNames_delegate hp, List.flatMap_nil,
      List.nil_append, List.count_append, hkey, hbody]
  | @setter _ s key key' this this' param param' body body' trk trt trp trb _ hkey _ hq hbody hb
      hall =>
    subst hall
    simp only [convertsAt_append] at hc
    have h₀ := count_eq_zero_of_atStake hn rfl (hcandidate _ rfl)
    have hkey := ih.part hkey hc.1 hn (by simp) .refers
    have hq := ih.part hq hc.2.2.1 hn (by simp) .binds
    have hbody := ih.part hbody hc.2.2.2 hn (by simp) .body
    simp only [Form.accessor, readNames_setter, readNames_delegate hp, List.flatMap_cons,
      List.flatMap_nil, List.append_nil, List.count_append, hkey, hq, hbody, h₀, Nat.zero_add]
  | @classMethod _ mods s key key' f f' c trk tr _ hkey hf hall =>
    subst hall
    rw [convertsAt_append] at hc
    have h₀ := count_eq_zero_of_atStake hn rfl (hf.span_eq ▸ hcandidate c rfl)
    have hkey := ih.part hkey hc.1 hn (by simp) .refers
    have hf := hf.count_wrapper ih hc.2 (notMem_misplaced_of_mem hn (by simp)) (by simp; omega) hp h₀
    rw [Form.wrapped, readNames_pair (k := .classMethod .method mods) rfl rfl rfl,
      readNames_classProp, List.count_append, List.count_append, hkey, hf]
  | @classAccessor _ kind mods s key key' f f' c trk tr _ hm hkey hf hall =>
    subst hall
    rw [convertsAt_append] at hc
    have hstake : atStake (.node (.classMethod kind mods) s [key, f]) =
        some (f.span, (patternsOf f).flatMap (readNames .binds)) := by
      cases kind with
      | method => exact absurd rfl hm
      | _ => rfl
    have h₀ := count_eq_zero_of_atStake hn hstake (hf.span_eq ▸ hcandidate c rfl)
    have hkey := ih.part hkey hc.1 hn (by simp) .refers
    have hf :=
      hf.count_accessor ih hc.2 (notMem_misplaced_of_mem hn (by simp)) (by simp; omega) hp cache h₀
    rw [Form.accessor, readNames_pair (k := .classMethod kind mods) rfl rfl rfl,
      readNames_pair (k := .classMethod kind mods) rfl rfl rfl, List.count_append, List.count_append,
      hkey, hf]
  | @namedDefault s fs name name' f f' x c trn tr _ hname hx hf hall =>
    subst hall
    rw [convertsAt_append] at hc
    have hn := notMem_misplaced_of_mem hn (List.mem_singleton.2 rfl)
    simp only [Form.declared, readNames_default]
    exact hf.count_declared ih hc.2 (notMem_misplaced_of_mem hn (by simp)) (by simp; omega) hp
  | @namelessDefault s fs name name' f f' c trn tr _ hname _ hf hall =>
    subst hall
    rw [convertsAt_append] at hc
    have hn := notMem_misplaced_of_mem hn (List.mem_singleton.2 rfl)
    have h₀ := count_eq_zero_of_atStake hn rfl (hf.span_eq ▸ hcandidate c rfl)
    rw [Form.wrapped, readNames_defaultExpr, readNames_default]
    exact hf.count_wrapper ih hc.2 (notMem_misplaced_of_mem hn (by simp)) (by simp; omega) hp h₀

/-! ### Converted trees mention what was read -/

/-- What is put around statements mentions nothing that was read. -/
theorem BecomesStmts.count : ∀ {ss ss' : List Ast} {entries : List Entry},
    BecomesStmts job ss ss' entries → SmallerSame job converted n N →
    (∀ e, .converted e ∈ entries → e.span ∈ converted) → n ∉ misplacedAll converted ss →
    (∀ t ∈ ss, sizeOf t < N) →
    (mentionedAll (outlineAll .refers (asReadAll ss'))).count n =
      (mentionedAll (outlineAll .refers (asReadAll ss))).count n
  | _, _, _, .nil, _, _, _, _ => rfl
  | _, _, _, @BecomesStmts.cons _ t t' ts ts' tr _ h hs, ih, hc, hn, hN => by
    rw [misplacedAll, List.mem_append, not_or] at hn
    have hrest := hs.count ih (fun e he => hc e (List.mem_append_right _ he)) hn.2
      fun t ht => hN t (List.mem_cons_of_mem _ ht)
    have hfirst := ih h (fun e he => hc e (List.mem_append_left _ he)) hn.1
      (hN _ List.mem_cons_self) .refers
    obtain ⟨ms, hms⟩ := h.stmts_eq
    have hattached : mentionedAll (outlineAll .refers (asReadAll tr.stmts)) = [] := by
      rw [hms]
      clear hms
      induction ms with
      | nil => rfl
      | cons x ms ih =>
        rw [List.flatMap_cons, asReadAll_append, outlineAll_append, mentionedAll_append, ih,
          readNames_metadataStmts, List.append_nil]
    simp only [List.append_assoc, List.cons_append, asReadAll_append, asReadAll, outlineAll_append,
      outlineAll, mentionedAll_append, readNames_cacheDecls, hattached, List.nil_append,
      List.count_append, hrest]
    exact congrArg (· + _) hfirst

/-- A relation between facts: they mention a name equally often. -/
theorem congruent_count (n : String) :
    Congruent id fun os os' => (mentionedAll os').count n = (mentionedAll os).count n where
  nil := rfl
  append ha hb := by rw [mentionedAll_append, mentionedAll_append, List.count_append,
    List.count_append, ha, hb]
  mention _ := rfl
  declare _ _ := rfl
  scope _ _ _ _ h := by simpa [mentionedAll, mentioned] using h

/-- A converted tree mentions a name as often as before if smaller ones do. -/
theorem Becomes.count_of_smaller (h : Becomes job w t t' tr)
    (ih : SmallerSame job converted n (sizeOf t)) (hc : ConvertsAt converted tr)
    (hn : n ∉ misplaced converted t) : SameCount n t t' := by
  have of_rule {T T' : Ast} {m : Role}
      (hr : RuleAlike id (Rereads job converted n (sizeOf t)) (plain.rule m T) (plain.rule m T')) :
      (mentionedAll (outlineIn m T')).count n = (mentionedAll (outlineIn m T)).count n := by
    refine hr.outlines (congruent_count n) ?_
    rintro m' _ - _ ⟨w, u, u', tr, h, hc, hn, hN, rfl, rfl⟩
    exact ih h hc hn hN m'
  intro m
  cases t with
  | absent =>
    cases h
    rfl
  | list ts =>
    cases h with
    | list h =>
      exact of_rule (Likeness.rule_list (h.rereads hc hn fun _ => sizeOf_lt_of_mem_list) m)
  | node k s cs =>
    have hn₁ : n ∉ misplacedAll converted cs := fun h => hn (List.mem_append_right _ h)
    have hsize : ∀ u ∈ cs, sizeOf u < sizeOf (Ast.node k s cs) :=
      fun u hu => sizeOf_lt_of_mem_node hu
    cases h with
    | node cache hl hcs htreat hall =>
      rcases (Becomes.node cache hl hcs htreat hall).stays_or_givesWay hl with
        ⟨cs', tr₁, own, rfl, hcs, -, -, -, rfl⟩ | ⟨f, p, cache, reason, tr₁, own, hg, hp, rfl, he, -, -, rfl⟩
      · rw [convertsAt_append] at hc
        have hc₁ : ConvertsAt converted tr₁ := fun e he => hc.1 e (by simpa using he)
        by_cases hmade : (isIdent k && s.isMade) = true
        · simp [readNames, asRead, hmade]
        · rw [readNames, readNames, asRead, asRead, if_neg hmade, if_neg hmade]
          refine of_rule ((likeness_rereads job converted n _).rule (hcs.rereads hc₁ hn₁ hsize) m
            (fun _ => rfl) ?_)
          rintro rfl T T' hT hT'
          exact hcs.rereads_default hc₁ hn₁ hsize hT hT'
      · rw [convertsAt_append] at hc
        have hspan := hc.2 _ (he ▸ List.mem_singleton.2 rfl)
        exact hg.count hp hspan ih hc.1 hn cache m
    | statements hk hss =>
      have hcount := hss.count ih (fun e he => hc e (by simpa using he)) hn₁ hsize
      have hi : isIdent k = false := by
        revert hk
        cases k <;> simp [isStatementList, isIdent]
      rw [readNames, readNames, asRead_node hi, asRead_node hi]
      rcases outlineIn_statements hk m s with ho | ho
      · rw [ho, ho, hcount]
      · rw [ho, ho]
        simpa [mentionedAll, mentioned] using hcount
    | switchCase htest hss hall =>
      subst hall
      rw [convertsAt_append] at hc
      rw [misplacedAll, List.mem_append, not_or] at hn₁
      have hcount := hss.count ih (fun e he => hc.2 e (by simpa using he)) hn₁.2
        fun u hu => hsize u (List.mem_cons_of_mem _ hu)
      have htest := ih htest hc.1 hn₁.1 (hsize _ List.mem_cons_self) .refers
      have hrole := readNames_role (k := .switchCase) rfl rfl (by simp) m s
      rw [hrole, hrole]
      simp only [readNames, asRead, asReadAll, isIdent, outlineIn, outlineAs, isTypeKind, outlineAll,
        Bool.false_and, Bool.false_eq_true, if_false, mentionedAll_append, List.count_append] at htest ⊢
      rw [htest, hcount]

/-- **A converted tree mentions a name as often as before**, if no part at stake mentions it. -/
theorem smallerSame (job : Job) (converted : List Span) (n : String) (N : Nat) :
    SmallerSame job converted n N := by
  induction N with
  | zero => exact fun _ _ _ hN => absurd hN (Nat.not_lt_zero _)
  | succ N ih =>
    intro w t t' tr h hc hn hN
    exact h.count_of_smaller (fun h hc hn hN' => ih h hc hn (by omega)) hc hn

end Becomes

/-! ### Converted programs -/

/-- The directive of strict mode mentions nothing. -/
theorem readNames_ensureStrict (t : Ast) :
    readNames .refers (ensureStrict t) = readNames .refers t := by
  unfold ensureStrict
  split
  · split
    · rfl
    · simp [readNames, madeStatement, madeString, made, asRead, asReadAll, isIdent, outlineIn,
        outlineAs, outlineAll, isTypeKind]
  · rfl

theorem map_name_references_asRead (t : Ast) :
    (ScopeTable.ofModule (asRead t)).references.map (·.name) = readNames .refers t :=
  map_name_references (asRead t)

/-- **Every name is mentioned as often as before, but for the names in the parts that converted
functions lose or have twice.** The references are those to identifiers that were read. -/
theorem transform_keeps_mentions (config : Config) (p : Program) (hroot : isModule p.module = true) :
    let converted := (transform config p).conversions.map (·.span)
    let before := (ScopeTable.ofModule (asRead p.module)).references.map (·.name)
    let after := (ScopeTable.ofModule (asRead (transform config p).module)).references.map (·.name)
    (∀ n, n ∉ misplaced converted p.module → after.count n = before.count n) ∧
      (misplaced converted p.module = [] → after.Perm before) := by
  intro converted before after
  obtain ⟨module, entries, hb, hmodule, hconverted, -⟩ := transform_becomes config hroot
  have hafter : after = readNames .refers module := by
    simp only [after, map_name_references_asRead, hmodule]
    split
    · exact readNames_ensureStrict module
    · rfl
  have hat : ConvertsAt converted { now := entries } := by
    intro e he
    simp only [converted, hconverted, List.mem_map]
    exact ⟨e, mem_convertedIn.2 (by simpa using he), rfl⟩
  have hcount : ∀ n, n ∉ misplaced converted p.module → after.count n = before.count n := by
    intro n hn
    rw [hafter, show before = readNames .refers p.module from map_name_references_asRead _]
    exact smallerSame _ converted n _ hb hat hn (Nat.lt_succ_self _) .refers
  refine ⟨hcount, fun hnone => List.perm_iff_count.2 fun n => hcount n ?_⟩
  rw [hnone]
  exact List.not_mem_nil

/-- An identifier that was read. -/
def readIdent (n : String) (lo : Nat) : Ast :=
  .node (.ident n) ⟨lo, lo + 1⟩ []

/-- `o({ [k]: 0, m(x = a) { "worklet"; return () => { "worklet"; b(x); }; }, get v() { "worklet"; c; } })` -/
def sampleObject : Program where
  filename := "/app/a.js"
  text := []
  module :=
    made (.module none)
      [madeStatement (made .call [readIdent "o" 1,
        .list [made .object
          [made .keyValue [made .computed [readIdent "k" 7], madeNumber 0],
           made .method
            [made (.word "m") [],
             .node (.function false false) ⟨14, 72⟩
              [.list [.node .param ⟨15, 20⟩
                [.list [], .node .assignPat ⟨15, 20⟩
                  [.node (.bindName false) ⟨15, 16⟩ [readIdent "x" 15, .absent], readIdent "a" 19]]],
               .list [],
               made .block
                [madeStatement (madeString "worklet"),
                 madeReturn (.node (.arrow false) ⟨41, 68⟩
                  [.list [],
                   made .block
                    [madeStatement (madeString "worklet"),
                     madeStatement (made .call [readIdent "b" 60, .list [readIdent "x" 62], .absent])],
                   .absent, .absent])],
               .absent, .absent]],
           .node .getter ⟨74, 99⟩
            [made (.word "v") [], .absent,
             made .block [madeStatement (madeString "worklet"), madeStatement (readIdent "c" 95)]]]],
         .absent])]
  comments := default

/-- A method with a default, an arrow in it and a getter are converted. -/
theorem transform_keeps_mentions_sampleObject :
    isModule sampleObject.module = true ∧ asRead sampleObject.module = sampleObject.module ∧
      (transform .standard sampleObject).conversions.length = 3 ∧
      misplaced ((transform .standard sampleObject).conversions.map (·.span)) sampleObject.module = [] ∧
      (ScopeTable.ofModule sampleObject.module).references.map (·.name) =
        ["o", "k", "a", "b", "x", "c"] ∧
      ((ScopeTable.ofModule (asRead (transform .standard sampleObject).module)).references.map
        (·.name)).Perm ["o", "k", "a", "b", "x", "c"] := by
  have hnone : misplaced ((transform .standard sampleObject).conversions.map (·.span))
      sampleObject.module = [] := by
    decide +kernel
  refine ⟨rfl, rfl, by decide +kernel, hnone, by decide +kernel, ?_⟩
  exact (transform_keeps_mentions .standard sampleObject rfl).2 hnone

end Worklet
