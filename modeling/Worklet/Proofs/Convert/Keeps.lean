import Worklet.Convert
import Worklet.Proofs.Scope.Functions

/-!
# Keeping names

What becomes of names when code is put in the place of other code.

Principal results: `Keeps.scope` and `Keeps.append` — facts are replaced part by part;
`free_wrap`, `free_delegate` — the names that a wrapper and an accessor's new body mention.
-/

set_option autoImplicit false

namespace Worklet

open Syntax Outline Scoping

/-- Facts in the place of other facts: what was declared still is, apart from the names of `lost`,
and what is free was free or is declared beside it, apart from those and from the names of
`caches`. -/
structure Keeps (given : Option Span → List String) (lost caches : List String)
    (os os' : List Outline) : Prop where
  lexical : ∀ n ∈ lexicalAll os, n ∈ lexicalAll os' ∨ n ∈ lost
  hoisted : ∀ n ∈ hoistedAll os, n ∈ hoistedAll os' ∨ n ∈ lost
  free : ∀ n ∈ freeAll given os',
    n ∈ freeAll bare os ∨ n ∈ lexicalAll os' ∨ n ∈ caches ++ lost

mutual

theorem free_bare_of_free (given : Option Span → List String) (n : String) :
    ∀ o, n ∈ Outline.free given o → n ∈ Outline.free bare o
  | .reference _, h => h
  | .declare _ _, h => by cases h
  | .scope k f body, h => by
    rw [mem_free_scope] at h ⊢
    exact ⟨freeAll_bare_of_freeAll given n body h.1, h.2.1, by simp [bare]⟩

/-- What is free although functions are given names is free. -/
theorem freeAll_bare_of_freeAll (given : Option Span → List String) (n : String) :
    ∀ os, n ∈ freeAll given os → n ∈ freeAll bare os
  | [], h => by cases h
  | o :: os, h => by
    simp only [freeAll, List.mem_append] at h ⊢
    rcases h with h | h
    · exact .inl (free_bare_of_free given n o h)
    · exact .inr (freeAll_bare_of_freeAll given n os h)

end

variable {n target : String} {m : Metadata}

namespace Keeps

variable {given : Option Span → List String} {lost caches : List String}
  {os os' os₁ os₁' os₂ os₂' : List Outline}

theorem refl (os : List Outline) : Keeps given lost caches os os where
  lexical _ h := .inl h
  hoisted _ h := .inl h
  free n h := .inl (freeAll_bare_of_freeAll given n os h)

theorem mono {more : List String} (h : Keeps given lost caches os os')
    (hm : ∀ n ∈ caches, n ∈ more) : Keeps given lost more os os' where
  lexical := h.lexical
  hoisted := h.hoisted
  free n hn := (h.free n hn).imp_right fun h => h.imp_right fun hn => by
    rcases List.mem_append.1 hn with hn | hn
    · exact List.mem_append_left _ (hm n hn)
    · exact List.mem_append_right _ hn

theorem append (h₁ : Keeps given lost caches os₁ os₁') (h₂ : Keeps given lost caches os₂ os₂') :
    Keeps given lost caches (os₁ ++ os₂) (os₁' ++ os₂') where
  lexical n hn := by
    rw [lexicalAll_append, List.mem_append] at hn ⊢
    rcases hn with hn | hn
    · exact (h₁.lexical n hn).imp_left .inl
    · exact (h₂.lexical n hn).imp_left .inr
  hoisted n hn := by
    rw [hoistedAll_append, List.mem_append] at hn ⊢
    rcases hn with hn | hn
    · exact (h₁.hoisted n hn).imp_left .inl
    · exact (h₂.hoisted n hn).imp_left .inr
  free n hn := by
    rw [freeAll_append, List.mem_append] at hn ⊢
    rw [lexicalAll_append, List.mem_append]
    rcases hn with hn | hn
    · rcases h₁.free n hn with h | h | h
      · exact .inl (.inl h)
      · exact .inr (.inl (.inl h))
      · exact .inr (.inr h)
    · rcases h₂.free n hn with h | h | h
      · exact .inl (.inr h)
      · exact .inr (.inl (.inr h))
      · exact .inr (.inr h)

theorem declared (h : Keeps given lost caches os os') (k : ScopeKind) (hn : n ∈ declared k os) :
    n ∈ Outline.declared k os' ∨ n ∈ lost := by
  rw [mem_declared] at hn ⊢
  rcases hn with hn | ⟨hk, hn⟩
  · exact (h.lexical n hn).imp_left .inl
  · exact (h.hoisted n hn).imp_left fun h => .inr ⟨hk, h⟩

theorem free_scope (h : Keeps given lost caches os os') (k : ScopeKind) (f f' : Option Span)
    (hn : n ∈ Outline.free given (.scope k f os')) :
    n ∈ Outline.free bare (.scope k f' os) ∨ n ∈ caches ++ lost := by
  rw [mem_free_scope] at hn ⊢
  obtain ⟨hfree, hdecl, -⟩ := hn
  rcases h.free n hfree with hn | hn | hn
  · by_cases hd : n ∈ Outline.declared k os
    · exact .inr (List.mem_append_right _ ((h.declared k hd).resolve_left hdecl))
    · exact .inl ⟨hn, hd, by simp [bare]⟩
  · exact absurd (mem_declared.2 (.inl hn)) hdecl
  · exact .inr hn

theorem scope (h : Keeps given lost caches os os') (k : ScopeKind) (f : Option Span) :
    Keeps given lost caches [.scope k f os] [.scope k f os'] where
  lexical n hn := by simp [lexicalAll, Outline.lexical] at hn
  hoisted n hn := by
    simp only [hoistedAll, Outline.hoisted, List.append_nil] at hn ⊢
    split at hn
    · cases hn
    · rename_i hk
      rw [if_neg hk]
      exact h.hoisted n hn
  free n hn := by
    simp only [freeAll, List.append_nil] at hn ⊢
    rcases h.free_scope k f f hn with hn | hn
    · exact .inl hn
    · exact .inr (.inr hn)

/-- Facts whose declarations are lost give way to facts that mention nothing new. -/
theorem of_free (hl : ∀ n ∈ lexicalAll os, n ∈ lost) (hh : ∀ n ∈ hoistedAll os, n ∈ lost)
    (hf : ∀ n ∈ freeAll given os', n ∈ freeAll bare os ∨ n ∈ caches ++ lost) :
    Keeps given lost caches os os' where
  lexical n hn := .inr (hl n hn)
  hoisted n hn := .inr (hh n hn)
  free n hn := (hf n hn).imp_right .inr

theorem nil_right (hl : ∀ n ∈ lexicalAll os, n ∈ lost) (hh : ∀ n ∈ hoistedAll os, n ∈ lost) :
    Keeps given lost caches os [] :=
  .of_free hl hh fun n hn => by cases hn

end Keeps

/-! ### The outline of made code -/

theorem outlineAll_append (naming : Naming) (ts us : List Ast) :
    outlineAll naming (ts ++ us) = outlineAll naming ts ++ outlineAll naming us :=
  Joins.append ⟨rfl, fun _ _ => rfl⟩ _ _

theorem outlineAll_idents (names : List String) :
    outlineAll .refers (names.map madeIdent) = names.map .reference := by
  induction names with
  | nil => rfl
  | cons n ns ih => simp [outlineAll, ih, madeIdent, made, outlineAs]

@[simp] theorem bodyFacts_block (s : Span) (ss : List Ast) :
    bodyFacts (.node .block s ss) (outlineAs .refers (.node .block s ss)) =
      outlineAll .refers ss := by
  simp [outlineAs, bodyFacts]

theorem outline_metadataStmts (target : String) (m : Metadata) :
    outlineAll .refers (metadataStmts target m) =
      .reference target :: m.closure.map .reference ++
        [.reference target, .reference target, .reference target] := by
  simp [metadataStmts, assignProperty, madeStatement, madeAssign, madeMember, made, madeString,
    madeNumber, outlineAll, outlineAs, isTypeKind, outlineAll_idents]
  simp [madeIdent, made, outlineAs]

theorem outline_madeFunction (a g : Bool) (params : List Ast) (body : Ast) :
    outlineAs .refers (madeFunction a g params body) =
      [.scope .function (some Span.made)
        (outlineAll .refers params ++ bodyFacts body (outlineAs .refers body))] := by
  simp [madeFunction, made, outlineAs, outlineAll]

theorem outline_wrap (a g : Bool) (params : List Ast) (body : Ast) (binding : String)
    (selfName : Option String) (m : Metadata) :
    outlineAs .refers (wrap (madeFunction a g params body) binding selfName m) =
      [.scope .function (some Span.made)
        (.declare binding .const ::
          .scope .function (some Span.made)
            (.declare (selfName.getD binding) .function ::
              (outlineAll .refers params ++ bodyFacts body (outlineAs .refers body))) ::
          outlineAll .refers (metadataStmts binding m) ++ [.reference binding])] := by
  simp [wrap, madeFunction, made, outlineAs, outlineAll, madeCall, madeParen, madeFunctionExpr,
    madeBlock, madeVar, madeReturn, isTypeKind, outlineAll_append, outlineDeclarators,
    madeBinding, madeIdent]
  rfl

theorem outline_delegate (wrapper : Ast) (cache : Option String) :
    outlineAs .refers (delegate wrapper cache) =
      [.scope .block none (cache.toList.map .reference ++ cache.toList.map .reference ++
        outlineAs .refers wrapper ++ [.reference "arguments"])] := by
  cases cache <;>
    simp [delegate, made, outlineAs, outlineAll, madeCall, madeParen, madeMember, madeBlock,
      madeAssign, madeReturn, isTypeKind, madeBinding, madeIdent]

theorem outlineAll_cacheDecls (names : List String) :
    outlineAll .refers (names.map cacheDecl) = names.map (.declare · .let) := by
  induction names with
  | nil => rfl
  | cons n ns ih =>
    simp [outlineAll, ih, cacheDecl, madeVar, made, outlineAs, outlineDeclarators, madeBinding,
      madeIdent, boundNames, declareAll, varBinding]

section Made

variable {given : Option Span → List String}

theorem freeAll_metadataStmts (h : n ∈ freeAll given (outlineAll .refers (metadataStmts target m))) :
    n = target ∨ n ∈ m.closure := by
  rw [outline_metadataStmts] at h
  simp only [freeAll_append, freeAll, free_reference, freeAll_references, List.cons_append,
    List.nil_append, List.append_nil, List.mem_cons, List.mem_append, List.not_mem_nil,
    or_false] at h
  tauto

/-- **A wrapper mentions what its function captures and mentions**, but not the name by which the
function knows itself. -/
theorem free_wrap {a g : Bool} {params : List Ast} {body : Ast} {binding : String}
    {selfName : Option String}
    (h : n ∈ freeAll given (outlineAs .refers (wrap (madeFunction a g params body) binding selfName m))) :
    n ∈ m.closure ∨ (n ∈ freeAll given (outlineAs .refers (madeFunction a g params body)) ∧
      selfName ≠ some n) := by
  rw [outline_wrap] at h
  simp only [freeAll, List.append_nil, mem_free_scope] at h
  obtain ⟨hfree, hdecl, -⟩ := h
  have hbinding : n ≠ binding := by
    rintro rfl
    exact hdecl (mem_declared.2 (.inl (by simp [lexical, BindingKind.isFunctionScoped])))
  simp only [List.cons_append, freeAll, free_declare, free_reference, List.nil_append,
    freeAll_append, List.mem_append, List.append_nil, List.mem_singleton] at hfree
  rcases hfree with hfree | hfree | rfl
  · rw [mem_free_scope] at hfree
    obtain ⟨hfree, hdecl, hgiven⟩ := hfree
    simp only [freeAll, free_declare, List.nil_append] at hfree
    rw [mem_declared] at hdecl
    refine .inr ⟨?_, ?_⟩
    · rw [outline_madeFunction]
      simp only [freeAll, List.append_nil, mem_free_scope, mem_declared]
      refine ⟨hfree, fun hd => hdecl ?_, hgiven⟩
      rcases hd with hd | ⟨hk, hd⟩
      · exact .inl (List.mem_append_right _ hd)
      · exact .inr ⟨hk, List.mem_append_right _ hd⟩
    · rintro rfl
      exact hdecl (.inl (by simp [lexical, BindingKind.isFunctionScoped]))
  · rcases freeAll_metadataStmts hfree with rfl | h
    · exact absurd rfl hbinding
    · exact .inl h
  · exact absurd rfl hbinding

theorem free_delegate {wrapper : Ast} {cache : Option String}
    (h : n ∈ freeAll given (bodyFacts (delegate wrapper cache) (outlineAs .refers (delegate wrapper cache)))) :
    n ∈ cache.toList ∨ n ∈ freeAll given (outlineAs .refers wrapper) ∨ n = "arguments" := by
  rw [outline_delegate] at h
  simp only [delegate, madeBlock, made, bodyFacts, freeAll_append, freeAll_references, freeAll,
    free_reference, List.append_nil, List.mem_append, List.mem_singleton] at h
  tauto

end Made

/-! ### Statements that attach metadata -/

/-- The statements attach metadata to functions; the functions and what they capture are among
the names. -/
def Attached (names : List String) (stmts : List Ast) : Prop :=
  ∃ ms : List (String × Metadata), stmts = ms.flatMap (fun x => metadataStmts x.1 x.2) ∧
    ∀ x ∈ ms, x.1 ∈ names ∧ ∀ n ∈ x.2.closure, n ∈ names

namespace Attached

variable {names more : List String} {stmts stmts' : List Ast}

theorem nil : Attached names [] := ⟨[], rfl, by simp⟩

theorem single (ht : target ∈ names) (hm : ∀ n ∈ m.closure, n ∈ names) :
    Attached names (metadataStmts target m) :=
  ⟨[(target, m)], by simp, by simpa using ⟨ht, hm⟩⟩

theorem append (h : Attached names stmts) (h' : Attached names stmts') :
    Attached names (stmts ++ stmts') := by
  obtain ⟨ms, rfl, hms⟩ := h
  obtain ⟨ms', rfl, hms'⟩ := h'
  refine ⟨ms ++ ms', by simp, fun x hx => ?_⟩
  rcases List.mem_append.1 hx with hx | hx
  · exact hms x hx
  · exact hms' x hx

theorem mono (h : Attached names stmts) (hm : ∀ n ∈ names, n ∈ more) : Attached more stmts := by
  obtain ⟨ms, rfl, hms⟩ := h
  exact ⟨ms, rfl, fun x hx => ⟨hm _ (hms x hx).1, fun n hn => hm n ((hms x hx).2 n hn)⟩⟩

theorem both (h : Attached names stmts) (h' : Attached more stmts') :
    Attached (names ++ more) (stmts ++ stmts') :=
  (h.mono fun _ => List.mem_append_left _).append (h'.mono fun _ => List.mem_append_right _)

theorem free {given : Option Span → List String} (h : Attached names stmts)
    (hn : n ∈ freeAll given (outlineAll .refers stmts)) : n ∈ names := by
  obtain ⟨ms, rfl, hms⟩ := h
  induction ms with
  | nil => simp [outlineAll, freeAll] at hn
  | cons x ms ih =>
    rw [List.flatMap_cons, outlineAll_append, freeAll_append, List.mem_append] at hn
    rcases hn with hn | hn
    · have hx := hms x List.mem_cons_self
      rcases freeAll_metadataStmts hn with rfl | hn
      · exact hx.1
      · exact hx.2 n hn
    · exact ih (fun y hy => hms y (List.mem_cons_of_mem _ hy)) hn

end Attached

end Worklet
