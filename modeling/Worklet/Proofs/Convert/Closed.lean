import Worklet.Proofs.Convert.Walk

/-!
# Worklets are closed

A converted function can be moved elsewhere: what it mentions is captured, its own name or global.

Principal results: `sealed_of_transform` — every conversion of a program is sealed;
`resolve_in_callable` — in a converted function a name that nothing binds is captured, the
function's own, or was global where the function stood, apart from names let out of sight.
-/

set_option autoImplicit false

namespace Worklet

open Syntax Outline Scoping

/-- The accessors of a module are given their arguments. -/
def accessorGiven (module : Ast) : Option Span → List String
  | some s => if s.isMade = false ∧ s ∈ accessorSpans module then ["arguments"] else []
  | none => []

theorem mem_accessorGiven {module : Ast} {f : Option Span} {n : String}
    (h : n ∈ accessorGiven module f) :
    n = "arguments" ∧ ∃ s, f = some s ∧ s.isMade = false ∧ s ∈ accessorSpans module := by
  unfold accessorGiven at h
  split at h
  · split at h
    · rename_i s hs
      exact ⟨by simpa using h, s, rfl, hs⟩
    · cases h
  · cases h

/-- The module of a program is ready, if no two of its functions have one span. -/
theorem ready_of_module (module : Ast) (hd : ((functionsOf module).map (·.span)).Nodup) :
    Ready (.ofModule module) (accessorGiven module) (leaks module) module where
  known _ hf := understood_of_mem module hd (functionsOf_of_functionsWithin hf)
  leaks _ hn := hn
  accessors s hs own hown := by
    have hmade : s.isMade = false := by
      rw [ScopeTable.ofModule_eq] at hown
      exact ((ScopeTable.functionScope?_isSome _ s).1 (by rw [hown]; rfl)).1
    simp [accessorGiven, hmade, hs]

/-- **Every conversion of a program is sealed.** -/
theorem sealed_of_transform (config : Config) (p : Program)
    (hd : ((functionsOf p.module).map (·.span)).Nodup) {e : Conversion}
    (he : e ∈ (transform config p).conversions) :
    Sealed (.ofModule p.module) (accessorGiven p.module) (leaks p.module) e := by
  cases hroot : isModule p.module with
  | true =>
    obtain ⟨module, entries, n', h, -, hconversions, -⟩ := transform_proceeds config hroot
    rw [hconversions, mem_convertedIn] at he
    exact (walks p.module h (ready_of_module p.module hd)).sealed e (by simpa using he)
  | false =>
    rw [transform_of_not_module config hroot] at he
    cases he

/-- **Worklets are closed.** In a function that was converted, a reference that nothing in the
function binds is to a name that the function's record captures, to the function's own name, to a
name that was global where the function stood, or to the arguments of an accessor. What is
attached to the body of a loop, what a dropped decorator declares and what the parameters of an
accessor take from its body can be left without a binding. -/
theorem resolve_in_callable (config : Config) (p : Program)
    (hd : ((functionsOf p.module).map (·.span)).Nodup) (e : Conversion)
    (he : e ∈ (transform config p).conversions) (r : Reference)
    (hr : r ∈ (ScopeTable.ofModule e.callable).references)
    (hnone : (ScopeTable.ofModule e.callable).resolve r.scope r.name = none) :
    r.name ∈ e.record.closure ∨
      e.prepared.candidate.ownName? = some r.name ∨
      (∃ own, (ScopeTable.ofModule p.module).functionScope? e.prepared.candidate.span = some own ∧
        GlobalIn (ScopeTable.ofModule p.module) own r.name) ∨
      (r.name = "arguments" ∧ ∃ f ∈ (ScopeTable.ofModule e.callable).functions,
        (ScopeTable.ofModule e.callable).isWithin r.scope f.2 = true ∧
          f.1 ∈ accessorSpans p.module) ∨
      r.name ∈ leaks p.module := by
  have hgiven : ∀ f, ∀ n ∈ accessorGiven p.module f, ∃ span, f = some span ∧ span.isMade = false := by
    intro f n hn
    obtain ⟨-, s, rfl, hs, -⟩ := mem_accessorGiven hn
    exact ⟨s, rfl, hs⟩
  rw [ScopeTable.ofModule_eq e.callable] at hr hnone ⊢
  rcases ScopeTable.mem_freeAll_of_resolve_eq_none _ _ hgiven hr hnone with h | ⟨f, hf, hin, h⟩
  · rcases sealed_of_transform config p hd he r.name h with h | h | h | h
    · exact .inl h
    · exact .inr (.inl h)
    · exact .inr (.inr (.inl h))
    · exact .inr (.inr (.inr (.inr h)))
  · obtain ⟨harguments, s, heq, -, hs⟩ := mem_accessorGiven h
    cases heq
    exact .inr (.inr (.inr (.inl ⟨harguments, f, hf, hin, hs⟩)))

/-- `const k = 1; function outer() { "worklet"; return { get v() { "worklet"; return [k, g]; } }; }` -/
def sampleProgram : Program where
  filename := "/app/a.js"
  text := []
  module :=
    made (.module none)
      [made (.varDecl .const false) [made (.declarator false) [madeBinding "k", madeNumber 1]],
       made (.funcDecl false) [madeIdent "outer",
         .node (.function false false) ⟨14, 91⟩
           [.list [], .list [],
            made .block
              [madeStatement (madeString "worklet"),
               made .returnStmt [made .object
                [.node .getter ⟨53, 87⟩ [made (.word "v") [], .absent,
                  made .block
                    [madeStatement (madeString "worklet"),
                     made .returnStmt [made .array [.list [madeIdent "k", madeIdent "g"]]]]]]]],
            .absent, .absent]]]
  comments := default

/-- The function `outer` of `sampleProgram`. -/
def sampleConversion : Conversion :=
  (transform .standard sampleProgram).conversions.get ⟨1, by decide +kernel⟩

/-- The reference that the new body of the accessor `v` makes. -/
theorem resolve_in_sampleConversion :
    "arguments" ∈ sampleConversion.record.closure ∨
      sampleConversion.prepared.candidate.ownName? = some "arguments" ∨
      (∃ own, (ScopeTable.ofModule sampleProgram.module).functionScope?
          sampleConversion.prepared.candidate.span = some own ∧
        GlobalIn (ScopeTable.ofModule sampleProgram.module) own "arguments") ∨
      ("arguments" = "arguments" ∧ ∃ f ∈ (ScopeTable.ofModule sampleConversion.callable).functions,
        (ScopeTable.ofModule sampleConversion.callable).isWithin 2 f.2 = true ∧
          f.1 ∈ accessorSpans sampleProgram.module) ∨
      "arguments" ∈ leaks sampleProgram.module :=
  resolve_in_callable .standard sampleProgram (by decide +kernel) sampleConversion
    (List.get_mem _ _) ⟨"arguments", 2⟩ (by decide +kernel) (by decide +kernel)

end Worklet
