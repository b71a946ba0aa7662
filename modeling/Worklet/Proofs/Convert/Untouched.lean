import Worklet.Proofs.Convert.Arrivals

/-!
# Code without worklets is untouched

Principal results: `transform_stays` — every plain piece of a module stays where it goes, whatever is
converted around it; `transform_untouched` — and a module without such a function is left as it is.
-/

set_option autoImplicit false

namespace Worklet

open Syntax

/-- A tree without a marked or detected function stays as it is. -/
theorem Becomes.eq_of_isPlain {job : Job} {w : Slot} {t t' : Ast} {tr : Trace} {b : Bool}
    (h : Becomes job w t t' tr) (hp : Piece.IsPlain job.config ⟨w, t, b⟩) : t' = t := by
  refine (h.unchanged (h.not_converted fun site hs hr => ?_)).1
  exact absurd (hp site hs) hr

/-- **Every plain piece of a module stays, whatever is converted around it.** -/
theorem transform_stays (config : Config) {p : Program} (hroot : isModule p.module = true)
    (hstrict : config.strictMode = false) {π : Path} {x : Piece}
    (hx : Piece.at? config.hooks ⟨.plain, p.module, false⟩ π = some x) (he : x.isElement = true)
    (hp : x.IsPlain config) : Stays config.marker p.module (transform config p).module π x.tree := by
  let job := Job.ofProgram config p
  obtain ⟨τ, hτ, rfl⟩ : ∃ τ, (Stage.ofProgram p).at? job π = some τ ∧ τ.toPiece = x :=
    Stage.exists_at? hx
  have hbody : τ.isBody = false := by
    cases hb : τ.isBody with
    | false => rfl
    | true => simp [Piece.isElement, hb] at he
  have hsite : τ.isSite = true := by rwa [Piece.isSite, ← hbody]
  obtain ⟨o, ho, hleaves⟩ := transform_arrives config hroot hstrict hτ hsite
  refine ⟨o, ho, fun π' hπ' => ?_⟩
  obtain ⟨u, hu, rfl | ⟨hb, -⟩⟩ := hleaves π' hπ'
  · have hbecomes := τ.becomes job
    rw [hu, hbecomes.eq_of_isPlain (b := τ.isBody) hp]
  · rw [hbody] at hb
    cases hb

/-! ### Programs -/

/-- Functions that nobody asks for leave nothing. -/
theorem Yields.eq_nil {job : Job} {sites : List FunctionSite} {entries : List Entry}
    (h : Yields job sites entries) (hp : ∀ site ∈ sites, site.reason? job.config.marker = none) :
    entries = [] := by
  obtain ⟨fates, rfl, hfits, hentries⟩ := h
  have hnone : (fates.flatMap fun x => x.2.entries job x.1) = [] := by
    rw [List.flatMap_eq_nil_iff]
    rintro ⟨site, fate⟩ hx
    have hreason := hp site (List.mem_map_of_mem hx)
    cases hfits _ hx with
    | ignored _ => rfl
    | converted _ _ _ _ hr =>
      rw [hreason] at hr
      cases hr
    | refused hr _ =>
      rw [hreason] at hr
      cases hr
  rw [hnone] at hentries
  exact hentries.eq_nil

/-- **Code without worklets is untouched.** Every statement, member, property or expression of a
module in which no function is marked or detected stands unchanged where its place went, whatever is
converted around it, unless it is lost with the decorators, the types or the marker of a function
that was converted. A module without such a function is left as it is, with its comments, and
nothing is recorded or reported. -/
theorem transform_untouched (config : Config) (p : Program) (hroot : isModule p.module = true)
    (hstrict : config.strictMode = false) :
    (∀ π x, Piece.at? config.hooks ⟨.plain, p.module, false⟩ π = some x → x.isElement = true →
      x.IsPlain config →
        Stays config.marker p.module (transform config p).module π x.tree) ∧
    (Piece.IsPlain config ⟨.plain, p.module, false⟩ →
      transform config p = ⟨p.module, p.comments, [], []⟩) := by
  obtain ⟨module, entries, hb, hmodule, hconverted, hrefused, hcomments⟩ :=
    transform_becomes config hroot
  have hmodule : (transform config p).module = module := by
    rw [hmodule, hstrict]
    rfl
  constructor
  · exact fun π x hx he hp => transform_stays config hroot hstrict hx he hp
  · intro hplain
    have hentries : entries = [] := by
      have hnil := hb.yields.eq_nil hplain
      simpa [Trace.entries] using hnil
    subst hentries
    have hsame := hb.eq_of_isPlain hplain
    generalize transform config p = result at hmodule hconverted hrefused hcomments
    cases result
    simp only at hmodule hconverted hrefused hcomments
    rw [hmodule, hconverted, hrefused, hcomments, hsame]
    rfl

def typeProperty : Ast :=
  .node .keyValue ⟨21, 25⟩ [.node (.word "a") ⟨21, 22⟩ [], madeNumber 1]

def valueProperty : Ast :=
  .node .keyValue ⟨67, 71⟩ [.node (.word "b") ⟨67, 68⟩ [], madeNumber 2]

/-- `const f = (): { [({ a: 1 }).a]: string } => { "worklet"; return { b: 2 }; };` -/
def sampleTyped : Program where
  filename := "/app/a.ts"
  text := []
  module :=
    made (.module none)
      [madeVar .const "f"
        (.node (.arrow false) ⟨11, 76⟩
          [.list [],
           made .block
            [madeStatement (madeString "worklet"), madeReturn (made .object [valueProperty])],
           .absent,
           made .typeAnn
            [made .typeLit
              [made (.propSignature false false true)
                [madeMember (madeParen (made .object [typeProperty])) "a",
                 made .typeAnn [made (.keywordType "string") []]]]]])]
  comments := default

/-- What the converted arrow returns is where the arrow returned it. -/
theorem transform_untouched_sampleTyped :
    isModule sampleTyped.module = true ∧ Config.standard.strictMode = false ∧
      (transform .standard sampleTyped).conversions.length = 1 ∧
      Piece.at? Config.standard.hooks ⟨.plain, sampleTyped.module, false⟩ [0, 0, 1, 1, 1, 0, 0] =
        some ⟨.plain, valueProperty, false⟩ ∧
      Stays Config.standard.marker sampleTyped.module (transform .standard sampleTyped).module
        [0, 0, 1, 1, 1, 0, 0] valueProperty := by
  refine ⟨rfl, rfl, by decide +kernel, rfl, ?_⟩
  refine (transform_untouched .standard sampleTyped rfl rfl).1 _ ⟨.plain, valueProperty, false⟩ rfl
    rfl ?_
  intro site hs
  cases hs

mutual

def nodesOf : Ast → List (Kind × Span)
  | .absent => []
  | .list ts => nodesOfAll ts
  | .node k s cs => (k, s) :: nodesOfAll cs

def nodesOfAll : List Ast → List (Kind × Span)
  | [] => []
  | t :: ts => nodesOf t ++ nodesOfAll ts

end

theorem mem_nodesOfAll {ts : List Ast} {t : Ast} {n : Kind × Span} (ht : t ∈ ts)
    (hn : n ∈ nodesOf t) : n ∈ nodesOfAll ts :=
  (Joins.mem ⟨rfl, fun _ _ => rfl⟩).2 ⟨t, ht, hn⟩

theorem mem_nodesOf {t : Ast} {π : Path} {k : Kind} {s : Span} {cs : List Ast}
    (h : t.at? π = some (.node k s cs)) : (k, s) ∈ nodesOf t := by
  induction π generalizing t with
  | nil =>
    cases h
    rw [nodesOf]
    exact List.mem_cons_self
  | cons i π ih =>
    obtain ⟨c, hc, hrest⟩ := Option.bind_eq_some_iff.1 h
    have hmem := List.mem_of_getElem? hc
    cases t with
    | absent => cases hc
    | list ts =>
      rw [nodesOf]
      exact mem_nodesOfAll hmem (ih hrest)
    | node k' s' cs' =>
      rw [nodesOf]
      exact List.mem_cons_of_mem _ (mem_nodesOfAll hmem (ih hrest))

/-- A property in the return type of a converted arrow is lost, though it holds no function and
there are no decorators. -/
theorem typeProperty_lost :
    Config.standard.strictMode = false ∧
      Piece.at? Config.standard.hooks ⟨.plain, sampleTyped.module, false⟩
        [0, 0, 1, 3, 0, 0, 0, 0, 0, 0] = some ⟨.plain, typeProperty, false⟩ ∧
      functionSites Config.standard.hooks .plain typeProperty = [] ∧
      (∀ n ∈ nodesOf sampleTyped.module, n.1 ≠ .decorator) ∧
      ∀ π, (transform .standard sampleTyped).module.at? π ≠ some typeProperty := by
  refine ⟨rfl, rfl, rfl, by decide +kernel, fun π h => ?_⟩
  have hout : (Kind.keyValue, (⟨21, 25⟩ : Span)) ∉ nodesOf (transform .standard sampleTyped).module := by
    decide +kernel
  exact hout (mem_nodesOf h)

end Worklet
