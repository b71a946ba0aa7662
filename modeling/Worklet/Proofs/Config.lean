import Mathlib
import Worklet.Config.Decode

/-!
# Decoding configurations

An object describes a configuration by some of its options. Those that it leaves out are the
standard ones, in the configuration and in its registry of hooks.

* `Document.GivesSet`, `Document.GivesTable` — values that describe a set and a table.
* `RecordField`, `Document.GivesRecord` — an object that describes a record.
* `IsRecord` — members with known names, each of them once.

Principal result: `Config.ofDocument_overlay` — an object that describes a configuration is decoded to
it, and one with a name that is unknown or repeated is rejected.
-/

set_option autoImplicit false

namespace Worklet

/-! ### Sets and tables -/

theorem mem_insertNew {set : List String} {x y : String} :
    y ∈ insertNew set x ↔ y ∈ set ∨ y = x := by
  unfold insertNew
  split
  case isTrue h =>
    have hx : x ∈ set := by simpa using h
    exact ⟨.inl, fun hy => hy.elim id fun e => e ▸ hx⟩
  case isFalse => simp

theorem nodup_insertNew {set : List String} (h : set.Nodup) (x : String) :
    (insertNew set x).Nodup := by
  unfold insertNew
  split
  case isTrue => exact h
  case isFalse hx =>
    exact List.nodup_append.2 ⟨h, List.nodup_singleton x, by grind⟩

theorem foldl_insertNew (xs set : List String) (h : set.Nodup) :
    (xs.foldl insertNew set).Nodup ∧ ∀ y, y ∈ xs.foldl insertNew set ↔ y ∈ set ∨ y ∈ xs := by
  induction xs generalizing set with
  | nil => simpa using h
  | cons x xs ih =>
    obtain ⟨hn, hm⟩ := ih (insertNew set x) (nodup_insertNew h x)
    refine ⟨hn, fun y => ?_⟩
    rw [List.foldl_cons, hm, mem_insertNew, List.mem_cons, or_assoc]

theorem length_eq_of_mem_iff {s t : List String} (hs : s.Nodup) (ht : t.Nodup)
    (h : ∀ x, x ∈ s ↔ x ∈ t) : s.length = t.length :=
  ((List.perm_ext_iff_of_nodup hs ht).2 h).length_eq

theorem sameSet_of_mem_iff {s t : List String} (hs : s.Nodup) (ht : t.Nodup)
    (h : ∀ x, x ∈ s ↔ x ∈ t) : sameSet s t = true := by
  rw [sameSet, length_eq_of_mem_iff hs ht h]
  simpa using fun x hx => (h x).1 hx

theorem isSome_eq_of_rel {α β : Type} {R : α → β → Prop} {x : Option α} {y : Option β}
    (h : Option.Rel R x y) : x.isSome = y.isSome := by
  cases h <;> rfl

namespace Table

variable {α β : Type}

theorem get?_cons (n : String) (v : α) (t : Table α) (name : String) :
    get? ((n, v) :: t) name = if n = name then some v else get? t name := by
  by_cases h : n = name <;> simp [get?, h]

theorem get?_append (s t : Table α) (name : String) :
    get? (s ++ t) name = (get? s name).or (get? t name) := by
  induction s with
  | nil => rfl
  | cons e s ih =>
    rw [List.cons_append, get?_cons, get?_cons, ih]
    split <;> rfl

theorem get?_put (t : Table α) (n : String) (v : α) (name : String) :
    get? (t.put n v) name = if n = name then some v else get? t name := by
  induction t with
  | nil => rw [put, get?_cons]
  | cons e t ih =>
    obtain ⟨k, w⟩ := e
    rw [put, get?_cons]
    by_cases h : k = n
    · rw [if_pos (beq_iff_eq.2 h), get?_cons, h]
      split <;> rfl
    · rw [if_neg (by simpa using h), get?_cons, ih]
      grind

theorem keys_put (t : Table α) (n : String) (v : α) :
    (t.put n v).map (·.1) = insertNew (t.map (·.1)) n := by
  induction t with
  | nil => rfl
  | cons e t ih =>
    rw [put]
    by_cases h : e.1 = n <;> simp_all [insertNew]
    grind

theorem keys_foldl_put (es t : Table α) :
    (es.foldl (fun t e => t.put e.1 e.2) t).map (·.1) = (es.map (·.1)).foldl insertNew (t.map (·.1)) := by
  induction es generalizing t with
  | nil => rfl
  | cons e es ih => rw [List.foldl_cons, ih, keys_put, List.map_cons, List.foldl_cons]

/-- Of the entries of a name the last one counts. -/
theorem get?_foldl_put (es t : Table α) (name : String) :
    get? (es.foldl (fun t e => t.put e.1 e.2) t) name = (get? es.reverse name).or (get? t name) := by
  induction es generalizing t with
  | nil => rfl
  | cons e es ih =>
    rw [List.foldl_cons, ih, get?_put, List.reverse_cons, get?_append, get?_cons, Option.or_assoc]
    split <;> rfl

theorem isSome_get? (t : Table α) (name : String) :
    (get? t name).isSome = true ↔ name ∈ t.map (·.1) := by
  induction t with
  | nil => simp [get?]
  | cons e t ih =>
    rw [get?_cons, List.map_cons, List.mem_cons, ← ih]
    grind

theorem get?_of_mem {t : Table α} (h : (t.map (·.1)).Nodup) {e : String × α} (he : e ∈ t) :
    get? t e.1 = some e.2 := by
  induction t with
  | nil => cases he
  | cons a t ih =>
    rw [List.map_cons, List.nodup_cons] at h
    rw [get?_cons]
    rcases List.mem_cons.1 he with rfl | he
    · simp
    · rw [if_neg fun (hae : a.1 = e.1) => h.1 (hae ▸ List.mem_map_of_mem he), ih h.2 he]

theorem same_of_get? {eq : α → α → Bool} {s t : Table α} (hs : (s.map (·.1)).Nodup)
    (ht : (t.map (·.1)).Nodup)
    (h : ∀ name, Option.Rel (fun b a => eq b a = true) (get? s name) (get? t name)) :
    same eq s t = true := by
  have hlen : s.length = t.length := by
    simpa using length_eq_of_mem_iff hs ht fun name => by
      rw [← isSome_get?, ← isSome_get?]
      rw [isSome_eq_of_rel (h name)]
  rw [same, hlen, beq_self_eq_true, Bool.true_and, List.all_eq_true]
  intro e he
  have hrel := h e.1
  rw [get?_of_mem hs he] at hrel
  cases hg : get? t e.1 with
  | none => rw [hg] at hrel; cases hrel
  | some a =>
    rw [hg] at hrel
    cases hrel with
    | some ha => simpa using ha

theorem rel_get? {R : α → β → Prop} {s : Table α} {t : Table β}
    (h : List.Forall₂ (fun e f => e.1 = f.1 ∧ R e.2 f.2) s t) (name : String) :
    Option.Rel R (get? s name) (get? t name) := by
  induction h with
  | nil => exact .none
  | @cons e f s t hef _ ih =>
    rw [get?_cons, get?_cons, hef.1]
    split
    · exact .some hef.2
    · exact ih

end Table

/-! ### Values -/

namespace Document

variable {α β : Type}

def GivesString (s : String) (d : Document) : Prop :=
  ∃ spot, d = .scalar (.string s) spot

/-- A version by its name, in any case. The sixth edition goes by two names. -/
def GivesTarget (t : Target) (d : Document) : Prop :=
  ∃ s, GivesString s d ∧ (s.toLower = t.name ∨ s.toLower = "es6" ∧ t = .es2015)

def GivesBool (b : Bool) (d : Document) : Prop :=
  ∃ spot, d = .scalar (.bool b) spot

def GivesPositions (h : HookSpec) (d : Document) : Prop :=
  ∃ items spot, d = .array items none spot ∧
    List.Forall₂ (fun (n : Nat) d => ∃ spot, d = .scalar (.integer n) spot) h.positions items

/-- The members of a set, in any order, each of them once or more often. -/
def GivesSet (set : List String) (d : Document) : Prop :=
  set.Nodup ∧ ∃ items xs spot, d = .array items none spot ∧ List.Forall₂ GivesString xs items ∧
    ∀ x, x ∈ set ↔ x ∈ xs

/-- The entries of a table, in any order. Of the entries of a name the last one counts. -/
def GivesTable (item : α → Document → Prop) (t : Table α) (d : Document) : Prop :=
  (t.map (·.1)).Nodup ∧ ∃ ms es spot, d = .object ms none spot ∧
    List.Forall₂ (fun e m => e.1 = m.1.text ∧ item e.2 m.2) es ms ∧
    ∀ name, Table.get? t name = Table.get? es.reverse name

theorem mapM_ok {γ : Type} {f : β → Except ConfigError γ} {R : α → β → Prop} {S : γ → α → Prop}
    (hf : ∀ a b, R a b → ∃ c, f b = .ok c ∧ S c a) {as : List α} {bs : List β}
    (h : List.Forall₂ R as bs) : ∃ cs, bs.mapM f = .ok cs ∧ List.Forall₂ S cs as := by
  induction h with
  | nil => exact ⟨[], rfl, .nil⟩
  | @cons a b as bs hab _ ih =>
    obtain ⟨c, hc, hS⟩ := hf a b hab
    obtain ⟨cs, hcs, hSs⟩ := ih
    exact ⟨c :: cs, by rw [List.mapM_cons, hc, hcs]; rfl, .cons hS hSs⟩

theorem string_of_gives {s : String} {d : Document} (h : GivesString s d) : d.string = .ok s := by
  obtain ⟨spot, rfl⟩ := h
  rfl

theorem target_of_gives {t : Target} {d : Document} (h : GivesTarget t d) : d.target = .ok t := by
  obtain ⟨s, hs, hname⟩ := h
  have ht : Target.ofText? s = some t := by
    unfold Target.ofText?
    rcases hname with hname | ⟨hname, rfl⟩
    · rw [hname]
      cases t <;> rfl
    · rw [hname]
      rfl
  simp only [target, string_of_gives hs, bind, Except.bind, ht]
  rfl

theorem bool_of_gives {b : Bool} {d : Document} (h : GivesBool b d) : d.bool = .ok b := by
  obtain ⟨spot, rfl⟩ := h
  rfl

theorem positions_of_gives {h : HookSpec} {d : Document} (hd : GivesPositions h d) :
    d.positions = .ok h.positions := by
  obtain ⟨items, spot, rfl, hitems⟩ := hd
  obtain ⟨ns, hns, heq⟩ := mapM_ok (f := position) (S := Eq) (by
    rintro n _ ⟨spot, rfl⟩
    exact ⟨n, by simp [position], rfl⟩) hitems
  rw [List.forall₂_eq_eq_eq] at heq
  rw [positions, hns, heq]
  rfl

theorem stringSet_of_gives (set : List String) (d : Document) (h : GivesSet set d) :
    ∃ xs, d.stringSet = .ok xs ∧ sameSet xs set = true := by
  obtain ⟨hset, items, xs, spot, rfl, hitems, hmem⟩ := h
  obtain ⟨ys, hys, heq⟩ := mapM_ok (f := string) (S := Eq)
    (fun s _ hs => ⟨s, string_of_gives hs, rfl⟩) hitems
  rw [List.forall₂_eq_eq_eq] at heq
  subst heq
  obtain ⟨hnodup, hfold⟩ := foldl_insertNew ys [] .nil
  refine ⟨_, by rw [stringSet, hys]; rfl, sameSet_of_mem_iff hnodup hset fun x => ?_⟩
  rw [hfold, hmem]
  simp

theorem table_of_gives {item : α → Document → Prop} {decode : Document → Except ConfigError α}
    {eq : α → α → Bool} (hitem : ∀ a d, item a d → ∃ b, decode d = .ok b ∧ eq b a = true)
    {t : Table α} {d : Document} (h : GivesTable item t d) :
    ∃ t', d.table decode = .ok t' ∧ Table.same eq t' t = true := by
  obtain ⟨ht, ms, es, spot, rfl, hms, hlast⟩ := h
  obtain ⟨es', hes, hrel⟩ := mapM_ok
    (f := fun (m : Key × Document) => do return (m.1.text, ← decode m.2))
    (S := fun e' e => e'.1 = e.1 ∧ eq e'.2 e.2 = true) (by
      rintro ⟨n, a⟩ ⟨k, d⟩ ⟨rfl, ha⟩
      obtain ⟨b, hb, heq⟩ := hitem a d ha
      exact ⟨(k.text, b), by simp only [hb]; rfl, rfl, heq⟩) hms
  refine ⟨_, by rw [table, hes]; rfl, Table.same_of_get? ?_ ht fun name => ?_⟩
  · rw [Table.keys_foldl_put]
    exact (foldl_insertNew _ [] .nil).1
  · rw [Table.get?_foldl_put, hlast]
    simpa [Table.get?] using Table.rel_get? (List.rel_reverse hrel) name

/-! ### Records -/

/-- A field of a record: its name, the values that describe it, and records with equal values. -/
structure RecordField (α : Type) where
  name : String
  gives : α → Document → Prop
  same : α → α → Prop

/-- The names are known, and no two are equal. -/
def IsRecord (known : List String) (ms : List (Key × Document)) : Prop :=
  (∀ m ∈ ms, m.1.text ∈ known) ∧ (ms.map fun m => m.1.text).Nodup

/-- The members of an object describe the record. A field that is left out is as it is at the start. -/
def GivesRecord (fields : List (RecordField α)) (start a : α) (d : Document) : Prop :=
  ∃ ms spot, d = .object ms none spot ∧ (ms.map fun m => m.1.text).Nodup ∧
    (∀ m ∈ ms, ∃ f ∈ fields, f.name = m.1.text ∧ f.gives a m.2) ∧
    ∀ f ∈ fields, f.name ∉ ms.map (fun m => m.1.text) → f.same start a

/-- A member sets its field to what its value describes, and leaves the other fields. -/
structure SetsFields (fields : List (RecordField α)) (known : List String)
    (set : String → Document → α → Except ConfigError α) : Prop where
  known : ∀ f ∈ fields, f.name ∈ known
  sets : ∀ f ∈ fields, ∀ a d, f.gives a d → ∀ x, ∃ y, set f.name d x = .ok y ∧
    ∀ g ∈ fields, g.name = f.name ∨ g.same x a → g.same y a

variable {fields : List (RecordField α)} {known : List String}
  {set : String → Document → α → Except ConfigError α}

theorem members_of_gives (hset : SetsFields fields known set) {a : α} {ms : List (Key × Document)}
    (hms : ∀ m ∈ ms, ∃ f ∈ fields, f.name = m.1.text ∧ f.gives a m.2) (seen : List String)
    (hnodup : (seen ++ ms.map fun m => m.1.text).Nodup) (x : α) :
    ∃ y, members known set seen x ms = .ok y ∧
      ∀ g ∈ fields, g.name ∈ ms.map (fun m => m.1.text) ∨ g.same x a → g.same y a := by
  induction ms generalizing seen x with
  | nil => exact ⟨x, rfl, fun g _ h => by simpa using h⟩
  | cons m ms ih =>
    obtain ⟨f, hf, hname, hgives⟩ := hms m List.mem_cons_self
    obtain ⟨y, hy, hsame⟩ := hset.sets f hf a m.2 hgives x
    obtain ⟨z, hz, hsame'⟩ := ih (fun m hm => hms m (List.mem_cons_of_mem _ hm))
      (m.1.text :: seen) (by grind) y
    refine ⟨z, ?_, fun g hg h => hsame' g hg ?_⟩
    · have hk : known.contains m.1.text = true := by simpa [← hname] using hset.known f hf
      have hs : seen.contains m.1.text = false := by grind
      rw [members, hk, hs, ← hname, hy, ← hz, hname]
      rfl
    · grind

theorem fields_of_gives (hset : SetsFields fields known set) {name : String} {start a : α}
    {d : Document} (h : GivesRecord fields start a d) :
    ∃ y, d.fields name known set start = .ok y ∧ ∀ g ∈ fields, g.same y a := by
  obtain ⟨ms, spot, rfl, hnodup, hms, hleft⟩ := h
  obtain ⟨y, hy, hsame⟩ := members_of_gives hset hms [] hnodup start
  refine ⟨y, by rw [Document.fields, hy]; rfl, fun g hg => hsame g hg ?_⟩
  by_cases hg' : g.name ∈ ms.map fun m => m.1.text
  · exact .inl hg'
  · exact .inr (hleft g hg hg')

/-- Members that are decoded have known names, each of them once, and values that are decoded. -/
theorem isRecord_of_members {seen : List String} {x y : α} {ms : List (Key × Document)}
    (h : members known set seen x ms = .ok y) :
    (∀ m ∈ ms, m.1.text ∈ known ∧ m.1.text ∉ seen ∧ ∃ x y, set m.1.text m.2 x = .ok y) ∧
      (ms.map fun m => m.1.text).Nodup := by
  induction ms generalizing seen x with
  | nil => simp
  | cons m ms ih =>
    unfold members at h
    split at h
    · cases h
    · split at h
      · cases h
      · cases hx : set m.1.text m.2 x with
        | error e => rw [hx] at h; cases h
        | ok z =>
          rw [hx] at h
          obtain ⟨hms, hnodup⟩ := ih h
          simp only [List.forall_mem_cons, List.map_cons, List.nodup_cons]
          grind

theorem fields_object_ok {name : String} {start y : α} {ms : List (Key × Document)}
    {fault : Option Fault} {spot : Spot}
    (h : (Document.object ms fault spot).fields name known set start = .ok y) :
    IsRecord known ms ∧ ∀ m ∈ ms, ∃ x y, set m.1.text m.2 x = .ok y := by
  rw [Document.fields] at h
  cases hx : members known set [] start ms with
  | error e => rw [hx] at h; cases h
  | ok z =>
    obtain ⟨hms, hnodup⟩ := isRecord_of_members hx
    exact ⟨⟨fun m hm => (hms m hm).1, hnodup⟩, fun m hm => (hms m hm).2.2⟩

end Document

/-! ### Configurations -/

open Document

/-- The fields of a registry, with the values that describe them. -/
def HookRegistry.fields : List (RecordField HookRegistry) :=
  [⟨"functionHooks", fun r => GivesTable GivesPositions r.functionHooks,
      fun r r' => Table.same (· == ·) r.functionHooks r'.functionHooks = true⟩,
    ⟨"objectHooks", fun r => GivesSet r.objectHooks,
      fun r r' => sameSet r.objectHooks r'.objectHooks = true⟩,
    ⟨"builderRoots", fun r => GivesTable GivesSet r.builderRoots,
      fun r r' => Table.same sameSet r.builderRoots r'.builderRoots = true⟩,
    ⟨"builderMethods", fun r => GivesSet r.builderMethods,
      fun r r' => sameSet r.builderMethods r'.builderMethods = true⟩]

/-- The fields of a configuration. A registry is described by its own fields. -/
def Config.fields : List (RecordField Config) :=
  [⟨"marker", fun c => GivesString c.marker, fun c c' => c.marker = c'.marker⟩,
    ⟨"target", fun c => GivesTarget c.target, fun c c' => c.target = c'.target⟩,
    ⟨"strictMode", fun c => GivesBool c.strictMode, fun c c' => c.strictMode = c'.strictMode⟩,
    ⟨"hooks", fun c => GivesRecord HookRegistry.fields .standard c.hooks,
      fun c c' => c.hooks.same c'.hooks = true⟩]

theorem HookRegistry.ofDocument_eq : ∃ set, SetsFields HookRegistry.fields fieldNames set ∧
    ∀ d, ofDocument d = d.fields "HookRegistry" fieldNames set .standard := by
  refine ⟨_, ⟨by simp [HookRegistry.fields, fieldNames], ?_⟩, fun _ => rfl⟩
  intro f hf a d hd x
  simp only [HookRegistry.fields, List.mem_cons, List.not_mem_nil, or_false] at hf
  rcases hf with rfl | rfl | rfl | rfl
  · have hspec : ∀ a d, GivesPositions a d →
        ∃ b, (HookSpec.mk <$> d.positions) = .ok b ∧ (b == a) = true :=
      fun a d h => ⟨a, by rw [positions_of_gives h]; rfl, beq_self_eq_true a⟩
    obtain ⟨t, ht, hsame⟩ := table_of_gives hspec hd
    exact ⟨{ x with functionHooks := t }, by simp [ht], by simp [HookRegistry.fields, hsame]⟩
  · obtain ⟨t, ht, hsame⟩ := stringSet_of_gives _ _ hd
    exact ⟨{ x with objectHooks := t }, by simp [ht], by simp [HookRegistry.fields, hsame]⟩
  · obtain ⟨t, ht, hsame⟩ := table_of_gives stringSet_of_gives hd
    exact ⟨{ x with builderRoots := t }, by simp [ht], by simp [HookRegistry.fields, hsame]⟩
  · obtain ⟨t, ht, hsame⟩ := stringSet_of_gives _ _ hd
    exact ⟨{ x with builderMethods := t }, by simp [ht], by simp [HookRegistry.fields, hsame]⟩

theorem HookRegistry.ofDocument_of_gives {r : HookRegistry} {d : Document}
    (h : GivesRecord HookRegistry.fields .standard r d) :
    ∃ r', HookRegistry.ofDocument d = .ok r' ∧ r'.same r = true := by
  obtain ⟨set, hset, heq⟩ := HookRegistry.ofDocument_eq
  obtain ⟨r', hr, hsame⟩ := fields_of_gives hset h
  refine ⟨r', (heq d).trans hr, ?_⟩
  simpa [HookRegistry.fields, HookRegistry.same, and_assoc] using hsame

namespace Config

theorem ofDocument_eq : ∃ set, SetsFields Config.fields fieldNames set ∧
    (∀ d x y, set "hooks" d x = .ok y → ∃ r, HookRegistry.ofDocument d = .ok r) ∧
    ∀ d, ofDocument d = d.fields "WorkletConfig" fieldNames set .standard := by
  refine ⟨_, ⟨by simp [Config.fields, fieldNames], ?_⟩, ?_, fun _ => rfl⟩
  · intro f hf a d hd x
    simp only [Config.fields, List.mem_cons, List.not_mem_nil, or_false] at hf
    rcases hf with rfl | rfl | rfl | rfl
    · exact ⟨{ x with marker := a.marker }, by simp [string_of_gives hd], by simp [Config.fields]⟩
    · exact ⟨{ x with target := a.target }, by simp [target_of_gives hd], by simp [Config.fields]⟩
    · exact ⟨{ x with strictMode := a.strictMode }, by simp [bool_of_gives hd], by simp [Config.fields]⟩
    · obtain ⟨r, hr, hsame⟩ := HookRegistry.ofDocument_of_gives hd
      exact ⟨{ x with hooks := r }, by simp [hr], by simp [Config.fields, hsame]⟩
  · intro d x y h
    cases hr : HookRegistry.ofDocument d with
    | ok r => exact ⟨r, rfl⟩
    | error e => simp [hr] at h

/-- An object that describes a configuration is decoded to it, whatever it leaves out and in whichever
order its members stand. An object is rejected if it has a name that is unknown or repeated, and so is
one whose registry has. -/
theorem ofDocument_overlay (d : Document) :
    (∀ c : Config, GivesRecord Config.fields .standard c d → ∃ c', ofDocument d = .ok c' ∧
      c'.same c = true ∧ ∀ text, Document.read text = (d, none) → ofText text = .ok c') ∧
    ∀ ms fault spot, d = .object ms fault spot →
      (¬ IsRecord fieldNames ms ∨ ∃ m ∈ ms, m.1.text = "hooks" ∧ ∃ hs fault' spot',
        m.2 = .object hs fault' spot' ∧ ¬ IsRecord HookRegistry.fieldNames hs) →
      ∃ e, ofDocument d = .error e ∧ ∀ text, (Document.read text).1 = d → ofText text = .error e := by
  obtain ⟨set, hset, hhooks, heq⟩ := ofDocument_eq
  constructor
  · intro c hc
    obtain ⟨c', hc', hsame⟩ := fields_of_gives hset hc
    refine ⟨c', (heq d).trans hc', ?_, fun text htext => ?_⟩
    · simpa [Config.fields, Config.same, and_assoc] using hsame
    · rw [ofText, htext]
      simp only [(heq d).trans hc']
      rfl
  · rintro ms fault spot rfl hbad
    cases hd : ofDocument (.object ms fault spot) with
    | error e =>
      refine ⟨e, rfl, fun text htext => ?_⟩
      rw [← htext] at hd
      simp only [ofText, hd]
    | ok c =>
      obtain ⟨hrecord, hms⟩ := fields_object_ok ((heq _).symm.trans hd)
      rcases hbad with hbad | ⟨m, hm, hname, hs, fault', spot', hobject, hbad⟩
      · exact absurd hrecord hbad
      · obtain ⟨x, y, hxy⟩ := hms m hm
        rw [hname] at hxy
        obtain ⟨r, hr⟩ := hhooks _ _ _ hxy
        obtain ⟨set', -, heq'⟩ := HookRegistry.ofDocument_eq
        rw [heq', hobject] at hr
        exact absurd (fields_object_ok hr).1 hbad

/-- The text `{"hooks":{"objectHooks":["b","a","b"]},"target":"ES6"}`. -/
def sampleText : String :=
  "\x7b\"hooks\":\x7b\"objectHooks\":[\"b\",\"a\",\"b\"]\x7d,\"target\":\"ES6\"\x7d"

def sampleDocument : Document :=
  .object [
    (⟨"hooks", ⟨8, 8⟩⟩, .object [(⟨"objectHooks", ⟨23, 23⟩⟩, .array [.scalar (.string "b") ⟨28, 28⟩,
      .scalar (.string "a") ⟨32, 32⟩, .scalar (.string "b") ⟨36, 37⟩] none ⟨24, 38⟩)] none ⟨9, 38⟩),
    (⟨"target", ⟨47, 47⟩⟩, .scalar (.string "ES6") ⟨53, 54⟩)] none ⟨0, 54⟩

def sampleConfig : Config :=
  { Config.standard with
    target := .es2015, hooks := { HookRegistry.standard with objectHooks := ["a", "b"] } }

theorem read_sampleText : Document.read sampleText = (sampleDocument, none) := by cbv

theorem gives_sampleDocument : GivesRecord Config.fields .standard sampleConfig sampleDocument := by
  refine ⟨_, _, rfl, by decide, ?_, by simp [Config.fields, sampleConfig]⟩
  simp only [List.forall_mem_cons, List.not_mem_nil, false_implies, implies_true, and_true]
  constructor
  · refine ⟨_, List.mem_of_getElem? (i := 3) rfl, rfl, _, _, rfl, by decide, ?_, ?_⟩
    · simp only [List.forall_mem_cons, List.not_mem_nil, false_implies, implies_true, and_true]
      refine ⟨_, List.mem_of_getElem? (i := 1) rfl, rfl, by decide, _, ["b", "a", "b"], _, rfl, ?_, ?_⟩
      · exact .cons ⟨_, rfl⟩ (.cons ⟨_, rfl⟩ (.cons ⟨_, rfl⟩ .nil))
      · simp [sampleConfig, or_comm]
    · simp only [HookRegistry.fields, List.forall_mem_cons]
      exact ⟨fun _ => by decide, by simp, fun _ => by decide, fun _ => by decide, by simp⟩
  · exact ⟨_, List.mem_of_getElem? (i := 1) rfl, rfl, _, ⟨_, rfl⟩, .inr ⟨by cbv, rfl⟩⟩

theorem ofText_sampleText :
    (∃ c, ofText sampleText = .ok c ∧ c.same sampleConfig = true) ∧
      ∃ e, ofDocument (.record [("hooks", .record [("hook", .null)])]) = .error e := by
  obtain ⟨c, -, hsame, htext⟩ := (ofDocument_overlay _).1 sampleConfig gives_sampleDocument
  refine ⟨⟨c, htext sampleText read_sampleText, hsame⟩, ?_⟩
  obtain ⟨e, he, -⟩ := (ofDocument_overlay (.record [("hooks", .record [("hook", .null)])])).2 _ _ _ rfl
    (.inr ⟨_, List.mem_cons_self, rfl, _, _, _, rfl, fun h => absurd h.1 (by decide)⟩)
  exact ⟨e, he⟩

end Config

end Worklet
