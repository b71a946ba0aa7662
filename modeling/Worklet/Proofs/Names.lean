import Mathlib.Data.List.Dedup
import Mathlib.Data.List.Perm.Subperm
import Worklet.Names

/-!
# Supplies of names

A supply of names gives out names that are free, and what it gave out is in use from then on.

* `IsNext` — the name that is given for a base while other names are taken.
* `NameRequest`, `UsedNames.serve` — requests to a supply, and a run of them.

Principal results: `UsedNames.freshName_isNext` — a single request; `UsedNames.serve_fresh` — the
requests of a run, whatever their bases.
-/

set_option autoImplicit false

namespace Worklet

/-- The name for a base: the base if it is not taken, or else the base with the least number for
which that is not taken. -/
inductive IsNext (taken : String → Prop) (base : String) : String → Prop
  | base : ¬ taken base → IsNext taken base base
  | numbered (k : Nat) :
    taken base → 1 ≤ k → (∀ i, 1 ≤ i → i < k → taken (base ++ toString i)) →
    ¬ taken (base ++ toString k) → IsNext taken base (base ++ toString k)

theorem IsNext.not_taken {taken : String → Prop} {base name : String} (h : IsNext taken base name) :
    ¬ taken name := by
  cases h <;> assumption

theorem numberedName_injective (base : String) {i j : Nat}
    (h : base ++ toString i = base ++ toString j) : i = j := by
  have hdigits : (toString i).toList = (toString j).toList := by
    have hlist := congrArg String.toList h
    rw [String.toList_append, String.toList_append] at hlist
    exact List.append_cancel_left hlist
  have hvalue := congrArg (fun ds => Nat.ofDigitChars 10 ds 0) hdigits
  simpa [Nat.toString_eq_ofList_toDigits] using hvalue

theorem numberedName_ne (base : String) (i : Nat) : base ++ toString i ≠ base := by
  simp

/-- There are no more numbers in use than there are names beside the base. -/
theorem lt_length_of_numbered {names : List String} {base : String} {k : Nat}
    (hbase : base ∈ names) (h : ∀ i, 1 ≤ i → i ≤ k → base ++ toString i ∈ names) :
    k < names.dedup.length := by
  let used := base :: (List.range k).map fun i => base ++ toString (i + 1)
  have hnodup : used.Nodup := by
    refine List.nodup_cons.2 ⟨?_, List.Nodup.map ?_ List.nodup_range⟩
    · intro hmem
      obtain ⟨i, -, hi⟩ := List.mem_map.1 hmem
      exact numberedName_ne base _ hi
    · exact fun i j hij => Nat.succ.inj (numberedName_injective base hij)
  have hsub : used ⊆ names.dedup := by
    refine List.cons_subset.2 ⟨List.mem_dedup.2 hbase, fun name hname => ?_⟩
    obtain ⟨i, hi, rfl⟩ := List.mem_map.1 hname
    exact List.mem_dedup.2 (h (i + 1) (by omega) (List.mem_range.1 hi))
  have hlen : used.length ≤ names.dedup.length := (hnodup.subperm hsub).length_le
  rw [List.length_cons, List.length_map, List.length_range] at hlen
  exact hlen

namespace UsedNames

variable {u : UsedNames} {base : String}

/-- What the search for a number finds: all numbers before it are in use, and so is it only if it is
the last one. -/
theorem numbered_eq (u : UsedNames) (base : String) (fuel n : Nat) :
    ∃ k, n ≤ k ∧ u.numbered base fuel n = base ++ toString k ∧
      (∀ i, n ≤ i → i < k → base ++ toString i ∈ u.names) ∧
      (base ++ toString k ∈ u.names → k = n + fuel) := by
  induction fuel generalizing n with
  | zero => exact ⟨n, Nat.le_refl n, rfl, fun i hi hlt => by omega, fun _ => rfl⟩
  | succ fuel ih =>
    rw [numbered]
    split
    case isTrue hused =>
      obtain ⟨k, hk, hname, hbefore, hlast⟩ := ih (n + 1)
      refine ⟨k, by omega, hname, fun i hi hlt => ?_, fun hmem => by rw [hlast hmem]; omega⟩
      rcases Nat.eq_or_lt_of_le hi with rfl | hi
      · simpa [contains] using hused
      · exact hbefore i hi hlt
    case isFalse hfree =>
      refine ⟨n, Nat.le_refl n, rfl, fun i hi hlt => by omega, fun hmem => ?_⟩
      exact absurd hmem (by simpa [contains] using hfree)

/-- **The search for a free name finds the first one.** It ends, as there is one more number than there
are names. -/
theorem freshName_isNext (u : UsedNames) (base : String) :
    IsNext (· ∈ u.names) base (u.freshName base) := by
  unfold freshName
  split
  case isTrue hused =>
    have hbase : base ∈ u.names := by simpa [contains] using hused
    obtain ⟨k, hk, hname, hbefore, hlast⟩ := u.numbered_eq base u.names.length 1
    rw [hname]
    refine .numbered k hbase hk hbefore fun hmem => ?_
    have hlt : k < u.names.dedup.length := by
      refine lt_length_of_numbered hbase fun i hi hik => ?_
      rcases Nat.eq_or_lt_of_le hik with rfl | hik
      · exact hmem
      · exact hbefore i hi hik
    have hle := (List.dedup_sublist u.names).length_le
    have heq := hlast hmem
    omega
  case isFalse hfree => exact .base (by simpa [contains] using hfree)

theorem freshName_notMem (u : UsedNames) (base : String) : u.freshName base ∉ u.names :=
  (u.freshName_isNext base).not_taken

/-- The number of a fresh name is at most that of the names in use. -/
theorem le_length_of_freshName {k : Nat} (h : u.freshName base = base ++ toString k) :
    k ≤ u.names.dedup.length := by
  have hnext := u.freshName_isNext base
  rw [h] at hnext
  generalize hname : base ++ toString k = name at hnext
  cases hnext with
  | base => exact absurd hname (numberedName_ne base k)
  | numbered j hbase hj hbefore =>
    obtain rfl := numberedName_injective base hname
    have hlt := lt_length_of_numbered (k := k - 1) hbase fun i hi hik => hbefore i hi (by omega)
    omega

end UsedNames

/-! ### Runs -/

/-- A request to a supply of names. -/
inductive NameRequest where
  /-- To take a name into use. -/
  | insert (name : String)
  /-- To give out a name for a base. -/
  | fresh (base : String)

namespace UsedNames

/-- The names that are given out for requests one after the other, and those in use after them. -/
def serve (u : UsedNames) : List NameRequest → List String × UsedNames
  | [] => ([], u)
  | .insert name :: rs => (u.insert name).serve rs
  | .fresh base :: rs =>
    let rest := (u.fresh base).2.serve rs
    ((u.fresh base).1 :: rest.1, rest.2)

/-- The name was in use at the start, was taken into use or was given out. -/
def IsTaken (u : UsedNames) (rs : List NameRequest) (name : String) : Prop :=
  name ∈ u.names ∨ .insert name ∈ rs ∨ name ∈ (u.serve rs).1

variable {u : UsedNames} {rs : List NameRequest} {name : String}

theorem serve_append (u : UsedNames) (rs rs' : List NameRequest) :
    u.serve (rs ++ rs') =
      ((u.serve rs).1 ++ ((u.serve rs).2.serve rs').1, ((u.serve rs).2.serve rs').2) := by
  induction rs generalizing u with
  | nil => rfl
  | cons r rs ih => cases r <;> simp [serve, ih]

/-- The names in use after a run are those that were taken. -/
theorem mem_serve_iff : name ∈ (u.serve rs).2.names ↔ u.IsTaken rs name := by
  unfold IsTaken
  induction rs generalizing u with
  | nil => simp [serve]
  | cons r rs ih => cases r <;> simp [serve, ih, insert, fresh] <;> grind

theorem notMem_serve_of_mem (h : name ∈ u.names) : name ∉ (u.serve rs).1 := by
  induction rs generalizing u with
  | nil => simp [serve]
  | cons r rs ih =>
    cases r with
    | insert n => exact ih (List.mem_cons_of_mem n h)
    | fresh base =>
      rw [serve, List.mem_cons, not_or]
      refine ⟨?_, ih (List.mem_cons_of_mem _ h)⟩
      rintro rfl
      exact u.freshName_notMem base h

/-- **Fresh names are fresh over whole runs.** Whatever was requested before and is requested after, a
request for a base is answered with the base if that is not taken, or else with the base and the least
number for which that is not taken, a number no greater than that of the names in use. The answer was
not in use at the start, not taken into use before and not given out before, is not given out again, and
is in use from then on, as are just the names that were taken. -/
theorem serve_fresh (u : UsedNames) (before after : List NameRequest) (base : String) :
    ∃ name later, (u.serve (before ++ .fresh base :: after)).1 = (u.serve before).1 ++ name :: later ∧
      IsNext (u.IsTaken before) base name ∧
      (∀ k, name = base ++ toString k → k ≤ (u.serve before).2.names.dedup.length) ∧
      name ∉ u.names ∧ .insert name ∉ before ∧ name ∉ (u.serve before).1 ∧ name ∉ later ∧
      name ∈ (u.serve (before ++ .fresh base :: after)).2.names ∧
      ∀ n, n ∈ (u.serve (before ++ .fresh base :: after)).2.names ↔
        u.IsTaken (before ++ .fresh base :: after) n := by
  let v := (u.serve before).2
  let name := v.freshName base
  have hnext : IsNext (u.IsTaken before) base name := by
    have hiff : (· ∈ v.names) = u.IsTaken before := funext fun n => propext mem_serve_iff
    exact hiff ▸ v.freshName_isNext base
  obtain ⟨hstart, hinsert, hearlier⟩ : name ∉ u.names ∧ .insert name ∉ before ∧
      name ∉ (u.serve before).1 := by
    simpa only [IsTaken, not_or] using hnext.not_taken
  have hanswers : (u.serve (before ++ .fresh base :: after)).1 =
      (u.serve before).1 ++ name :: ((v.insert name).serve after).1 := by
    rw [serve_append]
    rfl
  refine ⟨name, _, hanswers, hnext, fun k => le_length_of_freshName, hstart, hinsert, hearlier,
    notMem_serve_of_mem List.mem_cons_self, mem_serve_iff.2 (.inr (.inr ?_)), fun n => mem_serve_iff⟩
  simp [hanswers]

end UsedNames

end Worklet
