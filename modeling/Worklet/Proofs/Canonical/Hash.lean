import Mathlib.Data.Nat.Bitwise
import Mathlib.Data.Nat.Find
import Mathlib.Data.Nat.ModEq
import Worklet.Hash
import Worklet.Number.Binary64

/-!
# What a hash tells apart

A step of a sum multiplies by an odd number and flips bits, so for every power of two it keeps whether two
sums agree modulo it. Two texts that differ in one unit therefore have sums that agree modulo the same powers
of two as the two units, whatever the seed. The lowest bit in which the units differ is the lowest one in
which the second sums differ, and the first sums, which are shifted up, cannot make up for it.

* `Binary64.toNat?_ofNat` — whole numbers below `2 ^ 53` are numbers of the language.

Principal result: `workletHash_separates` — a hash is a whole number below `2 ^ 53`, and texts that differ
in one unit have different hashes.
-/

set_option autoImplicit false

namespace Worklet

/-! ### Sums modulo powers of two -/

theorem modEq_of_mod_word {a j : Nat} (hj : j ≤ 32) : a % 2 ^ 32 ≡ a [MOD 2 ^ j] :=
  (Nat.mod_modEq a (2 ^ 32)).of_dvd (Nat.pow_dvd_pow 2 hj)

theorem xor_modEq_iff (a b c j : Nat) : a ^^^ c ≡ b ^^^ c [MOD 2 ^ j] ↔ a ≡ b [MOD 2 ^ j] := by
  unfold Nat.ModEq
  rw [Nat.xor_mod_two_pow, Nat.xor_mod_two_pow]
  exact ⟨fun h => Nat.xor_left_injective h, fun h => by rw [h]⟩

theorem mul_odd_modEq_iff (a b j : Nat) : a * 33 ≡ b * 33 [MOD 2 ^ j] ↔ a ≡ b [MOD 2 ^ j] := by
  have hcoprime : (2 ^ j).gcd 33 = 1 := Nat.Coprime.pow_left j (by decide)
  exact ⟨Nat.ModEq.cancel_right_of_coprime hcoprime, fun h => h.mul_right 33⟩

/-- A step keeps whether two sums agree modulo a power of two. -/
theorem hashStep_modEq_iff {h h' : UInt32} {unit : UInt16} {j : Nat} (hj : j ≤ 32) :
    (hashStep h unit).toNat ≡ (hashStep h' unit).toNat [MOD 2 ^ j] ↔ h.toNat ≡ h'.toNat [MOD 2 ^ j] := by
  simp only [hashStep, UInt32.toNat_xor, UInt32.toNat_mul]
  rw [xor_modEq_iff, ← mul_odd_modEq_iff h.toNat]
  constructor
  · exact fun hs => (modEq_of_mod_word hj).symm.trans (hs.trans (modEq_of_mod_word hj))
  · exact fun hs => (modEq_of_mod_word hj).trans (hs.trans (modEq_of_mod_word hj).symm)

/-- Steps from one sum agree modulo a power of two as the units do. -/
theorem hashStep_unit_modEq_iff (h : UInt32) (u v : UInt16) (j : Nat) :
    (hashStep h u).toNat ≡ (hashStep h v).toNat [MOD 2 ^ j] ↔ u.toNat ≡ v.toNat [MOD 2 ^ j] := by
  simp only [hashStep, UInt32.toNat_xor, UInt16.toNat_toUInt32]
  rw [Nat.xor_comm _ u.toNat, Nat.xor_comm _ v.toNat, xor_modEq_iff]

/-- The sums of texts that differ in one unit agree modulo a power of two as the units do. -/
theorem hashUnits_modEq_iff (seed : UInt32) (pre post : List UInt16) (u v : UInt16) {j : Nat}
    (hj : j ≤ 32) :
    (hashUnits seed (pre ++ u :: post)).toNat ≡ (hashUnits seed (pre ++ v :: post)).toNat [MOD 2 ^ j] ↔
      u.toNat ≡ v.toNat [MOD 2 ^ j] := by
  induction pre with
  | nil => exact hashStep_unit_modEq_iff (hashUnits seed post) u v j
  | cons unit pre ih => exact (hashStep_modEq_iff hj).trans ih

/-! ### Packed sums -/

/-- Two sums side by side, with some overlap. -/
def pack (first second : UInt32) : Nat :=
  first.toNat * 4096 + second.toNat

theorem workletHash_eq (text : String) :
    workletHash text = pack (hashUnits 5381 (Text.units text)) (hashUnits 52711 (Text.units text)) :=
  rfl

/-- Different units agree below some bit and not up to it. -/
theorem exists_parting_bit {u v : UInt16} (h : u ≠ v) :
    ∃ k < 16, u.toNat ≡ v.toNat [MOD 2 ^ k] ∧ ¬u.toNat ≡ v.toNat [MOD 2 ^ (k + 1)] := by
  have hword : ¬u.toNat ≡ v.toNat [MOD 2 ^ 16] := fun heq =>
    h (UInt16.toNat_inj.1 (Nat.ModEq.eq_of_lt_of_lt heq u.toNat_lt v.toNat_lt))
  have hex : ∃ j, ¬u.toNat ≡ v.toNat [MOD 2 ^ j] := ⟨16, hword⟩
  have hzero : Nat.find hex ≠ 0 := by
    intro h0
    have := Nat.find_spec hex
    rw [h0, pow_zero] at this
    exact this (Nat.modEq_one)
  obtain ⟨k, hk⟩ := Nat.exists_eq_succ_of_ne_zero hzero
  refine ⟨k, ?_, ?_, ?_⟩
  · have := Nat.find_min' hex hword
    omega
  · exact not_not.1 (Nat.find_min hex (by omega))
  · have := Nat.find_spec hex
    rwa [hk] at this

/-- If the sums part at the same bit, the packed sums are different: the first sums are shifted up past
it. -/
theorem pack_ne {a a' b b' : UInt32} {k : Nat} (ha : a.toNat ≡ a'.toNat [MOD 2 ^ k])
    (hb : ¬b.toNat ≡ b'.toNat [MOD 2 ^ (k + 1)]) : pack a b ≠ pack a' b' := by
  intro heq
  have hshifted : a.toNat * 4096 ≡ a'.toNat * 4096 [MOD 2 ^ (k + 1)] := by
    have hfull : a.toNat * 4096 ≡ a'.toNat * 4096 [MOD 2 ^ k * 4096] := Nat.ModEq.mul_right' 4096 ha
    refine hfull.of_dvd ?_
    rw [pow_succ]
    exact Nat.mul_dvd_mul_left _ (by decide)
  have htotal : a.toNat * 4096 + b.toNat ≡ a'.toNat * 4096 + b'.toNat [MOD 2 ^ (k + 1)] := by
    simp only [pack] at heq
    rw [heq]
  exact hb (Nat.ModEq.add_left_cancel hshifted htotal)

/-- Texts of which one has another unit at one place have different hashes. -/
theorem pack_hashUnits_ne {u v : UInt16} (h : u ≠ v) (pre post : List UInt16) (seed seed' : UInt32) :
    pack (hashUnits seed (pre ++ u :: post)) (hashUnits seed' (pre ++ u :: post)) ≠
      pack (hashUnits seed (pre ++ v :: post)) (hashUnits seed' (pre ++ v :: post)) := by
  obtain ⟨k, hk, hagree, hpart⟩ := exists_parting_bit h
  refine pack_ne (k := k) ?_ ?_
  · exact (hashUnits_modEq_iff seed pre post u v (by omega)).2 hagree
  · exact fun hs => hpart ((hashUnits_modEq_iff seed' pre post u v (by omega)).1 hs)

/-- One unit of two lists of the same length is different: the lists have the same units before and after
it. -/
theorem split_at_difference {α : Type} {xs ys : List α} (hlength : xs.length = ys.length)
    (hone : ∃! i : Nat, xs[i]? ≠ ys[i]?) :
    ∃ pre x y post, xs = pre ++ x :: post ∧ ys = pre ++ y :: post ∧ x ≠ y := by
  obtain ⟨i, hi, huniq⟩ := hone
  have hsame : ∀ j, j ≠ i → xs[j]? = ys[j]? := fun j hj => not_not.1 fun h => hj (huniq j h)
  have hlt : i < xs.length := by
    by_contra hge
    exact hi (by rw [List.getElem?_eq_none (by omega), List.getElem?_eq_none (by omega)])
  have hlt' : i < ys.length := by omega
  refine ⟨xs.take i, xs[i], ys[i], xs.drop (i + 1), ?_, ?_, ?_⟩
  · rw [List.getElem_cons_drop, List.take_append_drop]
  · have htake : xs.take i = ys.take i := by
      refine List.ext_getElem? fun j => ?_
      rw [List.getElem?_take, List.getElem?_take]
      split
      · exact hsame j (by omega)
      · rfl
    have hdrop : xs.drop (i + 1) = ys.drop (i + 1) := by
      refine List.ext_getElem? fun j => ?_
      rw [List.getElem?_drop, List.getElem?_drop]
      exact hsame _ (by omega)
    rw [htake, hdrop, List.getElem_cons_drop, List.take_append_drop]
  · intro heq
    exact hi (by rw [List.getElem?_eq_getElem hlt, List.getElem?_eq_getElem hlt', heq])

theorem pack_le (a b : UInt32) : pack a b ≤ (2 ^ 32 - 1) * 4097 := by
  have ha := a.toNat_lt
  have hb := b.toNat_lt
  unfold pack
  omega

/-- The sums packed in words of 64 bits. -/
def packWord (first second : UInt32) : UInt64 :=
  first.toUInt64 * 4096 + second.toUInt64

theorem toNat_packWord (a b : UInt32) : (packWord a b).toNat = pack a b := by
  have ha := a.toNat_lt
  have hb := b.toNat_lt
  have h4096 : UInt64.toNat 4096 = 4096 := rfl
  unfold packWord pack
  rw [UInt64.toNat_add, UInt64.toNat_mul, UInt32.toNat_toUInt64, UInt32.toNat_toUInt64, h4096]
  omega

/-! ### Hashes as numbers of the language -/

namespace Binary64

theorem roundDiv_one (n : Nat) : roundDiv n 1 = n := by
  simp [roundDiv, Nat.mod_one]

theorem toNat?_zero : zero.toNat? = some 0 := by
  have hratio : ratio 0 minExponent = (0, Nat.pow 2 (-minExponent).toNat) := if_neg (by decide)
  rw [zero, toNat?, hratio]
  simp only [Nat.zero_mod, Nat.zero_div, beq_self_eq_true, if_true]

/-- A mantissa that has the power of two of its exponent as a factor. -/
theorem toNat?_finite (n e : Nat) : (finite (n * Nat.pow 2 e) (-(e : Int))).toNat? = some n := by
  rcases Nat.eq_zero_or_pos e with rfl | he
  · simp [toNat?, ratio, Nat.mod_one]
  · have hpos : 0 < Nat.pow 2 e := Nat.two_pow_pos e
    have hratio : ratio (n * Nat.pow 2 e) (-(e : Int)) = (n * Nat.pow 2 e, Nat.pow 2 e) := by
      rw [ratio, if_neg (by omega), neg_neg, Int.toNat_natCast]
    rw [toNat?, hratio]
    simp only [Nat.mul_mod_left, Nat.mul_div_cancel n hpos, beq_self_eq_true, if_true]

/-- Dividing by a power of two that is no whole number multiplies. -/
theorem scale_one_neg (n e : Nat) : scale n 1 (-(e : Int)) = (n * Nat.pow 2 e, 1) := by
  rcases Nat.eq_zero_or_pos e with rfl | he
  · rw [scale, if_pos (by omega)]
    exact congrArg (·, 1) (Nat.mul_one n).symm
  · rw [scale, if_neg (by omega), neg_neg, Int.toNat_natCast]

/-- A positive whole number below `2 ^ 53` is its own nearest number, with a mantissa of 53 bits. -/
theorem ofNat_eq_finite {n : Nat} (hpos : n ≠ 0) (h : n < 2 ^ 53) :
    ofNat n = finite (n * Nat.pow 2 (52 - n.log2)) (-((52 - n.log2 : Nat) : Int)) := by
  have hlog : n.log2 < 53 := (Nat.log2_lt hpos).2 h
  have hlow : Nat.pow 2 n.log2 ≤ n := Nat.log2_self_le hpos
  have hhigh : n < 2 ^ (n.log2 + 1) := Nat.lt_log2_self
  have hmantissa : n * Nat.pow 2 (52 - n.log2) < Nat.pow 2 53 := by
    calc n * Nat.pow 2 (52 - n.log2)
        < 2 ^ (n.log2 + 1) * 2 ^ (52 - n.log2) :=
          Nat.mul_lt_mul_of_pos_right hhigh (Nat.two_pow_pos _)
      _ = 2 ^ 53 := by rw [← Nat.pow_add]; congr 1; omega
  have hscale : scale n 1 (n.log2 : Int) = (n, Nat.pow 2 n.log2) := by
    rw [scale, if_pos (by omega), Nat.one_mul, Int.toNat_natCast]
  have hexponent : max ((n.log2 : Int) - 52) minExponent = -((52 - n.log2 : Nat) : Int) := by
    unfold minExponent
    omega
  have hone : Nat.log2 1 = 0 := rfl
  have hzero : (n == 0) = false := beq_false_of_ne hpos
  have hfull : (n * Nat.pow 2 (52 - n.log2) == Nat.pow 2 53) = false := beq_false_of_ne hmantissa.ne
  have hsmall : ¬-((52 - n.log2 : Nat) : Int) > 971 := by omega
  simp only [ofNat, ofRatio, hone, hzero, Int.ofNat_zero, sub_zero, hscale, Nat.not_lt.2 hlow,
    if_false, hexponent, scale_one_neg, roundDiv_one, hfull, hsmall, Bool.false_eq_true]

theorem toNat?_ofNat {n : Nat} (h : n < 2 ^ 53) : (ofNat n).toNat? = some n := by
  rcases eq_or_ne n 0 with rfl | hpos
  · exact toNat?_zero
  · rw [ofNat_eq_finite hpos h, toNat?_finite]

end Binary64

/-! ### The hash -/

/-- **Hashes are exact and tell edits of one unit apart.** A hash fits a word of 64 bits and is a number of
the language, and a text of the same length that has another unit at exactly one place has another hash. -/
theorem workletHash_separates (text : String) :
    workletHash text ≤ (2 ^ 32 - 1) * 4097 ∧ (2 ^ 32 - 1) * 4097 < 2 ^ 53 ∧
      (packWord (hashUnits 5381 (Text.units text)) (hashUnits 52711 (Text.units text))).toNat =
        workletHash text ∧
      (Binary64.ofNat (workletHash text)).toNat? = some (workletHash text) ∧
      ∀ other : String, (Text.units other).length = (Text.units text).length →
        (∃! i : Nat, (Text.units other)[i]? ≠ (Text.units text)[i]?) →
        workletHash other ≠ workletHash text := by
  have hle : workletHash text ≤ (2 ^ 32 - 1) * 4097 := pack_le _ _
  have hbound : (2 ^ 32 - 1) * 4097 < 2 ^ 53 := by decide
  refine ⟨hle, hbound, toNat_packWord _ _, Binary64.toNat?_ofNat (hle.trans_lt hbound), ?_⟩
  intro other hlength hone
  obtain ⟨pre, u, v, post, hother, htext, hne⟩ := split_at_difference hlength hone
  rw [workletHash_eq, workletHash_eq, hother, htext]
  exact pack_hashUnits_ne hne pre post 5381 52711

/-- `é` for `e`. -/
theorem workletHash_separates_accent :
    Text.units "réturn" = [114, 233, 116, 117, 114, 110] ∧
      workletHash "réturn" ≠ workletHash "return" := by
  have hunits : Text.units "réturn" = [114, 233, 116, 117, 114, 110] := by decide
  have hplain : Text.units "return" = [114, 101, 116, 117, 114, 110] := by decide
  refine ⟨hunits, (workletHash_separates "return").2.2.2.2 "réturn" ?_ ⟨1, ?_, ?_⟩⟩
  · rw [hunits, hplain]
    rfl
  · rw [hunits, hplain]
    decide
  · intro j hj
    rw [hunits, hplain] at hj
    rcases j with _ | _ | j
    · exact absurd rfl hj
    · rfl
    · exact absurd rfl hj

end Worklet
