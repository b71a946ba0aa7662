import Mathlib.Data.List.TakeDrop
import Mathlib.Data.List.TakeWhile
import Worklet.Expectation

/-!
# Lists of expectations

Each line of a list is read on its own, and a list that was written is read back, however its lines
are indented and whatever remarks stand between them.

* `Expectation.text`, `Expectation.IsWritable` — a statement as it is written, and those that can be.
* `Expectation.Laid` — lines with statements, between blank lines and remarks.

Principal results: `readLine_text` — a statement that was written is read back; `readLines_cases` —
lines are read one by one; `readAll_laid_and_lines` — both for whole texts.
-/

set_option autoImplicit false

namespace Worklet

/-! ### Texts without blanks at their ends -/

namespace Text

/-- The text has blanks only. -/
def IsBlankText (s : String) : Prop :=
  ∀ c ∈ s.toList, isBlank c = true

/-- The text has no blanks at its ends. -/
def IsSnug (s : String) : Prop :=
  s.toList.head?.any isBlank = false ∧ s.toList.getLast?.any isBlank = false

theorem isBlankText_empty : IsBlankText "" := by
  simp [IsBlankText]

variable {s t : String}

theorem isBlankText_of_all (h : s.toList.all isBlank = true) : IsBlankText s :=
  List.all_eq_true.1 h

theorem isBlankText_space : IsBlankText " " :=
  isBlankText_of_all (by decide)

theorem dropWhile_isBlank {cs : List Char} (h : cs.head?.any isBlank = false) :
    cs.dropWhile isBlank = cs := by
  cases cs with
  | nil => rfl
  | cons c cs => exact List.dropWhile_cons_of_neg (by simpa using h)

theorem trimStart_of_head (h : s.toList.head?.any isBlank = false) : trimStart s = s := by
  rw [trimStart, dropWhile_isBlank h, String.ofList_toList]

theorem trim_snug (h : IsSnug s) : trim s = s := by
  rw [trim, trimStart_of_head h.1, trimEnd, dropWhile_isBlank (by simpa using h.2),
    List.reverse_reverse, String.ofList_toList]

/-- What follows a character that is not blank is trimmed alone. -/
theorem trimEnd_append (hs : s.toList.getLast?.any isBlank = false) :
    trimEnd (s ++ t) = s ++ trimEnd t := by
  have hlast : s.toList.reverse.dropWhile isBlank = s.toList.reverse :=
    dropWhile_isBlank (by simpa using hs)
  rw [trimEnd, trimEnd, String.toList_append, List.reverse_append, List.dropWhile_append, hlast]
  split
  · rename_i hempty
    simp [List.isEmpty_iff.1 hempty]
  · simp

/-- Blanks around a text do not matter when it is trimmed. -/
theorem trim_append {indent rest : String} (hindent : IsBlankText indent) (hrest : IsBlankText rest) :
    trim (indent ++ s ++ rest) = trim s := by
  have hend (t : String) : trimEnd (t ++ rest) = trimEnd t := by
    rw [trimEnd, String.toList_append, List.reverse_append,
      List.dropWhile_append_of_pos fun c hc => hrest c (List.mem_reverse.1 hc), ← trimEnd]
  have hstart : trimStart (indent ++ s ++ rest) = trimStart s ++ rest ∨
      trimStart (indent ++ s ++ rest) = trimStart s := by
    rw [trimStart, String.toList_append, String.toList_append, List.append_assoc,
      List.dropWhile_append_of_pos hindent, List.dropWhile_append]
    split
    · rename_i hempty
      right
      rw [trimStart, List.isEmpty_iff.1 hempty, List.dropWhile_eq_nil_iff.2 hrest]
    · left
      rw [String.ofList_append, String.ofList_toList, trimStart]
  rw [trim, trim]
  rcases hstart with h | h
  · rw [h, hend]
  · rw [h]

theorem trim_trimEnd (s : String) : trim (trimEnd s) = trim s := by
  let rest := String.ofList (s.toList.reverse.takeWhile isBlank).reverse
  have hrest : IsBlankText rest := by
    intro c hc
    exact List.mem_takeWhile_imp (List.mem_reverse.1 (by simpa [rest] using hc))
  have hs : "" ++ trimEnd s ++ rest = s := by
    rw [String.empty_append, trimEnd, ← String.ofList_append, ← List.reverse_append,
      List.takeWhile_append_dropWhile, List.reverse_reverse, String.ofList_toList]
  rw [← trim_append isBlankText_empty hrest, hs]

/-- A text is divided at the first such character. -/
theorem splitFirst?_append {c : Char} {before after : String} (h : c ∉ before.toList) :
    splitFirst? c (before ++ String.singleton c ++ after) = some (before, after) := by
  have hbefore : ∀ d ∈ before.toList, (d != c) = true := by
    intro d hd
    simp only [bne_iff_ne, ne_eq]
    rintro rfl
    exact h hd
  have hspan : (before ++ String.singleton c ++ after).toList.span (· != c) =
      (before.toList, c :: after.toList) := by
    rw [List.span_eq_takeWhile_dropWhile]
    simp [List.takeWhile_append_of_pos hbefore, List.dropWhile_append_of_pos hbefore]
  rw [splitFirst?, hspan]
  simp

/-- Lines that are put together are found again. -/
theorem lines_intercalate {ls : List String} (hne : ls ≠ []) (h : ∀ l ∈ ls, '\n' ∉ l.toList) :
    lines ("\n".intercalate ls) = ls := by
  have hchars : ("\n".intercalate ls).toList = ['\n'].intercalate (ls.map String.toList) := by
    simp [String.toList_intercalate]
  rw [lines, hchars, List.splitOn_intercalate '\n' (by simpa using h) (by simpa using hne)]
  simp [Function.comp_def]

theorem lines_of_mem_lines (h : t ∈ lines s) : lines t = [t] := by
  have hsplit (cs : List Char) : ∀ ds ∈ cs.splitOn '\n', '\n' ∉ ds := by
    induction cs with
    | nil => simp
    | cons c cs ih =>
      rw [List.splitOn_cons_eq_if_modifyHead]
      cases hrest : cs.splitOn '\n' with
      | nil => simp
      | cons ds dss => grind [List.modifyHead_cons]
  obtain ⟨ds, hds, rfl⟩ := List.mem_map.1 h
  simp [lines, List.splitOn_eq_singleton (hsplit _ ds hds)]

end Text

/-! ### Counts -/

theorem le_ofDigitChars (ds : List Char) (m : Nat) : m ≤ Nat.ofDigitChars 10 ds m := by
  induction ds generalizing m with
  | nil => exact Nat.le_refl m
  | cons c cs ih =>
    have hrest := ih (10 * m + (c.toNat - '0'.toNat))
    rw [Nat.ofDigitChars_cons]
    omega

/-- Digits whose value is a count are read as their value. -/
theorem countDigits_eq {ds : List Char} {m : Nat} (hdigits : ∀ c ∈ ds, c.isDigit = true)
    (hbound : Nat.ofDigitChars 10 ds m < countBound) :
    countDigits m ds = .ok (Nat.ofDigitChars 10 ds m) := by
  induction ds generalizing m with
  | nil => rfl
  | cons c cs ih =>
    obtain ⟨hc, hcs⟩ := List.forall_mem_cons.1 hdigits
    have hle := le_ofDigitChars cs (10 * m + (c.toNat - '0'.toNat))
    rw [Nat.ofDigitChars_cons] at hbound ⊢
    rw [countDigits, if_neg (by simp [hc])]
    simp only [if_pos (Nat.lt_of_le_of_lt hle hbound)]
    exact ih hcs hbound

theorem isDigit_of_mem_toString {n : Nat} {c : Char} (h : c ∈ (toString n).toList) :
    c.isDigit = true := by
  rw [Nat.toString_eq_ofList_toDigits, String.toList_ofList] at h
  exact Nat.isDigit_of_mem_toDigits (by decide) (by decide) h

theorem notMem_toString (n : Nat) {c : Char} (h : c.isDigit = false) : c ∉ (toString n).toList :=
  fun hmem => by simp [isDigit_of_mem_toString hmem] at h

/-- A count that was written is read back. -/
theorem readCount_toString {n : Nat} (h : n < countBound) : readCount (toString n) = .ok n := by
  have hvalue : Nat.ofDigitChars 10 (toString n).toList 0 = n := by simp
  have hread : countDigits 0 (toString n).toList = .ok n := by
    rw [countDigits_eq (fun c => isDigit_of_mem_toString) (hvalue.symm ▸ h), hvalue]
  have hne : (toString n).toList ≠ [] := by simp
  have hplus (cs : List Char) : (toString n).toList ≠ '+' :: cs :=
    fun heq => notMem_toString n (by decide) (heq ▸ List.mem_cons_self)
  unfold readCount
  split <;> simp_all

namespace Expectation

open Text

/-! ### Lines -/

/-- A key and its value on a line. -/
def keyed (key value : String) : String :=
  key ++ ":" ++ (" " ++ value)

/-- The statement as it is written. -/
def text : Expectation → String
  | .contains t => keyed "contains" t
  | .notContains t => keyed "not-contains" t
  | .count n t => keyed "count" (toString n ++ " " ++ t)
  | .worklets n => keyed "worklets" (toString n)
  | .diagnostics n => keyed "diagnostics" (toString n)
  | .unchanged => "unchanged"

/-- The statement can be written on a line, if its text has no line feed. -/
def IsWritable : Expectation → Prop
  | .contains t => IsSnug t
  | .notContains t => IsSnug t
  | .count n t => n < countBound ∧ IsSnug t ∧ t ≠ ""
  | .worklets n => n < countBound
  | .diagnostics n => n < countBound
  | .unchanged => True

theorem isBlank_of_isDigit {c : Char} (h : c.isDigit = true) : isBlank c = false := by
  obtain ⟨hlow, hhigh⟩ : 48 ≤ c.toNat ∧ c.toNat ≤ 57 := Char.isDigit_iff_toNat.1 h
  simp only [isBlank, Bool.or_eq_false_iff, Bool.and_eq_false_iff, decide_eq_false_iff_not,
    beq_eq_false_iff_ne]
  omega

theorem isSnug_of_forall {s : String} (h : ∀ c ∈ s.toList, isBlank c = false) : IsSnug s := by
  constructor
  · cases hc : s.toList.head? with
    | none => rfl
    | some c => exact h c (List.mem_of_mem_head? hc)
  · cases hc : s.toList.getLast? with
    | none => rfl
    | some c => exact h c (List.mem_of_mem_getLast? hc)

theorem isSnug_toString (n : Nat) : IsSnug (toString n) :=
  isSnug_of_forall fun _ hc => isBlank_of_isDigit (isDigit_of_mem_toString hc)

theorem isSnug_append {a b : String} (m : String) (ha : IsSnug a) (hb : IsSnug b)
    (hane : a ≠ "") (hbne : b ≠ "") : IsSnug (a ++ m ++ b) := by
  obtain ⟨c, cs, hcs⟩ := List.exists_cons_of_ne_nil (mt String.toList_eq_nil_iff.1 hane)
  obtain ⟨ds, d, hds⟩ :=
    (List.eq_nil_or_concat b.toList).resolve_left (mt String.toList_eq_nil_iff.1 hbne)
  constructor
  · simpa [hcs] using ha.1
  · simpa [hds] using hb.2

/-- A key stays in front of what is left of the value. -/
theorem trim_keyed {key : String} (value : String) (hkey : IsSnug key) (hne : key ≠ "") :
    trim (keyed key value) = key ++ ":" ++ trimEnd (" " ++ value) := by
  obtain ⟨c, cs, hcs⟩ := List.exists_cons_of_ne_nil (mt String.toList_eq_nil_iff.1 hne)
  have hhead : (keyed key value).toList.head?.any isBlank = false := by
    have hc := hkey.1
    simpa [keyed, hcs] using hc
  rw [trim, trimStart_of_head hhead, keyed, trimEnd_append (by simp; decide)]

/-- What a key says with a value. -/
def readValue (key value : String) : Except ExpectationFault Expectation :=
  match key with
  | "contains" => .ok (.contains value)
  | "not-contains" => .ok (.notContains value)
  | "count" => readCounted value
  | "worklets" => (readCount value).map .worklets |>.mapError .badWorklets
  | "diagnostics" => (readCount value).map .diagnostics |>.mapError .badDiagnostics
  | key => .error (.unknownKey key)

/-- A key and its value are found again. -/
theorem readLine_keyed (key : String) {value : String} (hvalue : IsSnug value)
    (hkey : key.toList.all (fun c => c != ':' && !isBlank c) = true := by decide)
    (hne : key ≠ "" := by decide) :
    readLine (trim (keyed key value)) = readValue key value := by
  have hkey : ∀ c ∈ key.toList, c ≠ ':' ∧ isBlank c = false := by simpa using hkey
  have hsnug : IsSnug key := isSnug_of_forall fun c hc => (hkey c hc).2
  have hcolon : ':' ∉ key.toList := fun hmem => (hkey ':' hmem).1 rfl
  have hsplit : splitFirst? ':' (trim (keyed key value)) = some (key, trimEnd (" " ++ value)) := by
    rw [trim_keyed value hsnug hne]
    exact splitFirst?_append hcolon
  have hvalue' : trim (trimEnd (" " ++ value)) = value := by
    have hspace := trim_append (s := value) isBlankText_space isBlankText_empty
    rw [String.append_empty, trim_snug hvalue] at hspace
    rw [trim_trimEnd, hspace]
  have hnone : splitFirst? ':' "unchanged" = none := by decide
  have hne : (trim (keyed key value) == "unchanged") = false := by
    rw [beq_eq_false_iff_ne]
    intro heq
    cases hnone.symm.trans (heq ▸ hsplit)
  simp only [readLine, hne, hsplit, hvalue', trim_snug hsnug]
  rfl

/-- **A statement that was written is read back.** -/
theorem readLine_text {e : Expectation} (h : e.IsWritable) : readLine (trim e.text) = .ok e := by
  cases e with
  | contains t => exact readLine_keyed "contains" h
  | notContains t => exact readLine_keyed "not-contains" h
  | count n t =>
    obtain ⟨hn, ht, hne⟩ := h
    have hsplit : splitFirst? ' ' (toString n ++ " " ++ t) = some (toString n, t) :=
      splitFirst?_append (notMem_toString n (by decide))
    rw [text, readLine_keyed "count" (isSnug_append _ (isSnug_toString n) ht (by simp) hne)]
    simp only [readValue, readCounted, hsplit, readCount_toString hn, trim_snug ht]
  | worklets n =>
    rw [text, readLine_keyed "worklets" (isSnug_toString n), readValue, readCount_toString h]
    rfl
  | diagnostics n =>
    rw [text, readLine_keyed "diagnostics" (isSnug_toString n), readValue, readCount_toString h]
    rfl
  | unchanged => rfl

theorem isSkipped_eq (line : String) : isSkipped line = line.toList.head?.all (· == '#') := by
  rw [isSkipped, String.front_eq, String.front?_eq]
  cases hcs : line.toList with
  | nil => simp [String.toList_eq_nil_iff.1 hcs]
  | cons c cs =>
    have hne : line ≠ "" := by
      rintro rfl
      cases hcs
    simp [hne]

/-- A text that does not begin with a blank begins as before when it is trimmed. -/
theorem isSkipped_trim {s : String} {c : Char} (hc : s.toList.head? = some c)
    (hblank : isBlank c = false) : isSkipped (trim s) = (c == '#') := by
  obtain ⟨cs, hcs⟩ := List.head?_eq_some_iff.1 hc
  have hs : s = String.singleton c ++ String.ofList cs := by
    rw [← String.toList_inj]
    simp [hcs]
  rw [trim, trimStart_of_head (by simp [hc, hblank]), hs, trimEnd_append (by simp [hblank]), isSkipped_eq]
  simp

theorem isSkipped_text (e : Expectation) : isSkipped (trim e.text) = false := by
  obtain ⟨c, hc, hblank, hhash⟩ : ∃ c, e.text.toList.head? = some c ∧ isBlank c = false ∧
      (c == '#') = false := by
    cases e with
    | contains | count => exact ⟨'c', by simp [text, keyed], by decide, rfl⟩
    | notContains => exact ⟨'n', by simp [text, keyed], by decide, rfl⟩
    | worklets => exact ⟨'w', by simp [text, keyed], by decide, rfl⟩
    | diagnostics => exact ⟨'d', by simp [text, keyed], by decide, rfl⟩
    | unchanged => exact ⟨'u', by simp [text], by decide, rfl⟩
  rw [isSkipped_trim hc hblank, hhash]

/-! ### Lists -/

/-- Lines on which statements are written, with blank lines and remarks between them. -/
inductive Laid : List Expectation → List String → Prop
  | nil : Laid [] []
  | blank {es ls line} : IsBlankText line → Laid es ls → Laid es (line :: ls)
  | remark {es ls} (indent remark : String) :
    IsBlankText indent → Laid es ls → Laid es ((indent ++ "#" ++ remark) :: ls)
  | statement {e es ls} (indent rest : String) :
    e.IsWritable → IsBlankText indent → IsBlankText rest → Laid es ls →
    Laid (e :: es) ((indent ++ e.text ++ rest) :: ls)

variable {es : List Expectation} {ls : List String}

theorem readLines_laid (h : Laid es ls) (number : Nat) : readLines number ls = .ok es := by
  induction h generalizing number with
  | nil => rfl
  | blank hline _ ih =>
    have htrim := trim_append (s := "") hline isBlankText_empty
    rw [String.append_empty, String.append_empty] at htrim
    rw [readLines, htrim]
    exact ih (number + 1)
  | remark indent remark hindent _ ih =>
    have htrim := trim_append (s := "#" ++ remark) hindent isBlankText_empty
    rw [String.append_empty, ← String.append_assoc] at htrim
    have hskip : isSkipped (trim ("#" ++ remark)) = true :=
      isSkipped_trim (c := '#') (by simp) (by decide)
    simp only [readLines, htrim, hskip, if_true]
    exact ih (number + 1)
  | statement indent rest he hindent hrest _ ih =>
    simp only [readLines, trim_append hindent hrest, isSkipped_text, readLine_text he, ih (number + 1)]
    rfl

/-- A line alone is read or not, and its number shows in complaints only. -/
theorem readLines_single (l : String) :
    (∃ r, ∀ number ls, readLines number [l] = .ok r ∧
      readLines number (l :: ls) = (readLines (number + 1) ls).map (r ++ ·)) ∨
    ∃ fault, ∀ number ls, readLines number (l :: ls) = .error ⟨number, fault⟩ := by
  simp only [readLines]
  split
  · exact .inl ⟨[], fun number ls => ⟨rfl, by cases readLines (number + 1) ls <;> rfl⟩⟩
  · split
    · exact .inr ⟨_, fun _ _ => rfl⟩
    · exact .inl ⟨_, fun number ls => ⟨rfl, rfl⟩⟩

/-- Lines are read one by one. Either each is read, and what is read is what they give one after the
other, or the complaint is about the first that is not. -/
theorem readLines_cases (ls : List String) (number : Nat) :
    (∃ rs : List (List Expectation), ls.map (readLines 1 [·]) = rs.map .ok ∧
      readLines number ls = .ok rs.flatten) ∨
    ∃ before l after fault, ls = before ++ l :: after ∧ (∀ b ∈ before, ∃ r, readLines 1 [b] = .ok r) ∧
      readLines 1 [l] = .error ⟨1, fault⟩ ∧
      readLines number ls = .error ⟨number + before.length, fault⟩ := by
  induction ls generalizing number with
  | nil => exact .inl ⟨[], rfl, rfl⟩
  | cons l ls ih =>
    rcases readLines_single l with ⟨r, hl⟩ | ⟨fault, hl⟩
    · rw [(hl number ls).2]
      rcases ih (number + 1) with ⟨rs, hrs, hread⟩ | ⟨before, l', after, fault, rfl, hbefore, hl', hread⟩
      · refine .inl ⟨r :: rs, ?_, by rw [hread]; rfl⟩
        rw [List.map_cons, List.map_cons, (hl 1 []).1, hrs]
      · refine .inr ⟨l :: before, l', after, fault, rfl, ?_, hl', ?_⟩
        · exact List.forall_mem_cons.2 ⟨⟨r, (hl 1 []).1⟩, hbefore⟩
        · rw [hread, List.length_cons, Nat.add_right_comm, Nat.add_assoc]
          rfl
    · exact .inr ⟨[], l, ls, fault, rfl, by simp, hl 1 [], hl number ls⟩

/-- **A list of statements that was written is read back, and each line is read on its own.** What
stands around the statements does not matter: blank lines, remarks, indentation and blanks at the ends
of lines. Any text is read if and only if each of its lines is, alone; then what is read is what the
lines give one after the other, and otherwise the complaint names the first line that is not read,
counted from one. -/
theorem readAll_laid_and_lines :
    (∀ es ls, Laid es ls → (∀ l ∈ ls, '\n' ∉ l.toList) →
      readAll ("\n".intercalate ls) = .ok es) ∧
    ∀ s, ((∃ es, readAll s = .ok es) ↔ ∀ l ∈ lines s, ∃ r, readAll l = .ok r) ∧
      ((∃ rs : List (List Expectation), (lines s).map readAll = rs.map .ok ∧
          readAll s = .ok rs.flatten) ∨
        ∃ before l after e, lines s = before ++ l :: after ∧ (∀ b ∈ before, ∃ r, readAll b = .ok r) ∧
          readAll l = .error ⟨1, e.fault⟩ ∧ readAll s = .error e ∧
          e.message = "line " ++ toString (before.length + 1) ++ ": " ++ e.fault.message) := by
  refine ⟨fun es ls h hls => ?_, fun s => ?_⟩
  · by_cases hne : ls = []
    · subst hne
      cases h
      rfl
    · rw [readAll, lines_intercalate hne hls, readLines_laid h]
  · have hline (l : String) (hl : l ∈ lines s) : readAll l = readLines 1 [l] := by
      rw [readAll, lines_of_mem_lines hl]
    rcases readLines_cases (lines s) 1 with ⟨rs, hrs, hread⟩ | ⟨before, l, after, fault, hs, hbefore, hl, hread⟩
    · rw [← List.map_congr_left hline] at hrs
      refine ⟨iff_of_true ⟨_, hread⟩ fun l hl => ?_, .inl ⟨rs, hrs, hread⟩⟩
      obtain ⟨r, -, hr⟩ := List.mem_map.1 (hrs ▸ List.mem_map_of_mem hl)
      exact ⟨r, hr.symm⟩
    · rw [hs, List.forall_mem_append, List.forall_mem_cons] at hline
      rw [← hline.2.1] at hl
      refine ⟨iff_of_false ?_ fun hall => ?_, .inr ⟨before, l, after, _, hs, fun b hb => ?_, hl, hread, ?_⟩⟩
      · rintro ⟨es, hes⟩
        cases hes.symm.trans hread
      · obtain ⟨r, hr⟩ := hall l (by simp [hs])
        cases hr.symm.trans hl
      · rw [hline.1 b hb]
        exact hbefore b hb
      · rw [ExpectationError.message, Nat.add_comm]

/-- Statements whose texts hold a colon, a remark's sign and nothing. -/
def sampleStatements : List Expectation :=
  [.contains "a: b", .count 18446744073709551615 "# x", .notContains "", .unchanged]

/-- They are written with a remark, a blank line, indentation and line ends of two characters. -/
def sampleLines : List String :=
  ["# counts", " \t", "  contains: a: b\r", "count: 18446744073709551615 # x\r", "not-contains: ",
    "unchanged "]

theorem laid_sampleLines : Laid sampleStatements sampleLines := by
  refine .remark "" " counts" isBlankText_empty ?_
  refine .blank (isBlankText_of_all (by decide)) ?_
  refine .statement "  " "\r" ⟨by decide, by decide⟩ ?_ ?_ ?_
  · exact isBlankText_of_all (by decide)
  · exact isBlankText_of_all (by decide)
  refine .statement "" "\r" ⟨by decide, ⟨by decide, by decide⟩, by decide⟩ isBlankText_empty ?_ ?_
  · exact isBlankText_of_all (by decide)
  refine .statement "" "" ⟨by decide, by decide⟩ isBlankText_empty isBlankText_empty ?_
  exact .statement "" " " trivial isBlankText_empty isBlankText_space .nil

/-- They are read back. -/
theorem readAll_sampleLines :
    Laid sampleStatements sampleLines ∧
      readAll ("\n".intercalate sampleLines) = .ok sampleStatements :=
  ⟨laid_sampleLines, readAll_laid_and_lines.1 _ _ laid_sampleLines (by simp [sampleLines])⟩

end Expectation

end Worklet
