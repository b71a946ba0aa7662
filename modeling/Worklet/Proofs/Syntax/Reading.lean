import Mathlib.Data.List.Basic
import Worklet.Syntax.Parse

/-!
# Reading goes forward

Tokens are read in the order of the text. What is said here of a reader is where the words stand
that it has read: each begins after all words before it, and before the end of the last token.

Principal results: `Brings.bind` — readers one after the other; `many_reads` and `iterate_brings` —
readers that are repeated.
-/

set_option autoImplicit false

namespace Worklet.Syntax

/-! ### Tokens -/

theorem foldl_utf8Size (cs : List Char) (n : Nat) :
    cs.foldl (fun n c => n + c.utf8Size) n = n + byteCount cs := by
  induction cs generalizing n with
  | nil => rfl
  | cons c cs ih =>
    have hcons : byteCount (c :: cs) = 0 + c.utf8Size + byteCount cs := ih (0 + c.utf8Size)
    rw [List.foldl_cons, ih, hcons]
    omega

theorem byteCount_cons_pos (c : Char) (cs : List Char) : 0 < byteCount (c :: cs) := by
  have hcons : byteCount (c :: cs) = 0 + c.utf8Size + byteCount cs := foldl_utf8Size cs _
  have := c.utf8Size_pos
  omega

theorem isName_readNumber (cs : List Char) : (readNumber cs).1.isName = false := by
  simp only [readNumber, apply_ite Prod.fst]
  simp only [apply_ite TokenKind.isName]
  simp [TokenKind.isName]

theorem isName_readString (quote : Char) (cs : List Char) :
    (readString quote cs).1.isName = false := by
  unfold readString
  split
  · dsimp only
    split <;> rfl
  · rfl

theorem byteCount_pos_of_readToken {cs : List Char} (h : (readToken cs).1.isName = true) :
    0 < byteCount (readToken cs).2.1 := by
  revert h
  unfold readToken
  split
  · simp [TokenKind.isName]
  · split
    · split
      · rename_i written meant rest _
        cases written with
        | nil => simp [TokenKind.isName]
        | cons c written => exact fun _ => byteCount_cons_pos c written
      · simp [TokenKind.isName]
    · split
      · simp [isName_readNumber]
      · split
        · simp [isName_readString]
        · split
          · split
            · split <;> simp [TokenKind.isName]
            · simp [TokenKind.isName]
          · split <;> simp [TokenKind.isName]

theorem skip_pos_le (trail : Trail) (fuel : Nat) (s : Skipped) : s.pos ≤ (skip trail fuel s).pos := by
  induction fuel generalizing s with
  | zero => exact Nat.le_refl _
  | succ fuel ih =>
    unfold skip
    split
    · refine Nat.le_trans ?_ (ih _)
      split <;> simp only <;> omega
    · split
      · exact Nat.le_refl _
      · refine Nat.le_trans ?_ (ih _)
        split <;> simp only <;> omega
    · split
      · refine Nat.le_trans ?_ (ih _)
        simp only
        omega
      · split
        · refine Nat.le_trans ?_ (ih _)
          simp only
          omega
        · exact Nat.le_refl _
    · exact Nat.le_refl _

/-! ### States -/

/-- The token at hand stands after the last one, and a word is not empty. -/
structure State.Sound (s : State) : Prop where
  lastEnd_le : s.lastEnd ≤ s.token.span.lo
  lo_le : s.token.span.lo ≤ s.token.span.hi
  lo_lt : s.token.kind.isName = true → s.token.span.lo < s.token.span.hi

theorem State.scan_sound (s : State) (cs : List Char) (pos : Nat) (trail : Trail) :
    (s.scan cs pos trail).Sound := by
  have hpos : pos ≤ (skip trail (s.limit + 1) ⟨cs, pos, false, [], [], none⟩).pos :=
    skip_pos_le trail (s.limit + 1) ⟨cs, pos, false, [], [], none⟩
  unfold State.scan
  generalize skip trail (s.limit + 1) ⟨cs, pos, false, [], [], none⟩ = skipped at hpos ⊢
  cases hf : skipped.fault with
  | some f => exact ⟨hpos, Nat.le_add_right _ _, fun h => by simp [hf, TokenKind.isName] at h⟩
  | none =>
    refine ⟨hpos, Nat.le_add_right _ _, fun h => ?_⟩
    simp only [hf] at h ⊢
    exact Nat.lt_add_of_pos_right (byteCount_pos_of_readToken h)

/-- Places that were read: in order, and before the end of the last token. -/
structure Behind (l : List Nat) (s : State) : Prop where
  sound : s.Sound
  ordered : l.Pairwise (· < ·)
  lt_lastEnd : ∀ x ∈ l, x < s.lastEnd

theorem Behind.sublist {l l' : List Nat} {s : State} (h : Behind l s) (hl : l'.Sublist l) :
    Behind l' s :=
  ⟨h.sound, h.ordered.sublist hl, fun x hx => h.lt_lastEnd x (hl.subset hx)⟩

/-- Reading on, from the end of the token at hand or after it. -/
theorem Behind.scan {l : List Nat} {s : State} (h : Behind l s) (cs : List Char) {pos : Nat}
    (trail : Trail) (hpos : s.lastEnd ≤ pos) : Behind l (s.scan cs pos trail) :=
  ⟨s.scan_sound cs pos trail, h.ordered, fun x hx => Nat.lt_of_lt_of_le (h.lt_lastEnd x hx) hpos⟩

/-- Reading past something that begins where the token at hand does. -/
theorem Behind.scan_place {l : List Nat} {s : State} (h : Behind l s) (cs : List Char) {pos : Nat}
    (trail : Trail) (hpos : s.token.span.lo < pos) :
    Behind (l ++ [s.token.span.lo]) (s.scan cs pos trail) := by
  have hbefore : ∀ x ∈ l, x < s.token.span.lo :=
    fun x hx => Nat.lt_of_lt_of_le (h.lt_lastEnd x hx) h.sound.lastEnd_le
  refine ⟨s.scan_sound cs pos trail, ?_, ?_⟩
  · rw [List.pairwise_append]
    refine ⟨h.ordered, List.pairwise_singleton _ _, fun x hx y hy => ?_⟩
    cases List.mem_singleton.1 hy
    exact hbefore x hx
  · intro x hx
    rcases List.mem_append.1 hx with hx | hx
    · exact Nat.lt_trans (hbefore x hx) hpos
    · cases List.mem_singleton.1 hx
      exact hpos

theorem Behind.lastEnd_le_hi {l : List Nat} {s : State} (h : Behind l s) :
    s.lastEnd ≤ s.token.span.hi :=
  Nat.le_trans h.sound.lastEnd_le h.sound.lo_le

/-! ### Readers -/

/-- If the first places are behind the reader in a state, then after it has read the others are. -/
def BringsAt {α : Type} (s : State) (pre : List Nat) (p : Parser α) (post : α → List Nat) : Prop :=
  Behind pre s → ∀ ⦃a : α⦄ ⦃s' : State⦄, p s = .ok (a, s') → Behind (post a) s'

/-- The same of every state. -/
def Brings {α : Type} (pre : List Nat) (p : Parser α) (post : α → List Nat) : Prop :=
  ∀ ⦃s : State⦄, BringsAt s pre p post


/-- With what the reader gives, its places are behind, after all others. -/
def Reads {α : Type} (m : α → List Nat) (p : Parser α) : Prop :=
  ∀ l, Brings l p fun a => l ++ m a

/-- The reader goes forward: what is behind it stays behind. -/
class Forward {α : Type} (p : Parser α) : Prop where
  brings : ∀ l, Brings l p fun _ => l

/-- The reader leaves the state as it is. -/
class Looks {α : Type} (p : Parser α) : Prop where
  eq_of_ok : ∀ ⦃s : State⦄ ⦃a : α⦄ ⦃s' : State⦄, p s = .ok (a, s') → s' = s

section Readers

variable {α β : Type} {s : State} {l pre : List Nat} {p q : Parser α} {f : α → Parser β}
  {m mid : α → List Nat} {post : β → List Nat}

theorem bind_eq_ok {s s' : State} {b : β} (h : (p >>= f) s = .ok (b, s')) :
    ∃ a s₁, p s = .ok (a, s₁) ∧ f a s₁ = .ok (b, s') := by
  change (p s >>= fun x => f x.1 x.2) = .ok (b, s') at h
  cases hp : p s with
  | error e => rw [hp] at h; cases h
  | ok x => exact ⟨x.1, x.2, rfl, by rw [hp] at h; exact h⟩

theorem Brings.bind (hp : Brings pre p m) (hf : ∀ a, Brings (m a) (f a) post) :
    Brings pre (p >>= f) post := by
  intro s hs b s' h
  obtain ⟨a, s₁, ha, hb⟩ := bind_eq_ok h
  exact hf a (hp hs ha) hb

theorem pure_brings {a : α} (ha : (mid a).Sublist l) : Brings l (pure a) mid := by
  intro s hs b s' h
  cases h
  exact hs.sublist ha

theorem done_brings {a : α} (ha : mid a = l) : Brings l (pure a) mid :=
  pure_brings (by rw [ha])

theorem bare_brings {a : α} (ha : m a = []) : Brings l (pure a) fun a => l ++ m a :=
  pure_brings (by simp [ha])

theorem Brings.weaken {post' : α → List Nat} (h : Brings pre p mid)
    (hpost : ∀ a, (post' a).Sublist (mid a)) : Brings pre p post' :=
  fun _ hs a _ ha => (h hs ha).sublist (hpost a)

theorem Brings.ite {c : Prop} [Decidable c] (hp : Brings pre p mid) (hq : Brings pre q mid) :
    Brings pre (if c then p else q) mid := by
  split
  · exact hp
  · exact hq

/-- One of two readers, and then what comes after both. -/
theorem Brings.ite_bind {c : Prop} [Decidable c] (hp : Brings pre p mid) (hq : Brings pre q mid)
    (hf : ∀ a, Brings (mid a) (f a) post) :
    Brings pre (if c then p >>= f else q >>= f) post :=
  .ite (hp.bind hf) (hq.bind hf)

/-- Past a reader whose result has no places. -/
theorem Brings.skip [hp : Forward p] (hf : ∀ a, Brings pre (f a) post) : Brings pre (p >>= f) post :=
  (hp.brings pre).bind hf

theorem Brings.ite_skip {c : Prop} [Decidable c] [Forward p] [Forward q]
    (hf : ∀ a, Brings pre (f a) post) : Brings pre (if c then p >>= f else q >>= f) post :=
  .ite (.skip hf) (.skip hf)

theorem Brings.at (h : Brings pre p mid) : BringsAt s pre p mid :=
  fun hs => h hs

theorem BringsAt.bind (hp : BringsAt s pre p m) (hf : ∀ a, Brings (m a) (f a) post) :
    BringsAt s pre (p >>= f) post := by
  intro hs b s' h
  obtain ⟨a, s₁, ha, hb⟩ := bind_eq_ok h
  exact hf a (hp hs ha) hb

theorem BringsAt.ite {c : Prop} [Decidable c] (hp : BringsAt s pre p mid)
    (hq : BringsAt s pre q mid) : BringsAt s pre (if c then p else q) mid := by
  split
  · exact hp
  · exact hq

/-- The state stays as it is while the reader only looks. -/
theorem BringsAt.look [hp : Looks p] (hf : ∀ a, BringsAt s pre (f a) post) :
    BringsAt s pre (p >>= f) post := by
  intro hs b s' h
  obtain ⟨a, s₁, ha, hb⟩ := bind_eq_ok h
  cases hp.eq_of_ok ha
  exact hf a hs hb

theorem Reads.forward (h : Reads m p) : Forward p :=
  ⟨fun l => (h l).weaken fun _ => List.sublist_append_left _ _⟩

theorem Brings.some {mid : Option α → List Nat} (h : Brings pre p fun a => mid (.some a)) :
    Brings pre (do return Option.some (← p)) mid :=
  h.bind fun _ => done_brings rfl

theorem Reads.some (h : Reads m p) :
    Reads (fun o => o.elim [] m) (do return Option.some (← p)) :=
  fun l => .some (h l)

theorem none_reads : Reads (fun o => o.elim [] m) (pure none : Parser (Option α)) :=
  fun _ => bare_brings rfl

theorem Brings.bind_option {p : Parser (Option α)} {f : Option α → Parser β}
    (hp : Reads (fun o => o.elim [] m) p) (hsome : ∀ a, Brings (l ++ m a) (f (.some a)) post)
    (hnone : Brings l (f none) post) : Brings l (p >>= f) post := by
  refine (hp l).bind fun o => ?_
  cases o with
  | none => simpa using hnone
  | some a => exact hsome a

/-! ### Readers that look or go forward -/

instance [hp : Looks p] [hf : ∀ a, Looks (f a)] : Looks (p >>= f) where
  eq_of_ok s b s' h := by
    obtain ⟨a, s₁, ha, hb⟩ := bind_eq_ok h
    cases hp.eq_of_ok ha
    exact (hf a).eq_of_ok hb

instance {a : α} : Looks (pure a) where
  eq_of_ok s b s' h := by
    cases h
    rfl

instance {c : Prop} [Decidable c] [hp : Looks p] [hq : Looks q] : Looks (if c then p else q) := by
  split
  · exact hp
  · exact hq

instance (priority := low) [hp : Looks p] : Forward p where
  brings l s hs a s' h := by
    rw [hp.eq_of_ok h]
    exact hs

instance [hp : Forward p] [hf : ∀ a, Forward (f a)] : Forward (p >>= f) :=
  ⟨fun l => (hp.brings l).bind fun a => (hf a).brings l⟩

instance {c : Prop} [Decidable c] [hp : Forward p] [hq : Forward q] :
    Forward (if c then p else q) :=
  ⟨fun l => .ite (hp.brings l) (hq.brings l)⟩

theorem Looks.andThen [Looks p] (hf : ∀ a, Looks (f a)) : Looks (p >>= f) :=
  inferInstance

theorem Forward.andThen [Forward p] (hf : ∀ a, Forward (f a)) : Forward (p >>= f) :=
  inferInstance

/-! ### Basic readers -/

instance : Looks (get : Parser State) where
  eq_of_ok s a s' h := by
    cases h
    rfl

instance : Looks (lookahead p) where
  eq_of_ok s a s' h := by
    unfold lookahead at h
    split at h <;> cases h <;> rfl

instance : Looks current := by unfold current; infer_instance

instance : Looks here := by unfold here; infer_instance

instance {lo : Nat} : Looks (spanFrom lo) := by unfold spanFrom; infer_instance

instance {text : String} : Looks (isPunct text) := by unfold isPunct; infer_instance

instance {w : String} : Looks (isWord w) := by unfold isWord; infer_instance

instance : Looks afterBreak := by unfold afterBreak; infer_instance

instance : Looks isTyped := by unfold isTyped; infer_instance

instance : Looks hasJsx := by unfold hasJsx; infer_instance

instance : Looks atStatementEnd := by unfold atStatementEnd; infer_instance

instance {p : Parser Bool} : Looks (looksLike p) := by unfold looksLike; infer_instance

instance : Looks next := by unfold next; infer_instance

instance {lo : Nat} {k : Kind} {cs : List Ast} : Looks (mk lo k cs) := by unfold mk; infer_instance

theorem Brings.current {f : Token → Parser β} (h : ∀ s, BringsAt s pre (f s.token) post) :
    Brings pre (current >>= f) post :=
  fun s => h s

theorem Brings.get {f : State → Parser β} (h : ∀ s, BringsAt s pre (f s) post) :
    Brings pre (get >>= f) post :=
  fun s => h s

theorem failAt_brings (pos : Nat) (fault : Fault) : Brings pre (failAt pos fault : Parser α) mid :=
  fun _ _ _ _ h => nomatch h

theorem fail_brings (fault : Fault) : Brings pre (fail fault : Parser α) mid := by
  refine .skip fun t => ?_
  split <;> exact failAt_brings _ _

theorem unexpected_brings : Brings pre (unexpected : Parser α) mid :=
  .skip fun _ => fail_brings _

instance {pos : Nat} {fault : Fault} : Forward (failAt pos fault : Parser α) :=
  ⟨fun _ => failAt_brings pos fault⟩

instance {fault : Fault} : Forward (fail fault : Parser α) :=
  ⟨fun _ => fail_brings fault⟩

instance : Forward (unexpected : Parser α) :=
  ⟨fun _ => unexpected_brings⟩

instance : Forward advance where
  brings l s hs a s' h := by
    cases h
    exact hs.scan _ _ hs.lastEnd_le_hi

/-- Going past a word puts its place behind. -/
theorem advance_place (ht : s.token.kind.isName = true) :
    BringsAt s l advance fun _ => l ++ [s.token.span.lo] := by
  intro hs a s' h
  cases h
  exact hs.scan_place _ _ (hs.sound.lo_lt ht)

/-- Reading on from a place that is not before the token at hand. -/
theorem set_scan_brings {cs : List Char} {pos : Nat} {trail : Trail}
    (hpos : s.token.span.lo ≤ s.token.span.hi → s.token.span.lo ≤ pos) :
    BringsAt s l (set (s.scan cs pos trail) : Parser PUnit) fun _ => l := by
  intro hs a s' h
  cases h
  exact hs.scan _ _ (Nat.le_trans hs.sound.lastEnd_le (hpos hs.sound.lo_le))

theorem modify_scan_brings {cs : State → List Char} {pos : State → Nat} {trail : State → Trail}
    (hpos : s.token.span.lo ≤ s.token.span.hi → s.token.span.lo ≤ pos s) :
    BringsAt s l (modify fun s => s.scan (cs s) (pos s) (trail s) : Parser PUnit) fun _ => l := by
  intro hs a s' h
  cases h
  exact hs.scan _ _ (Nat.le_trans hs.sound.lastEnd_le (hpos hs.sound.lo_le))

/-- Reading on from the end of a word, or from a place after it. -/
theorem set_scan_place {cs : List Char} {pos : Nat} {trail : Trail}
    (ht : s.token.kind.isName = true) (hpos : s.token.span.hi ≤ pos) :
    BringsAt s l (set (s.scan cs pos trail) : Parser PUnit) fun _ => l ++ [s.token.span.lo] := by
  intro hs a s' h
  cases h
  exact hs.scan_place _ _ (Nat.lt_of_lt_of_le (hs.sound.lo_lt ht) hpos)

instance {text : String} : Forward (eat text) := by unfold eat; infer_instance

instance {w : String} : Forward (eatWord w) := by unfold eatWord; infer_instance

instance {text : String} : Forward (expect text) := by unfold expect; infer_instance

instance {w : String} : Forward (expectWord w) := by unfold expectWord; infer_instance

instance : Forward semicolon := by simp only [semicolon]; infer_instance

theorem attempt_brings (h : Brings pre p mid) : Brings pre (attempt p) fun o => o.elim pre mid := by
  intro s hs o s' ho
  unfold attempt at ho
  split at ho
  · rename_i a s₁ ha
    cases ho
    exact h hs ha
  · cases ho
    exact hs

instance [hp : Forward p] : Forward (attempt p) where
  brings l := (attempt_brings (hp.brings l)).weaken fun o => by cases o <;> exact .refl _

theorem withContext_brings (g : Context → Context) (h : Brings pre p mid) :
    Brings pre (withContext g p) mid := by
  have hset : ∀ {l : List Nat} (c : Context),
      Brings l (modify fun s => { s with context := c } : Parser Unit) fun _ => l := by
    intro l c s hs a s' ha
    cases ha
    exact ⟨⟨hs.sound.lastEnd_le, hs.sound.lo_le, hs.sound.lo_lt⟩, hs.ordered, hs.lt_lastEnd⟩
  refine .skip fun _ => (hset _).bind fun _ => h.bind fun a => (hset _).bind fun _ => ?_
  exact done_brings rfl

theorem Reads.withContext {g : Context → Context} (h : Reads m p) : Reads m (withContext g p) :=
  fun l => withContext_brings g (h l)

instance {g : Context → Context} [hp : Forward p] : Forward (withContext g p) :=
  ⟨fun l => withContext_brings g (hp.brings l)⟩

/-! ### Repetition -/

theorem manyUpTo_reads {step : Parser (Option α)} (h : Reads (fun o => o.elim [] m) step)
    (fuel : Nat) : Reads (fun as => as.flatMap m) (manyUpTo step fuel) := by
  induction fuel with
  | zero => exact fun l => fail_brings _
  | succ fuel ih =>
    intro l
    refine (h l).bind fun o => ?_
    cases o with
    | none => exact done_brings rfl
    | some a => exact (ih (l ++ m a)).bind fun as => pure_brings (by simp)

theorem many_reads {step : Parser (Option α)} (h : Reads (fun o => o.elim [] m) step) :
    Reads (fun as => as.flatMap m) (many step) :=
  fun l => .skip fun s => manyUpTo_reads h s.limit l

instance {step : Parser (Option α)} [hstep : Forward step] : Forward (many step) := by
  refine Reads.forward (m := fun as => as.flatMap fun _ => []) (many_reads fun l => ?_)
  exact (hstep.brings l).weaken fun o => by cases o <;> simp

/-- A value that is carried through steps, each of which may add to it. -/
theorem iterateUpTo_brings {step : α → Parser (Option α)}
    (h : ∀ a, Brings (m a) (step a) fun o => m (o.getD a)) (fuel : Nat) (a : α) :
    Brings (m a) (iterateUpTo step fuel a) m := by
  induction fuel generalizing a with
  | zero => exact fail_brings _
  | succ fuel ih =>
    refine (h a).bind fun o => ?_
    cases o with
    | none => exact done_brings rfl
    | some b => exact ih b

theorem iterate_brings {step : α → Parser (Option α)}
    (h : ∀ a, Brings (m a) (step a) fun o => m (o.getD a)) (a : α) :
    Brings (m a) (iterate step a) m :=
  .skip fun s => iterateUpTo_brings h s.limit a

instance {step : α → Parser (Option α)} {a : α} [hstep : ∀ a, Forward (step a)] :
    Forward (iterate step a) :=
  ⟨fun l => iterate_brings (m := fun _ => l) (fun a => (hstep a).brings l) a⟩

theorem sepUntil_reads (close separator : String) (h : Reads m p) :
    Reads (fun as => as.flatMap m) (sepUntil close separator p) := by
  intro l
  refine (many_reads (m := m) ?_ l).bind fun as => .skip fun _ => done_brings rfl
  intro l
  refine .skip fun _ => .ite (bare_brings rfl) ?_
  refine (h l).bind fun a => .skip fun _ => .ite (done_brings rfl) ?_
  exact .skip fun _ => done_brings rfl

theorem sepBy1_reads (separator : String) (h : Reads m p) :
    Reads (fun as => as.flatMap m) (sepBy1 separator p) := by
  intro l
  refine (h l).bind fun a => (many_reads (m := m) ?_ _).bind fun as => pure_brings (by simp)
  exact fun l => .skip fun _ => .ite (h.some l) (none_reads l)

instance {close separator : String} [Forward p] : Forward (sepUntil close separator p) := by
  simp only [sepUntil]
  infer_instance

instance {separator : String} [Forward p] : Forward (sepBy1 separator p) := by
  simp only [sepBy1]
  infer_instance

/-! ### What readers give -/

/-- What the reader gives has the property. -/
def Gives (P : α → Prop) (p : Parser α) : Prop :=
  ∀ ⦃s : State⦄ ⦃a : α⦄ ⦃s' : State⦄, p s = .ok (a, s') → P a

variable {P : α → Prop} {Q : β → Prop}

theorem Gives.bind (hp : Gives P p) (hf : ∀ a, P a → Gives Q (f a)) : Gives Q (p >>= f) := by
  intro s b s' h
  obtain ⟨a, s₁, ha, hb⟩ := bind_eq_ok h
  exact hf a (hp ha) hb

theorem Gives.after (hf : ∀ a, Gives Q (f a)) : Gives Q (p >>= f) :=
  Gives.bind (P := fun _ => True) (fun _ _ _ _ => trivial) fun a _ => hf a

theorem Gives.ite {c : Prop} [Decidable c] (hp : Gives P p) (hq : Gives P q) :
    Gives P (if c then p else q) := by
  split
  · exact hp
  · exact hq

theorem Gives.ite_bind {c : Prop} [Decidable c] (hp : Gives P p) (hq : Gives P q)
    (hf : ∀ a, P a → Gives Q (f a)) : Gives Q (if c then p >>= f else q >>= f) :=
  .ite (hp.bind hf) (hq.bind hf)

theorem Gives.ite_after {c : Prop} [Decidable c] (hf : ∀ a, Gives Q (f a)) :
    Gives Q (if c then p >>= f else q >>= f) :=
  .ite (.after hf) (.after hf)

theorem pure_gives {a : α} (ha : P a) : Gives P (pure a) := by
  intro s b s' h
  cases h
  exact ha

theorem mk_gives {P : Ast → Prop} {lo : Nat} {k : Kind} {cs : List Ast}
    (h : ∀ s, P (.node k s cs)) : Gives P (mk lo k cs) :=
  .after fun s => pure_gives (h s)

theorem fail_gives (fault : Fault) : Gives P (fail fault : Parser α) := by
  refine .after fun t => ?_
  split <;> exact fun _ _ _ h => nomatch h

theorem unexpected_gives : Gives P (unexpected : Parser α) :=
  .after fun _ => fail_gives _

theorem manyUpTo_gives {step : Parser (Option α)} (h : Gives (fun o => ∀ a ∈ o, P a) step)
    (fuel : Nat) : Gives (fun as => ∀ a ∈ as, P a) (manyUpTo step fuel) := by
  induction fuel with
  | zero => exact fail_gives _
  | succ fuel ih =>
    refine h.bind fun o ho => ?_
    cases o with
    | none => exact pure_gives (by simp)
    | some a => exact ih.bind fun as has => pure_gives (by simpa using ⟨ho a rfl, has⟩)

theorem attempt_gives (h : Gives P p) : Gives (fun o => ∀ a ∈ o, P a) (attempt p) := by
  intro s o s' ho
  unfold attempt at ho
  split at ho <;> cases ho
  · rename_i a _ ha
    rintro _ ⟨⟩
    exact h ha
  · simp

theorem withContext_gives (g : Context → Context) (h : Gives P p) : Gives P (withContext g p) :=
  .after fun _ => .after fun _ => h.bind fun _ ha => .after fun _ => pure_gives ha

theorem iterateUpTo_gives {step : α → Parser (Option α)}
    (h : ∀ a, P a → Gives (fun o => P (o.getD a)) (step a)) (fuel : Nat) {a : α} (ha : P a) :
    Gives P (iterateUpTo step fuel a) := by
  induction fuel generalizing a with
  | zero => exact fail_gives _
  | succ fuel ih =>
    refine (h a ha).bind fun o ho => ?_
    cases o with
    | none => exact pure_gives ha
    | some b => exact ih ho

theorem iterate_gives {step : α → Parser (Option α)}
    (h : ∀ a, P a → Gives (fun o => P (o.getD a)) (step a)) {a : α} (ha : P a) :
    Gives P (iterate step a) :=
  .after fun s => iterateUpTo_gives h s.limit ha

theorem sepBy1_gives (separator : String) (h : Gives P p) :
    Gives (fun as => ∀ a ∈ as, P a) (sepBy1 separator p) := by
  refine h.bind fun a ha => ?_
  refine Gives.bind (P := fun as => ∀ a ∈ as, P a) (.after fun s => manyUpTo_gives ?_ s.limit) ?_
  · refine .after fun _ => .ite (h.bind fun a ha => ?_) (pure_gives (by simp))
    exact pure_gives (by simpa using ha)
  · exact fun as has => pure_gives (by simpa using ⟨ha, has⟩)

theorem Brings.bind_gives (hp : Brings pre p mid) (hg : Gives P p)
    (hf : ∀ a, P a → Brings (mid a) (f a) post) : Brings pre (p >>= f) post := by
  intro s hs b s' h
  obtain ⟨a, s₁, ha, hb⟩ := bind_eq_ok h
  exact hf a (hg ha) (hp hs ha) hb

/-- Past a reader whose result has no places, and has a property. -/
theorem Brings.skip_gives [hp : Forward p] (hg : Gives P p)
    (hf : ∀ a, P a → Brings pre (f a) post) : Brings pre (p >>= f) post :=
  (hp.brings pre).bind_gives hg hf

theorem Brings.ite_skip_gives {c : Prop} [Decidable c] [Forward p] [Forward q] (hp : Gives P p)
    (hq : Gives P q) (hf : ∀ a, P a → Brings pre (f a) post) :
    Brings pre (if c then p >>= f else q >>= f) post :=
  .ite (.skip_gives hp hf) (.skip_gives hq hf)

/-- Nothing is read after a failure. -/
theorem unexpected_bind_brings : Brings pre (unexpected >>= f) post :=
  .skip_gives (P := fun _ => False) unexpected_gives fun _ h => h.elim

end Readers

end Worklet.Syntax
