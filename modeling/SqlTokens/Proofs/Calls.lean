-- What calls take from a lexer. A lexer with nothing read ahead has the tokens of its
-- cursor to give, and every call takes them from the front.
import SqlTokens.Lexer
import SqlTokens.Proofs.Pieces

namespace SqlTokens.Lexer

/-! ## A new lexer -/

/-- A lexer at the start of a text, with settings that were accepted. -/
inductive Opened (cs : List Char) : Lexer → Prop
  | ofText : Opened cs (.ofText cs)
  | withSettings {s : Settings} {lx : Lexer} : withSettings cs s = .ok lx → Opened cs lx

/-- The three ways in which opening a lexer ends. -/
theorem withSettings_cases (cs : List Char) (s : Settings) :
    (∃ e, s.check = .error e ∧ withSettings cs s = .error e) ∨
      (∃ limit, s.check = .ok () ∧ s.maxInputLength = some limit ∧ limit < cs.length ∧
        withSettings cs s = .error (.inputTooLong cs.length limit)) ∨
      (s.check = .ok () ∧ (∀ limit, s.maxInputLength = some limit → cs.length ≤ limit) ∧
        withSettings cs s = .ok ⟨.ofText cs, s, .unread⟩) := by
  unfold withSettings
  rcases hc : s.check with e | ⟨⟩
  · exact Or.inl ⟨e, rfl, rfl⟩
  · right
    rcases hl : s.maxInputLength with _ | limit
    · right
      refine ⟨rfl, ?_, rfl⟩
      rintro limit ⟨⟩
    · by_cases hlt : limit < cs.length
      · left
        refine ⟨limit, rfl, rfl, hlt, ?_⟩
        simp only [hlt, if_true]
        rfl
      · right
        refine ⟨rfl, ?_, ?_⟩
        · rintro limit ⟨⟩
          exact Nat.le_of_not_lt hlt
        · simp only [hlt, if_false]
          rfl

theorem eq_of_withSettings {cs : List Char} {s : Settings} {lx : Lexer}
    (h : withSettings cs s = .ok lx) : lx = ⟨.ofText cs, s, .unread⟩ := by
  rcases withSettings_cases cs s with ⟨e, -, he⟩ | ⟨limit, -, -, -, he⟩ | ⟨-, -, hok⟩
  · rw [he] at h
    cases h
  · rw [he] at h
    cases h
  · rw [hok] at h
    cases h
    rfl

theorem Opened.cursor_eq {cs : List Char} {lx : Lexer} (h : Opened cs lx) :
    lx.cursor = .ofText cs := by
  cases h with
  | ofText => rfl
  | withSettings h => rw [eq_of_withSettings h]

theorem Opened.ahead_eq {cs : List Char} {lx : Lexer} (h : Opened cs lx) : lx.ahead = .unread := by
  cases h with
  | ofText => rfl
  | withSettings h => rw [eq_of_withSettings h]

/-! ## Taking tokens one by one -/

theorem takeUntil_of_none {stop : Token → Bool} {lx : Lexer} (h : lx.next.value = none) :
    lx.takeUntil stop = ⟨[], lx.next.lexer, lx.next.log⟩ := by
  rw [takeUntil]
  split
  · rfl
  · rename_i t ht
    rw [h] at ht
    cases ht

theorem takeUntil_of_some {stop : Token → Bool} {lx : Lexer} {t : Token}
    (h : lx.next.value = some t) :
    lx.takeUntil stop = if stop t then ⟨[t], lx.next.lexer, lx.next.log⟩ else
      ⟨t :: (lx.next.lexer.takeUntil stop).value, (lx.next.lexer.takeUntil stop).lexer,
        lx.next.log ++ (lx.next.lexer.takeUntil stop).log⟩ := by
  rw [takeUntil]
  split
  · rename_i ht
    rw [h] at ht
    cases ht
  · rename_i t' ht
    rw [h] at ht
    cases ht
    rfl

theorem take_succ_of_none {n : Nat} {lx : Lexer} (h : lx.next.value = none) :
    take (n + 1) lx = ⟨[], lx.next.lexer, lx.next.log⟩ := by
  rw [take, h]

theorem take_succ_of_some {n : Nat} {lx : Lexer} {t : Token} (h : lx.next.value = some t) :
    take (n + 1) lx = ⟨t :: (take n lx.next.lexer).value, (take n lx.next.lexer).lexer,
      lx.next.log ++ (take n lx.next.lexer).log⟩ := by
  rw [take, h]

/-! ## Many takes -/

/-- A relation between a lexer, the tokens taken from it, the records left and the lexer after it
that holds of one take, and of takes one after the other. -/
structure Composes (R : Lexer → List Token → List Log.Event → Lexer → Prop) : Prop where
  refl : ∀ lx, R lx [] [] lx
  next : ∀ lx, R lx lx.next.value.toList lx.next.log lx.next.lexer
  trans : ∀ {lx lx' lx'' : Lexer} {ts us : List Token} {log log' : List Log.Event},
    R lx ts log lx' → R lx' us log' lx'' → R lx (ts ++ us) (log ++ log') lx''

section

variable {R : Lexer → List Token → List Log.Event → Lexer → Prop} (h : Composes R)
include h

theorem Composes.takeUntil (stop : Token → Bool) (lx : Lexer) :
    R lx (lx.takeUntil stop).value (lx.takeUntil stop).log (lx.takeUntil stop).lexer := by
  fun_induction Lexer.takeUntil stop lx with
  | case1 lx ht =>
    have hn := h.next lx
    rwa [ht] at hn
  | case2 lx t ht hs =>
    have hn := h.next lx
    rwa [ht] at hn
  | case3 lx t ht hs more ih =>
    have hn := h.next lx
    rw [ht] at hn
    exact h.trans hn ih

theorem Composes.take (n : Nat) (lx : Lexer) :
    R lx (Lexer.take n lx).value (Lexer.take n lx).log (Lexer.take n lx).lexer := by
  induction n generalizing lx with
  | zero => exact h.refl lx
  | succ n ih =>
    have hn := h.next lx
    rcases ht : lx.next.value with _ | t
    · rw [ht] at hn
      rwa [take_succ_of_none ht]
    · rw [ht] at hn
      rw [take_succ_of_some ht]
      exact h.trans hn (ih lx.next.lexer)

end

/-! ## What is left to take -/

/-- The tokens `ts` are taken from the front of what `lx` has to give. The lexer `lx'` has the
others, and it has read nothing ahead. -/
structure Takes (lx : Lexer) (ts : List Token) (lx' : Lexer) : Prop where
  ahead_eq : lx'.ahead = .unread
  tokens_eq : lx.cursor.tokens = ts ++ lx'.cursor.tokens

theorem takes_nil {lx : Lexer} (h : lx.ahead = .unread) : Takes lx [] lx := ⟨h, rfl⟩

theorem Takes.trans {lx lx' lx'' : Lexer} {ts us : List Token} (h : Takes lx ts lx')
    (h' : Takes lx' us lx'') : Takes lx (ts ++ us) lx'' := by
  refine ⟨h'.ahead_eq, ?_⟩
  rw [h.tokens_eq, h'.tokens_eq, List.append_assoc]

theorem next_of_unread {lx : Lexer} (h : lx.ahead = .unread) : lx.next = lx.produce := by
  rw [next, h]

/-- The token that is read is the first of those that were left. -/
theorem tokens_produce (lx : Lexer) :
    lx.cursor.tokens = lx.produce.value.toList ++ lx.produce.lexer.cursor.tokens := by
  rcases ht : lx.cursor.next.1 with _ | t
  · simp [produce, ht, Cursor.tokens_of_none ht, Cursor.tokens_next_of_none ht]
  · simp [produce, ht, Cursor.tokens_of_some ht]

/-- After a take, nothing is read ahead. -/
theorem ahead_next (lx : Lexer) : lx.next.lexer.ahead = .unread := by
  rcases ha : lx.ahead with _ | t
  · rw [next_of_unread ha]
    exact ha
  · simp only [next, ha]

theorem ahead_takeUntil (stop : Token → Bool) (lx : Lexer) :
    (lx.takeUntil stop).lexer.ahead = .unread := by
  fun_induction takeUntil stop lx with
  | case1 lx ht => exact ahead_next lx
  | case2 lx t ht hs => exact ahead_next lx
  | case3 lx t ht hs more ih => exact ih

theorem takes_next {lx : Lexer} (h : lx.ahead = .unread) :
    Takes lx lx.next.value.toList lx.next.lexer := by
  rw [next_of_unread h]
  exact ⟨h, tokens_produce lx⟩

theorem composes_takes :
    Composes fun lx ts _ lx' => lx.ahead = .unread → Takes lx ts lx' where
  refl _ := takes_nil
  next _ := takes_next
  trans h h' hu := (h hu).trans (h' (h hu).ahead_eq)

theorem takes_takeUntil (stop : Token → Bool) {lx : Lexer} (h : lx.ahead = .unread) :
    Takes lx (lx.takeUntil stop).value (lx.takeUntil stop).lexer :=
  composes_takes.takeUntil stop lx h

theorem takes_take (n : Nat) {lx : Lexer} (h : lx.ahead = .unread) :
    Takes lx (take n lx).value (take n lx).lexer :=
  composes_takes.take n lx h

/-- What is taken to the end are all tokens that are left. -/
theorem collect_value {lx : Lexer} (h : lx.ahead = .unread) :
    lx.collect.value = lx.cursor.tokens := by
  unfold collect
  fun_induction takeUntil (fun _ => false) lx with
  | case1 lx ht =>
    rw [next_of_unread h] at ht
    rw [Cursor.tokens_of_none ht]
  | case2 lx t ht hs => cases hs
  | case3 lx t ht hs more ih =>
    have hn := (takes_next h).ahead_eq
    rw [next_of_unread h] at ht
    rw [Cursor.tokens_of_some ht, ih hn, next_of_unread h]
    rfl

end SqlTokens.Lexer
