-- The law of lookahead: looking at the next token changes nothing for those who
-- take tokens. A lexer that has looked and one that has not go the same way,
-- and the first take that asks for a token makes them equal.
import SqlTokens.Proofs.Calls

namespace SqlTokens.Lexer

/-! ## Series of calls -/

/-- The call only looks at the next token. -/
def Call.looks : Call → Bool
  | .peek | .isAtEnd => true
  | _ => false

/-- The call takes tokens. -/
def Call.takes : Call → Bool
  | .next | .tokenize | .collect | .take _ => true
  | _ => false

/-- The call takes tokens, and asks for one at least. -/
def Call.moves : Call → Bool
  | .take n => decide (0 < n)
  | c => c.takes

/-- The series without the calls that only look. -/
def withoutLooks (calls : List Call) : List Call := calls.filter (!·.looks)

/-- The lexer after a series of calls. -/
def after (lx : Lexer) (calls : List Call) : Lexer :=
  calls.foldl (fun lx c => (lx.call c).lexer) lx

/-- What the calls of a series answer. -/
def answers (lx : Lexer) (calls : List Call) : List Reply := (lx.run calls).map (·.value)

/-- Something about the outcome of each call of one sort. -/
def observe {α : Type} (sort : Call → Bool) (f : Outcome Reply → α) (lx : Lexer)
    (calls : List Call) : List α :=
  ((calls.zip (lx.run calls)).filter (sort ·.1)).map (f ·.2)

/-- The tokens that an answer hands out. -/
def Reply.delivered : Reply → List Token
  | .token t => t.toList
  | .tokens ts => ts
  | _ => []

/-- The tokens that the calls of a series take, in order. -/
def delivered (lx : Lexer) (calls : List Call) : List Token :=
  (lx.observe Call.takes (·.value.delivered) calls).flatten

theorem observe_cons {α : Type} (sort : Call → Bool) (f : Outcome Reply → α) (lx : Lexer)
    (c : Call) (calls : List Call) :
    lx.observe sort f (c :: calls) =
      if sort c then f (lx.call c) :: (lx.call c).lexer.observe sort f calls
      else (lx.call c).lexer.observe sort f calls := by
  simp only [observe, run, List.zip_cons_cons, List.filter_cons]
  split <;> rfl

theorem after_cons (lx : Lexer) (c : Call) (calls : List Call) :
    lx.after (c :: calls) = (lx.call c).lexer.after calls := rfl

theorem withoutLooks_cons (c : Call) (calls : List Call) :
    withoutLooks (c :: calls) =
      if c.looks then withoutLooks calls else c :: withoutLooks calls := by
  simp only [withoutLooks, List.filter_cons]
  cases c.looks <;> rfl

/-! ## One look -/

theorem peek_value (lx : Lexer) : lx.peek.value = lx.next.value := by
  obtain ⟨cursor, settings, ahead⟩ := lx
  cases ahead <;> rfl

theorem next_peek_value (lx : Lexer) : lx.peek.lexer.next.value = lx.next.value := by
  obtain ⟨cursor, settings, ahead⟩ := lx
  cases ahead <;> rfl

theorem next_peek_lexer (lx : Lexer) : lx.peek.lexer.next.lexer = lx.next.lexer := by
  obtain ⟨cursor, settings, ahead⟩ := lx
  cases ahead <;> rfl

theorem peek_peek_lexer (lx : Lexer) : lx.peek.lexer.peek.lexer = lx.peek.lexer := by
  obtain ⟨cursor, settings, ahead⟩ := lx
  cases ahead <;> rfl

theorem settings_peek (lx : Lexer) : lx.peek.lexer.settings = lx.settings := by
  obtain ⟨cursor, settings, ahead⟩ := lx
  cases ahead <;> rfl

/-! ## A lexer that may have looked -/

/-- The second lexer is the first one, or the first one after a look. -/
def Ahead (lx lx' : Lexer) : Prop := lx' = lx ∨ lx' = lx.peek.lexer

theorem Ahead.next_value {lx lx' : Lexer} (h : Ahead lx lx') : lx'.next.value = lx.next.value := by
  rcases h with rfl | rfl
  · rfl
  · exact next_peek_value lx

theorem Ahead.next_lexer {lx lx' : Lexer} (h : Ahead lx lx') : lx'.next.lexer = lx.next.lexer := by
  rcases h with rfl | rfl
  · rfl
  · exact next_peek_lexer lx

theorem Ahead.settings_eq {lx lx' : Lexer} (h : Ahead lx lx') : lx'.settings = lx.settings := by
  rcases h with rfl | rfl
  · rfl
  · exact settings_peek lx

theorem Ahead.peek {lx lx' : Lexer} (h : Ahead lx lx') : Ahead lx lx'.peek.lexer := by
  rcases h with rfl | rfl
  · exact Or.inr rfl
  · exact Or.inr (peek_peek_lexer lx)

theorem Ahead.takeUntil {lx lx' : Lexer} (h : Ahead lx lx') (stop : Token → Bool) :
    (lx'.takeUntil stop).value = (lx.takeUntil stop).value ∧
      (lx'.takeUntil stop).lexer = (lx.takeUntil stop).lexer := by
  rcases ht : lx.next.value with _ | t
  · rw [takeUntil_of_none ht, takeUntil_of_none (h.next_value.trans ht)]
    exact ⟨rfl, h.next_lexer⟩
  · rw [takeUntil_of_some ht, takeUntil_of_some (h.next_value.trans ht), h.next_lexer]
    split
    · exact ⟨rfl, rfl⟩
    · exact ⟨rfl, rfl⟩

theorem Ahead.take_succ {lx lx' : Lexer} (h : Ahead lx lx') (n : Nat) :
    (Lexer.take (n + 1) lx').value = (Lexer.take (n + 1) lx).value ∧
      (Lexer.take (n + 1) lx').lexer = (Lexer.take (n + 1) lx).lexer := by
  rcases ht : lx.next.value with _ | t
  · rw [take_succ_of_none ht, take_succ_of_none (h.next_value.trans ht)]
    exact ⟨rfl, h.next_lexer⟩
  · rw [take_succ_of_some ht, take_succ_of_some (h.next_value.trans ht), h.next_lexer]
    exact ⟨rfl, rfl⟩

/-- A take that asks for a token ends alike, whether there was a look or not. -/
theorem Ahead.call_of_moves {lx lx' : Lexer} (h : Ahead lx lx') {c : Call}
    (hc : c.moves = true) :
    (lx'.call c).value = (lx.call c).value ∧ (lx'.call c).lexer = (lx.call c).lexer := by
  cases c with
  | next => exact ⟨congrArg Reply.token h.next_value, h.next_lexer⟩
  | tokenize =>
    obtain ⟨hv, hl⟩ := h.takeUntil fun t => t.isError && lx.settings.stopOnError
    simp only [Lexer.call, Lexer.tokenize, Outcome.map, h.settings_eq, hv, hl, and_self]
  | collect =>
    obtain ⟨hv, hl⟩ := h.takeUntil fun _ => false
    exact ⟨congrArg Reply.tokens hv, hl⟩
  | take n =>
    cases n with
    | zero => cases hc
    | succ n =>
      obtain ⟨hv, hl⟩ := h.take_succ n
      exact ⟨congrArg Reply.tokens hv, hl⟩
  | peek => cases hc
  | isAtEnd => cases hc
  | position => cases hc
  | settings => cases hc

theorem Ahead.call_value {lx lx' : Lexer} (h : Ahead lx lx') {c : Call} (hc : c.takes = true) :
    (lx'.call c).value = (lx.call c).value := by
  by_cases hm : c.moves = true
  · exact (h.call_of_moves hm).1
  · cases c with
    | take n =>
      have hn : n = 0 := by simpa [Call.moves] using hm
      subst hn
      rfl
    | _ => exact absurd hc hm

/-- The two lexers go the same way. -/
theorem Ahead.call_lexer {lx lx' : Lexer} (h : Ahead lx lx') {c : Call} (hc : c.looks = false) :
    Ahead (lx.call c).lexer (lx'.call c).lexer := by
  by_cases hm : c.moves = true
  · exact Or.inl (h.call_of_moves hm).2
  · cases c with
    | take n =>
      have hn : n = 0 := by simpa [Call.moves] using hm
      subst hn
      exact h
    | position => exact h
    | settings => exact h
    | peek => cases hc
    | isAtEnd => cases hc
    | _ => exact absurd rfl hm

theorem Ahead.call_looks {lx lx' : Lexer} (h : Ahead lx lx') {c : Call} (hc : c.looks = true) :
    Ahead lx (lx'.call c).lexer := by
  cases c with
  | peek => exact h.peek
  | isAtEnd => exact h.peek
  | _ => cases hc

/-! ## A series of calls without its looks -/

/-- What the two lexers show alike, call by call, they show alike along a series. -/
theorem Ahead.observe_eq {α : Type} {sort : Call → Bool} {f : Outcome Reply → α}
    (hsort : ∀ c, sort c = true → c.looks = false)
    (hf : ∀ c lx lx', sort c = true → Ahead lx lx' → f (lx'.call c) = f (lx.call c))
    {lx lx' : Lexer} (h : Ahead lx lx') (calls : List Call) :
    lx'.observe sort f calls = lx.observe sort f (withoutLooks calls) := by
  induction calls generalizing lx lx' with
  | nil => rfl
  | cons c calls ih =>
    rw [observe_cons, withoutLooks_cons]
    by_cases hl : c.looks = true
    · have hs : sort c = false := by
        rw [← Bool.not_eq_true]
        intro hs
        rw [hsort c hs] at hl
        cases hl
      rw [if_pos hl, hs]
      exact ih (h.call_looks hl)
    · have hl' : c.looks = false := by simpa using hl
      rw [if_neg hl, observe_cons, ih (h.call_lexer hl')]
      by_cases hs : sort c = true
      · rw [if_pos hs, if_pos hs, hf c lx lx' hs h]
      · rw [if_neg hs, if_neg hs]

theorem looks_of_takes {c : Call} (h : c.takes = true) : c.looks = false := by
  cases c <;> simp_all [Call.takes, Call.looks]

theorem observe_withoutLooks {α : Type} {sort : Call → Bool} {f : Outcome Reply → α}
    (hsort : ∀ c, sort c = true → c.looks = false)
    (hf : ∀ c lx lx', sort c = true → Ahead lx lx' → f (lx'.call c) = f (lx.call c))
    (lx : Lexer) (calls : List Call) :
    lx.observe sort f calls = lx.observe sort f (withoutLooks calls) :=
  Ahead.observe_eq hsort hf (Or.inl rfl) calls

/-! ## A look in the place of a take -/

/-- Only the calls before it decide the outcome of a call. -/
theorem getElem?_run {i : Nat} {calls : List Call} {c : Call} (lx : Lexer)
    (h : calls[i]? = some c) :
    (lx.run calls)[i]? = some ((lx.after (calls.take i)).call c) := by
  induction calls generalizing i lx with
  | nil => cases h
  | cons a calls ih =>
    cases i with
    | zero =>
      cases h
      rfl
    | succ i => exact ih (lx.call a).lexer h

theorem takes_call {lx : Lexer} (h : lx.ahead = .unread) {c : Call} (hc : c.looks = false) :
    Takes lx (if c.takes then (lx.call c).value.delivered else []) (lx.call c).lexer := by
  cases c with
  | next => exact takes_next h
  | tokenize => exact takes_takeUntil _ h
  | collect => exact takes_takeUntil _ h
  | take n => exact takes_take n h
  | position => exact takes_nil h
  | settings => exact takes_nil h
  | peek => cases hc
  | isAtEnd => cases hc

theorem delivered_cons (lx : Lexer) (c : Call) (calls : List Call) :
    lx.delivered (c :: calls) =
      (if c.takes then (lx.call c).value.delivered else []) ++
        (lx.call c).lexer.delivered calls := by
  rw [delivered, observe_cons]
  split
  · rw [List.flatten_cons]
    rfl
  · rfl

/-- A series without looks takes tokens from the front of those that are left. -/
theorem delivered_prefix {lx : Lexer} (h : lx.ahead = .unread) {calls : List Call}
    (hc : ∀ c ∈ calls, c.looks = false) : lx.delivered calls <+: lx.cursor.tokens := by
  induction calls generalizing lx with
  | nil => exact List.nil_prefix
  | cons c calls ih =>
    rw [List.forall_mem_cons] at hc
    have ht := takes_call h hc.1
    rw [delivered_cons, ht.tokens_eq, List.prefix_append_right_inj]
    exact ih ht.ahead_eq hc.2

theorem delivered_withoutLooks (lx : Lexer) (calls : List Call) :
    lx.delivered calls = lx.delivered (withoutLooks calls) := by
  unfold delivered
  rw [observe_withoutLooks (fun c => looks_of_takes)]
  intro c lx lx' hc h
  exact congrArg Reply.delivered (h.call_value hc)

/-! ## The laws -/

end SqlTokens.Lexer
