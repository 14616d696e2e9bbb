-- The law of places: a position says how many lines, columns and characters lie in
-- front of it, whatever was called to get there. So a token stands where its
-- offset says, and no two tokens stand at one place.
import SqlTokens.Proofs.Lookahead

namespace SqlTokens

open Trivia (Clear)
open Lexeme (Reads)

/-! ## Places and the text in front of them -/

namespace Position

/-- The place behind a text, counted from the text alone: its newlines, the characters behind
the last of them, and all its characters. -/
def behind (cs : List Char) : Position where
  line := 1 + cs.count '\n'
  column := 1 + (cs.reverse.takeWhile (· != '\n')).length
  offset := cs.length

/-- A place comes before another one in the text: it has fewer characters in front of it, and
it is on an earlier line, or on the same line in an earlier column. -/
structure Precedes (p q : Position) : Prop where
  offset_lt : p.offset < q.offset
  line_column_lt : p.line < q.line ∨ p.line = q.line ∧ p.column < q.column

theorem behind_concat (cs : List Char) (c : Char) : behind (cs ++ [c]) = (behind cs).step c := by
  by_cases h : c = '\n'
  · subst h
    simp [behind, step, Nat.add_assoc]
  · simp [behind, step, h, Nat.add_assoc, Nat.add_comm 1]

theorem past_behind (a b : List Char) : (behind a).past b = behind (a ++ b) := by
  induction b generalizing a with
  | nil => rw [past_nil, List.append_nil]
  | cons c b ih => rw [past_cons, ← behind_concat, ih, List.append_assoc, List.singleton_append]

/-- Moving along a text leads to the place behind it. -/
theorem past_start (cs : List Char) : start.past cs = behind cs := past_behind [] cs

theorem precedes_step (p : Position) (c : Char) : p.Precedes (p.step c) := by
  refine ⟨by rw [offset_step]; omega, ?_⟩
  unfold step
  split
  · exact Or.inl (Nat.lt_succ_self _)
  · exact Or.inr ⟨rfl, Nat.lt_succ_self _⟩

theorem Precedes.trans {p q r : Position} (h : p.Precedes q) (h' : q.Precedes r) :
    p.Precedes r := by
  obtain ⟨ho, hl⟩ := h
  obtain ⟨ho', hl'⟩ := h'
  refine ⟨Nat.lt_trans ho ho', ?_⟩
  omega

theorem precedes_past (p : Position) {cs : List Char} (h : cs ≠ []) : p.Precedes (p.past cs) := by
  induction cs generalizing p with
  | nil => exact absurd rfl h
  | cons c cs ih =>
    rw [past_cons]
    by_cases hcs : cs = []
    · subst hcs
      exact precedes_step p c
    · exact (precedes_step p c).trans (ih (p.step c) hcs)

end Position

/-! ## Calls on a cursor -/

namespace Cursor

/-- How many characters of the text are in front of the cursor. -/
def index (c : Cursor) : Nat := c.size - c.rest.length

/-- The characters that a call takes from the text, by its answer. All other calls look only. -/
def Call.taken : Call → Reply → List Char
  | .advance, .character c => c.toList
  | .consume _, .text cs => cs
  | .consumeWhile _, .text cs => cs
  | _, _ => []

/-- What the calls of a series take from the text, in order. -/
def taken (c : Cursor) (calls : List Call) : List Char :=
  (calls.zip (c.run calls)).flatMap fun (call, answer) => call.taken answer.1

/-- The cursor after a series of calls. -/
def after (c : Cursor) (calls : List Call) : Cursor :=
  ((c.run calls).getLast?.map (·.2)).getD c

/-- A cursor in a text whose position is counted from the characters in front of it. -/
structure Exact (cs : List Char) (c : Cursor) : Prop where
  index_le : c.index ≤ cs.length
  rest_eq : c.rest = cs.drop c.index
  offset_eq : c.position.offset = c.index
  line_eq : c.position.line = 1 + (cs.take c.index).count '\n'
  column_eq : c.position.column = 1 + ((cs.take c.index).reverse.takeWhile (· != '\n')).length

/-- The cursor stands in the text behind `front`. -/
structure Behind (cs front : List Char) (c : Cursor) : Prop where
  text_eq : cs = front ++ c.rest
  size_eq : c.size = cs.length
  position_eq : c.position = .behind front

theorem behind_ofText (cs : List Char) : (ofText cs).Behind cs [] := ⟨rfl, rfl, rfl⟩

theorem Behind.index_eq {cs front : List Char} {c : Cursor} (h : c.Behind cs front) :
    c.index = front.length := by
  rw [index, h.size_eq, h.text_eq, List.length_append, Nat.add_sub_cancel]

theorem Behind.take_index {cs front : List Char} {c : Cursor} (h : c.Behind cs front) :
    cs.take c.index = front := by
  rw [h.index_eq, h.text_eq, List.take_left]

theorem Behind.exact {cs front : List Char} {c : Cursor} (h : c.Behind cs front) :
    c.Exact cs := by
  refine ⟨?_, ?_, ?_, ?_, ?_⟩
  · rw [h.index_eq, h.text_eq, List.length_append]
    exact Nat.le_add_right _ _
  · rw [h.index_eq, h.text_eq, List.drop_left]
  · rw [h.index_eq, h.position_eq]
    rfl
  · rw [h.take_index, h.position_eq]
    rfl
  · rw [h.take_index, h.position_eq]
    rfl

/-- Moving on adds to the text in front, also when the text ends early. -/
theorem Behind.skip {cs front : List Char} {c : Cursor} (h : c.Behind cs front) (n : Nat) :
    (c.skip n).Behind cs (front ++ c.rest.take n) := by
  refine ⟨?_, h.size_eq, ?_⟩
  · rw [rest_skip, List.append_assoc, List.take_append_drop]
    exact h.text_eq
  · rw [← Position.past_behind, ← h.position_eq]
    rfl

theorem Behind.next {cs front : List Char} {c : Cursor} (h : c.Behind cs front) :
    ∃ front', c.next.2.Behind cs front' := by
  have htrivia := h.skip (Trivia.split c.rest).1.length
  unfold Cursor.next readToken
  split
  · exact ⟨_, htrivia⟩
  · exact ⟨_, htrivia.skip _⟩

/-- A cursor in a text is where its offset says. -/
theorem Behind.eq_skip {cs front : List Char} {c : Cursor} (h : c.Behind cs front) :
    c = (ofText cs).skip c.position.offset := by
  have hoff : c.position.offset = front.length := by rw [h.position_eq]; rfl
  obtain ⟨hrest, hpos⟩ := skip_append (c := ofText cs) h.text_eq
  have hstart : (ofText cs).position.past front = c.position := by
    rw [h.position_eq]
    exact Position.past_start front
  calc c = ⟨c.rest, c.position, c.size⟩ := rfl
    _ = (ofText cs).skip front.length := by rw [← hrest, ← hstart, ← hpos, h.size_eq]; rfl
    _ = (ofText cs).skip c.position.offset := by rw [hoff]

/-- What a call takes is added to the text in front. -/
theorem Behind.call {cs front : List Char} {c : Cursor} (h : c.Behind cs front) (saved : Cursor)
    {k : Call} (hk : k ≠ .restore) :
    (Cursor.call saved c k).2.Behind cs (front ++ k.taken (Cursor.call saved c k).1) := by
  have hstay : c.Behind cs (front ++ []) := by rwa [List.append_nil]
  cases k with
  | advance =>
    have hs := h.skip 1
    rwa [List.take_one] at hs
  | consume n => exact h.skip n
  | consumeWhile p => exact h.skip _
  | restore => exact absurd rfl hk
  | peek => exact hstay
  | peekAhead n => exact hstay
  | startsWith pat => exact hstay
  | findFrom n pat => exact hstay
  | size => exact hstay
  | isEmpty => exact hstay
  | isAtEnd => exact hstay
  | save => exact hstay

theorem after_eq (saved c : Cursor) (k : Call) (calls : List Call) :
    ((runFrom saved c (k :: calls)).getLast?.map (·.2)).getD c =
      ((runFrom (savedAfter saved c k) (Cursor.call saved c k).2 calls).getLast?.map
        (·.2)).getD (Cursor.call saved c k).2 := by
  simp only [runFrom, List.getLast?_cons]
  cases (runFrom (savedAfter saved c k) (Cursor.call saved c k).2 calls).getLast? <;> rfl

/-- A series without a way back takes the text from its front. -/
theorem Behind.run {cs front : List Char} {c : Cursor} (h : c.Behind cs front) (saved : Cursor)
    {calls : List Call} (hcalls : ∀ k ∈ calls, k ≠ .restore) :
    (((runFrom saved c calls).getLast?.map (·.2)).getD c).Behind cs
      (front ++ (calls.zip (runFrom saved c calls)).flatMap fun (k, answer) =>
        k.taken answer.1) := by
  induction calls generalizing saved c front with
  | nil => simpa [runFrom] using h
  | cons k calls ih =>
    rw [List.forall_mem_cons] at hcalls
    have hnext := ih (h.call saved hcalls.1) (savedAfter saved c k) hcalls.2
    rw [List.append_assoc] at hnext
    rw [after_eq]
    exact hnext

/-- The way back leads to a place in the text, too. -/
theorem exists_behind_run {cs : List Char} {saved c : Cursor}
    (hs : ∃ front, saved.Behind cs front) (hc : ∃ front, c.Behind cs front) (calls : List Call) :
    ∃ front, (((runFrom saved c calls).getLast?.map (·.2)).getD c).Behind cs front := by
  induction calls generalizing saved c with
  | nil => exact hc
  | cons k calls ih =>
    rw [after_eq]
    apply ih
    · cases k with
      | save => exact hc
      | _ => exact hs
    · obtain ⟨front, hf⟩ := hc
      by_cases hk : k = .restore
      · subst hk
        exact hs
      · exact ⟨_, hf.call saved hk⟩

theorem exact_after (cs : List Char) (calls : List Call) :
    ((ofText cs).after calls).Exact cs := by
  obtain ⟨front, hf⟩ := exists_behind_run ⟨[], behind_ofText cs⟩ ⟨[], behind_ofText cs⟩ calls
  exact hf.exact

theorem taken_eq (cs : List Char) {calls : List Call} (h : ∀ k ∈ calls, k ≠ .restore) :
    (ofText cs).taken calls = cs.take ((ofText cs).after calls).index := by
  have hb := (behind_ofText cs).run (ofText cs) h
  rw [List.nil_append] at hb
  exact hb.take_index.symm

end Cursor

/-! ## Tokens in a text -/

/-- A token stands in a text where its offset says: behind the trivia, in front of the lexeme
that it was read from. -/
structure Token.StandsIn (cs : List Char) (t : Token) : Prop where
  position_eq : t.position = .behind (cs.take t.position.offset)
  behind_trivia : Clear (cs.drop t.position.offset)
  reads : ∃ w, Reads (cs.drop t.position.offset) w t.kind t.value

theorem Cut.standsIn {cs : List Char} {ps : List Piece} {p : Position} (h : Cut p cs ps) :
    ∀ front, p = .behind front → ∀ t ∈ ps.map (·.token), t.StandsIn (front ++ cs) := by
  induction h with
  | done _ =>
    intro front _ t ht
    cases ht
  | @piece p g w rest kind value ps _ hc hw _ ih =>
    rintro front rfl t ht
    rw [List.map_cons, List.mem_cons] at ht
    rcases ht with rfl | ht
    · have hoff : ((Position.behind front).past g).offset = (front ++ g).length := by
        rw [Position.past_behind]
        rfl
      have htext : front ++ (g ++ (w ++ rest)) = (front ++ g) ++ (w ++ rest) := by
        rw [List.append_assoc]
      refine ⟨?_, ?_, w, ?_⟩
      · rw [hoff, htext, List.take_left, Position.past_behind]
      · rwa [hoff, htext, List.drop_left]
      · rwa [hoff, htext, List.drop_left]
    · have hnext := ih (front ++ (g ++ w)) (Position.past_behind front (g ++ w)) t ht
      rwa [List.append_assoc, List.append_assoc] at hnext

/-- Every token of a cut stands behind a stretch of the text. -/
theorem Cut.exists_past {p : Position} {cs : List Char} {ps : List Piece} (h : Cut p cs ps) :
    ∀ t ∈ ps.map (·.token), ∃ a, t.position = p.past a := by
  induction h with
  | done _ =>
    intro t ht
    cases ht
  | @piece p g w rest kind value ps _ _ _ _ ih =>
    intro t ht
    rw [List.map_cons, List.mem_cons] at ht
    rcases ht with rfl | ht
    · exact ⟨g, rfl⟩
    · obtain ⟨a, ha⟩ := ih t ht
      refine ⟨(g ++ w) ++ a, ?_⟩
      rw [ha, ← Position.past_append]

theorem Cut.pairwise_precedes {p : Position} {cs : List Char} {ps : List Piece} (h : Cut p cs ps) :
    (ps.map (·.token)).Pairwise fun s t => s.position.Precedes t.position := by
  induction h with
  | done _ => exact List.Pairwise.nil
  | @piece p g w rest kind value ps _ _ hw hcut ih =>
    rw [List.map_cons, List.pairwise_cons]
    refine ⟨?_, ih⟩
    intro t ht
    obtain ⟨a, ha⟩ := hcut.exists_past t ht
    rw [ha, ← Position.past_append, List.append_assoc, Position.past_append]
    exact Position.precedes_past _ (List.append_ne_nil_of_left_ne_nil hw.ne_nil a)

theorem standsIn_of_mem_stream {cs : List Char} {t : Token} (h : t ∈ stream cs) :
    t.StandsIn cs := by
  rw [← map_token_pieces] at h
  exact (pieces_eq_iff.1 rfl).standsIn [] rfl t h

theorem pairwise_precedes_stream (cs : List Char) :
    (stream cs).Pairwise fun s t => s.position.Precedes t.position := by
  rw [← map_token_pieces]
  exact (pieces_eq_iff.1 rfl).pairwise_precedes

/-! ## Where a lexer stands -/

namespace Lexer

theorem composes_behind (cs : List Char) :
    Composes fun lx _ _ lx' => (∃ front, lx.cursor.Behind cs front) →
      ∃ front, lx'.cursor.Behind cs front where
  refl _ hb := hb
  next lx := by
    rintro ⟨front, hf⟩
    rcases ha : lx.ahead with _ | t
    · rw [next_of_unread ha]
      exact hf.next
    · simp only [Lexer.next, ha]
      exact ⟨front, hf⟩
  trans h h' hb := h' (h hb)

theorem exists_behind_takeUntil (stop : Token → Bool) {cs : List Char} {lx : Lexer}
    (hb : ∃ front, lx.cursor.Behind cs front) :
    ∃ front, (lx.takeUntil stop).lexer.cursor.Behind cs front :=
  (composes_behind cs).takeUntil stop lx hb

theorem exists_behind_peek {cs : List Char} {lx : Lexer} (hb : ∃ front, lx.cursor.Behind cs front) :
    ∃ front, lx.peek.lexer.cursor.Behind cs front := by
  rcases ha : lx.ahead with _ | t
  · obtain ⟨front, hf⟩ := hb
    simp only [Lexer.peek, ha]
    exact hf.next
  · simp only [Lexer.peek, ha]
    exact hb

/-- No call leads out of the text. -/
theorem exists_behind_call {cs : List Char} {lx : Lexer} (hb : ∃ front, lx.cursor.Behind cs front)
    (c : Call) : ∃ front, (lx.call c).lexer.cursor.Behind cs front := by
  cases c with
  | next => exact (composes_behind cs).next lx hb
  | peek => exact exists_behind_peek hb
  | isAtEnd => exact exists_behind_peek hb
  | position => exact hb
  | settings => exact hb
  | tokenize => exact exists_behind_takeUntil _ hb
  | collect => exact exists_behind_takeUntil _ hb
  | take n => exact (composes_behind cs).take n lx hb

end Lexer

/-! ## Tokens that a lexer shows -/

namespace Lexer

/-- A lexer somewhere in a text: it has the last tokens of the text to give, and may have
looked at the first of them. -/
def Within (cs : List Char) (lx : Lexer) : Prop :=
  ∃ lx₀ : Lexer, lx₀.ahead = .unread ∧ lx₀.cursor.tokens <:+ stream cs ∧ Ahead lx₀ lx

theorem Opened.within {cs : List Char} {lx : Lexer} (h : lx.Opened cs) : lx.Within cs := by
  refine ⟨lx, h.ahead_eq, ?_, Or.inl rfl⟩
  rw [h.cursor_eq]
  exact List.suffix_rfl

theorem delivered_of_not_takes {lx : Lexer} {c : Call} (hl : c.looks = false)
    (ht : c.takes = false) : (lx.call c).value.delivered = [] := by
  cases c with
  | position => rfl
  | settings => rfl
  | peek => cases hl
  | isAtEnd => cases hl
  | _ => cases ht

theorem Within.call {cs : List Char} {lx : Lexer} (h : lx.Within cs) (c : Call) :
    (lx.call c).lexer.Within cs ∧ ∀ t ∈ (lx.call c).value.delivered, t ∈ stream cs := by
  obtain ⟨lx₀, hu, hs, ha⟩ := h
  by_cases hl : c.looks = true
  · refine ⟨⟨lx₀, hu, hs, ha.call_looks hl⟩, ?_⟩
    cases c with
    | peek =>
      intro t ht
      have ht' : t ∈ lx₀.next.value.toList := by
        rw [← ha.next_value, ← peek_value]
        exact ht
      apply hs.subset
      rw [(takes_next hu).tokens_eq]
      exact List.mem_append_left _ ht'
    | isAtEnd =>
      intro t ht
      cases ht
    | _ => cases hl
  · have hl' : c.looks = false := by simpa using hl
    have ht := takes_call hu hl'
    have hmem : ∀ t ∈ (if c.takes then (lx₀.call c).value.delivered else []), t ∈ stream cs := by
      intro t hd
      apply hs.subset
      rw [ht.tokens_eq]
      exact List.mem_append_left _ hd
    refine ⟨⟨(lx₀.call c).lexer, ht.ahead_eq, ?_, ha.call_lexer hl'⟩, ?_⟩
    · refine List.IsSuffix.trans ?_ hs
      rw [ht.tokens_eq]
      exact List.suffix_append _ _
    · by_cases hc : c.takes = true
      · rw [if_pos hc] at hmem
        rwa [ha.call_value hc]
      · rw [delivered_of_not_takes hl' (by simpa using hc)]
        intro t hd
        cases hd

/-- Every token that is shown, taken or only looked at, is a token of the text. -/
theorem Within.run {cs : List Char} {lx : Lexer} (h : lx.Within cs) (calls : List Call) :
    ∀ o ∈ lx.run calls, ∀ t ∈ o.value.delivered, t ∈ stream cs := by
  induction calls generalizing lx with
  | nil =>
    intro o ho
    cases ho
  | cons c calls ih =>
    intro o ho
    rw [Lexer.run, List.mem_cons] at ho
    rcases ho with rfl | ho
    · exact (h.call c).2
    · exact ih (h.call c).1 o ho

theorem Opened.delivered_sublist {cs : List Char} {lx : Lexer} (h : lx.Opened cs)
    (calls : List Call) : (lx.delivered calls).Sublist (stream cs) := by
  have hc : ∀ c ∈ withoutLooks calls, c.looks = false := by
    intro c hc
    simpa using (List.mem_filter.1 hc).2
  have hp := delivered_prefix h.ahead_eq hc
  rw [← delivered_withoutLooks, h.cursor_eq] at hp
  exact hp.sublist

end Lexer

/-! ## The laws -/

/-- Positions in a text are exact, for those who read characters and those who read tokens. -/
structure PositionsAreExact (cs : List Char) : Prop where
  /-- Any series of calls leads to a place that is counted from the text in front of it. -/
  exact_after : ∀ calls, ((Cursor.ofText cs).after calls).Exact cs
  /-- Without a way back, the calls have taken just the text in front of that place. -/
  taken_eq : ∀ calls : List Cursor.Call, (∀ k ∈ calls, k ≠ .restore) →
    (Cursor.ofText cs).taken calls = cs.take ((Cursor.ofText cs).after calls).position.offset
  /-- The tokens that a lexer shows, taken or only looked at, stand where their offsets say. -/
  standsIn : ∀ lx, Lexer.Opened cs lx → ∀ calls, ∀ o ∈ lx.run calls,
    ∀ t ∈ o.value.delivered, t.StandsIn cs
  /-- Of two tokens taken one after the other, the first one stands before the second. -/
  pairwise_precedes : ∀ lx, Lexer.Opened cs lx → ∀ calls,
    (lx.delivered calls).Pairwise fun s t => s.position.Precedes t.position

/-- In every text, whatever is called, positions are exact. -/
theorem positions_are_exact (cs : List Char) : PositionsAreExact cs := by
  refine ⟨Cursor.exact_after cs, ?_, ?_, ?_⟩
  · intro calls h
    rw [Cursor.taken_eq cs h, (Cursor.exact_after cs calls).offset_eq]
  · intro lx hlx calls o ho t ht
    exact standsIn_of_mem_stream (hlx.within.run calls o ho t ht)
  · intro lx hlx calls
    exact (pairwise_precedes_stream cs).sublist (hlx.delivered_sublist calls)

/-- A comment, a quoted text over two lines, and a read that asks for more than is left. -/
theorem positions_in_three_lines_are_exact :
    ((Cursor.ofText "-- x\n'a\nb'".toList).after
        [.consumeWhile (· != '\''), .peek, .advance, .save, .consume 99]).position = ⟨3, 3, 10⟩ ∧
      (Cursor.ofText "-- x\n'a\nb'".toList).taken
        [.consumeWhile (· != '\''), .peek, .advance, .save, .consume 99] =
          "-- x\n'a\nb'".toList.take 10 ∧
      (Lexer.ofText "-- x\n'a\nb'".toList).delivered [.peek, .collect] =
        [⟨.literal .string, .text "a\nb", ⟨2, 1, 5⟩⟩] ∧
      PositionsAreExact "-- x\n'a\nb'".toList := by
  have hexact := positions_are_exact "-- x\n'a\nb'".toList
  refine ⟨by decide +kernel, ?_, by decide +kernel, hexact⟩
  exact hexact.taken_eq _ (by simp)

end SqlTokens
