-- The law of resuming: a lexer reads on from the place where it stands as a new lexer
-- reads the text that is left. Nothing of what it has read is remembered; only the
-- places of the tokens differ, and their columns on the first line alone.
import SqlTokens.Proofs.Places
import SqlTokens.Proofs.Records

namespace SqlTokens

/-! ## Places in a part of a text -/

/-- The place in the whole text of what stands at `q` in the part of it that starts at `p`. Columns
on the first line of that part count on from `p`, those on later lines are the same. -/
def Position.resume (p q : Position) : Position where
  line := q.line + (p.line - 1)
  column := if q.line = 1 then q.column + (p.column - 1) else q.column
  offset := q.offset + p.offset

/-- A token of the part of a text that starts at `p`, as a token of the whole text. -/
def Token.resume (p : Position) (t : Token) : Token :=
  { t with position := p.resume t.position }

namespace Position

theorem line_pos_step {q : Position} (h : 0 < q.line) (c : Char) : 0 < (q.step c).line := by
  unfold step
  split
  · exact Nat.succ_pos _
  · exact h

theorem resume_step (p : Position) {q : Position} (h : 0 < q.line) (c : Char) :
    p.resume (q.step c) = (p.resume q).step c := by
  unfold step
  split
  · have hline : q.line + 1 ≠ 1 := by omega
    simp only [resume, if_neg hline, Nat.add_right_comm]
  · simp only [resume, Position.mk.injEq, true_and]
    refine ⟨?_, Nat.add_right_comm _ _ _⟩
    split
    · exact Nat.add_right_comm _ _ _
    · rfl

/-- Both places move alike along a text. -/
theorem resume_past (p : Position) {q : Position} (h : 0 < q.line) (cs : List Char) :
    p.resume (q.past cs) = (p.resume q).past cs := by
  induction cs generalizing q with
  | nil => rfl
  | cons c cs ih => rw [past_cons, past_cons, ih (line_pos_step h c), resume_step p h]

/-- The part starts where it starts. -/
theorem resume_start (front : List Char) : (behind front).resume start = behind front := by
  unfold behind resume start
  simp only [Position.mk.injEq, if_true]
  omega

end Position

/-! ## The text that is left -/

/-- What is left of a text is cut like a new text. -/
theorem Cursor.Behind.tokens_eq {cs front : List Char} {c : Cursor} (h : c.Behind cs front) :
    c.tokens = (stream c.rest).map (Token.resume c.position) := by
  have hcut : Cut .start c.rest (SqlTokens.pieces c.rest) := pieces_eq_iff.1 rfl
  obtain ⟨ps, hps, htokens⟩ := hcut.moved fun a =>
    Position.resume_past c.position (q := .start) Nat.one_pos a
  rw [h.position_eq, Position.resume_start, ← h.position_eq] at hps
  rw [← Cursor.map_token_pieces, hps.pieces_eq c rfl rfl, htokens, SqlTokens.map_token_pieces]
  rfl

theorem Lexer.exists_behind_after {cs : List Char} {lx : Lexer}
    (hb : ∃ front, lx.cursor.Behind cs front) (calls : List Lexer.Call) :
    ∃ front, (lx.after calls).cursor.Behind cs front := by
  induction calls generalizing lx with
  | nil => exact hb
  | cons c calls ih =>
    rw [after_cons]
    exact ih (exists_behind_call hb c)

/-! ## The law -/

/-- Wherever a series of calls has led, if no token is read ahead there, the tokens that are left are
those of a new lexer on the text that is left, with its settings whatever they are. -/
theorem reading_can_be_resumed {cs : List Char} {lx fresh : Lexer} {calls : List Lexer.Call}
    (h : lx.Opened cs) (hempty : (lx.after calls).ahead = .unread)
    (hfresh : fresh.Opened (cs.drop (lx.after calls).position.offset)) :
    (lx.after calls).collect.value =
      fresh.collect.value.map (Token.resume (lx.after calls).position) := by
  have hstart : ∃ front, lx.cursor.Behind cs front := by
    rw [h.cursor_eq]
    exact ⟨[], Cursor.behind_ofText cs⟩
  obtain ⟨front, hb⟩ := Lexer.exists_behind_after hstart calls
  have hrest : cs.drop (lx.after calls).position.offset = (lx.after calls).cursor.rest := by
    rw [Lexer.position, hb.exact.offset_eq, hb.exact.rest_eq]
  rw [Lexer.collect_value hempty, Lexer.collect_value hfresh.ahead_eq, hfresh.cursor_eq, hrest,
    hb.tokens_eq]
  rfl

/-- Behind a text over two lines and an error, in the middle of a line. -/
theorem reading_can_be_resumed_behind_an_error :
    ((Lexer.ofText "'a\nb' ! c\nd".toList).after [.isAtEnd, .tokenize]).position = ⟨2, 5, 7⟩ ∧
      ((Lexer.ofText "'a\nb' ! c\nd".toList).after [.isAtEnd, .tokenize]).ahead = .unread ∧
      (Lexer.ofText " c\nd".toList).collect.value =
        [⟨.identifier, .text "c", ⟨1, 2, 1⟩⟩, ⟨.identifier, .text "d", ⟨2, 1, 3⟩⟩] ∧
      ((Lexer.ofText "'a\nb' ! c\nd".toList).after [.isAtEnd, .tokenize]).collect.value =
        [⟨.identifier, .text "c", ⟨2, 6, 8⟩⟩, ⟨.identifier, .text "d", ⟨3, 1, 10⟩⟩] := by
  have hempty : ((Lexer.ofText "'a\nb' ! c\nd".toList).after [.isAtEnd, .tokenize]).ahead =
      .unread := by decide +kernel
  have hposition : ((Lexer.ofText "'a\nb' ! c\nd".toList).after [.isAtEnd, .tokenize]).position =
      ⟨2, 5, 7⟩ := by decide +kernel
  have hfresh : (Lexer.ofText " c\nd".toList).collect.value =
      [⟨.identifier, .text "c", ⟨1, 2, 1⟩⟩, ⟨.identifier, .text "d", ⟨2, 1, 3⟩⟩] := by
    decide +kernel
  have hopened : Lexer.Opened " c\nd".toList (.ofText " c\nd".toList) := .ofText
  refine ⟨hposition, hempty, hfresh, ?_⟩
  rw [reading_can_be_resumed .ofText hempty (by rwa [hposition]), hfresh, hposition]
  rfl

end SqlTokens
