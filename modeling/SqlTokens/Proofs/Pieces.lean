-- A text cut into pieces, each a gap and the lexeme behind it. The cut follows
-- from the text alone: it is the one that the gaps and the grammar allow, and
-- its tokens are the tokens of the text.
import SqlTokens.Proofs.Gap
import SqlTokens.Proofs.Grammar

namespace SqlTokens

open Trivia (Gap Clear)
open Lexeme (Reads)

/-- A token, with the stretch of text that it was read from and the gap in front of it. -/
structure Piece where
  gap : List Char
  lexeme : List Char
  token : Token
  deriving DecidableEq

namespace Cursor

/-! ## Moving a cursor -/

theorem skip_skip (c : Cursor) (m n : Nat) : (c.skip m).skip n = c.skip (m + n) := by
  simp only [skip, List.drop_drop, List.take_add, Position.past_append]

/-- The cursor behind a stretch of the text. -/
theorem skip_append {c : Cursor} {a rest : List Char} (h : c.rest = a ++ rest) :
    (c.skip a.length).rest = rest ∧ (c.skip a.length).position = c.position.past a := by
  simp only [skip, h, List.drop_left, List.take_left, and_self]

/-- The text between a cursor and a later one. -/
def upTo (c d : Cursor) : List Char := c.rest.take (c.rest.length - d.rest.length)

theorem upTo_skip {c : Cursor} {a rest : List Char} (h : c.rest = a ++ rest) :
    c.upTo (c.skip a.length) = a := by
  rw [upTo, rest_skip, h, List.drop_left, List.length_append, Nat.add_sub_cancel, List.take_left]

/-- The pieces from the cursor to the end of the text. -/
def pieces (c : Cursor) : List Piece :=
  match _h : c.next.1 with
  | none => []
  | some t => ⟨c.upTo c.skipTrivia, c.skipTrivia.upTo c.next.2, t⟩ :: pieces c.next.2
termination_by c.rest.length
decreasing_by exact length_next_lt _h

theorem pieces_of_none {c : Cursor} (h : c.next.1 = none) : c.pieces = [] := by
  rw [pieces]
  split
  · rfl
  · rename_i t ht
    rw [h] at ht
    cases ht

theorem pieces_of_some {c : Cursor} {t : Token} (h : c.next.1 = some t) :
    c.pieces = ⟨c.upTo c.skipTrivia, c.skipTrivia.upTo c.next.2, t⟩ :: c.next.2.pieces := by
  rw [pieces]
  split
  · rename_i ht
    rw [h] at ht
    cases ht
  · rename_i t' ht
    rw [h] at ht
    cases ht
    rfl

theorem tokens_of_none {c : Cursor} (h : c.next.1 = none) : c.tokens = [] := by
  rw [tokens]
  split
  · rfl
  · rename_i t ht
    rw [h] at ht
    cases ht

theorem tokens_of_some {c : Cursor} {t : Token} (h : c.next.1 = some t) :
    c.tokens = t :: c.next.2.tokens := by
  rw [tokens]
  split
  · rename_i ht
    rw [h] at ht
    cases ht
  · rename_i t' ht
    rw [h] at ht
    cases ht
    rfl

/-- The pieces hold the tokens, one each. -/
theorem map_token_pieces (c : Cursor) : c.pieces.map (·.token) = c.tokens := by
  fun_induction pieces c with
  | case1 c h => rw [tokens_of_none h, List.map_nil]
  | case2 c t h ih => rw [tokens_of_some h, List.map_cons, ih]

/-! ## What the next token can be -/

theorem skipTrivia_of_gap {c : Cursor} {g rest : List Char} (hr : c.rest = g ++ rest)
    (hg : Gap g rest) (hc : Clear rest) : c.skipTrivia = c.skip g.length := by
  rw [skipTrivia, Trivia.split_eq_iff.2 ⟨hr, hg, hc⟩]

theorem clear_nil : Clear [] := by
  rw [Trivia.clear_iff]
  rfl

/-- A gap up to the end of the text leaves no token. -/
theorem next_of_gap {c : Cursor} (h : Gap c.rest []) : c.next = (none, c.skip c.rest.length) := by
  rw [next, skipTrivia_of_gap (List.append_nil c.rest).symm h clear_nil, readToken]
  split
  · rfl
  · rename_i hr
    rw [rest_skip, List.drop_length] at hr
    cases hr

/-- A gap with a lexeme behind it gives the token of that lexeme. -/
theorem next_of_reads {c : Cursor} {g w rest : List Char} {kind : Kind} {value : Value}
    (hr : c.rest = g ++ (w ++ rest)) (hg : Gap g (w ++ rest)) (hc : Clear (w ++ rest))
    (hw : Reads (w ++ rest) w kind value) :
    c.next = (some ⟨kind, value, c.position.past g⟩, c.skip (g ++ w).length) := by
  obtain ⟨hrest, hpos⟩ := skip_append hr
  rw [next, skipTrivia_of_gap hr hg hc, (readToken_eq_iff.1 (hrest ▸ hw)).2, hpos, skip_skip,
    List.length_append]

theorem pieces_of_gap {c : Cursor} (h : Gap c.rest []) : c.pieces = [] := by
  apply pieces_of_none
  rw [next_of_gap h]

theorem pieces_of_reads {c : Cursor} {g w rest : List Char} {kind : Kind} {value : Value}
    (hr : c.rest = g ++ (w ++ rest)) (hg : Gap g (w ++ rest)) (hc : Clear (w ++ rest))
    (hw : Reads (w ++ rest) w kind value) :
    c.pieces =
      ⟨g, w, ⟨kind, value, c.position.past g⟩⟩ :: (c.skip (g ++ w).length).pieces := by
  have hnext := next_of_reads hr hg hc hw
  have hgap : c.upTo c.skipTrivia = g := by
    rw [skipTrivia_of_gap hr hg hc, upTo_skip hr]
  have hlexeme : c.skipTrivia.upTo (c.skip (g ++ w).length) = w := by
    rw [skipTrivia_of_gap hr hg hc, List.length_append, ← skip_skip,
      upTo_skip (skip_append hr).1]
  rw [pieces_of_some (by rw [hnext]), hnext, hgap, hlexeme]

/-- Either only trivia is left, or a gap and a lexeme come next. -/
theorem gap_or_reads (cs : List Char) :
    Gap cs [] ∨ ∃ g w rest kind value, cs = g ++ (w ++ rest) ∧ Gap g (w ++ rest) ∧
      Clear (w ++ rest) ∧ Reads (w ++ rest) w kind value := by
  have hsplit := Trivia.split_append cs
  have hg := Trivia.gap_split cs
  have hc := Trivia.clear_split cs
  generalize (Trivia.split cs).1 = g at hsplit hg
  generalize (Trivia.split cs).2 = r at hsplit hg hc
  subst hsplit
  cases r with
  | nil =>
    left
    rwa [List.append_nil]
  | cons first more =>
    right
    obtain ⟨w, kind, value, h⟩ := Lexeme.exists_reads first more
    obtain ⟨rest, hw⟩ := h.front
    rw [← hw] at hg hc h ⊢
    exact ⟨g, w, rest, kind, value, rfl, hg, hc, h⟩

theorem next_eq_none_iff {c : Cursor} : c.next.1 = none ↔ Gap c.rest [] := by
  constructor
  · intro h
    rcases gap_or_reads c.rest with hg | ⟨g, w, rest, kind, value, hr, hg, hc, hw⟩
    · exact hg
    · rw [next_of_reads hr hg hc hw] at h
      cases h
  · intro h
    rw [next_of_gap h]

/-- Where no token was left, none is left. -/
theorem tokens_next_of_none {c : Cursor} (h : c.next.1 = none) : c.next.2.tokens = [] := by
  apply tokens_of_none
  rw [next_of_gap (next_eq_none_iff.1 h), next_eq_none_iff, rest_skip, List.drop_length]
  exact Gap.nil

end Cursor

/-! ## The cut of a text -/

/-- A text at a place is cut into pieces, and what is left behind the last one is a gap. -/
inductive Cut : Position → List Char → List Piece → Prop
  | done {p : Position} {g : List Char} : Gap g [] → Cut p g []
  | piece {p : Position} {g w rest : List Char} {kind : Kind} {value : Value} {ps : List Piece} :
      Gap g (w ++ rest) → Clear (w ++ rest) → Reads (w ++ rest) w kind value →
      Cut (p.past (g ++ w)) rest ps →
      Cut p (g ++ (w ++ rest)) (⟨g, w, ⟨kind, value, p.past g⟩⟩ :: ps)

/-- Every cut is the one that the cursor makes. -/
theorem Cut.pieces_eq {p : Position} {cs : List Char} {ps : List Piece} (h : Cut p cs ps) :
    ∀ c : Cursor, c.rest = cs → c.position = p → c.pieces = ps := by
  induction h with
  | done hg =>
    rintro c rfl rfl
    apply Cursor.pieces_of_none
    rw [Cursor.next_of_gap hg]
  | @piece p g w rest kind value ps hg hc hw _ ih =>
    rintro c hr rfl
    have hrest : c.rest = (g ++ w) ++ rest := by rw [hr, List.append_assoc]
    rw [Cursor.pieces_of_reads hr hg hc hw,
      ih _ (Cursor.skip_append hrest).1 (Cursor.skip_append hrest).2]

theorem cut_pieces (c : Cursor) : Cut c.position c.rest c.pieces := by
  rcases Cursor.gap_or_reads c.rest with hg | ⟨g, w, rest, kind, value, hr, hg, hc, hw⟩
  · rw [Cursor.pieces_of_gap hg]
    exact Cut.done hg
  · have hrest : c.rest = (g ++ w) ++ rest := by rw [hr, List.append_assoc]
    have ih := cut_pieces (c.skip (g ++ w).length)
    rw [(Cursor.skip_append hrest).1, (Cursor.skip_append hrest).2] at ih
    rw [Cursor.pieces_of_reads hr hg hc hw, hr]
    exact Cut.piece hg hc hw ih
termination_by c.rest.length
decreasing_by
  rw [(Cursor.skip_append hrest).1, hrest, List.length_append, List.length_append]
  have := List.length_pos_iff.2 hw.ne_nil
  omega

/-- At another place a text is cut alike, and its tokens move as all places behind it do. -/
theorem Cut.moved {p : Position} {cs : List Char} {ps : List Piece} (h : Cut p cs ps)
    {f : Position → Position} (hf : ∀ a, f (p.past a) = (f p).past a) :
    ∃ ps', Cut (f p) cs ps' ∧
      ps'.map (·.token) = (ps.map (·.token)).map fun t => { t with position := f t.position } := by
  induction h with
  | done hg => exact ⟨[], .done hg, rfl⟩
  | @piece p g w rest kind value ps hg hc hw _ ih =>
    have hf' : ∀ a, f ((p.past (g ++ w)).past a) = (f (p.past (g ++ w))).past a := by
      intro a
      rw [← Position.past_append, hf, hf, Position.past_append]
    obtain ⟨ps', hcut, htokens⟩ := ih hf'
    rw [hf] at hcut
    refine ⟨_, .piece hg hc hw hcut, ?_⟩
    rw [List.map_cons, List.map_cons, List.map_cons, htokens, ← hf]

/-- The pieces of a whole text. -/
def pieces (cs : List Char) : List Piece := (Cursor.ofText cs).pieces

/-- There is one cut of a text, and `pieces` is it. -/
theorem pieces_eq_iff {cs : List Char} {ps : List Piece} : pieces cs = ps ↔ Cut .start cs ps := by
  constructor
  · rintro rfl
    exact cut_pieces (Cursor.ofText cs)
  · exact fun h => h.pieces_eq (Cursor.ofText cs) rfl rfl

theorem map_token_pieces (cs : List Char) : (pieces cs).map (·.token) = stream cs :=
  Cursor.map_token_pieces (Cursor.ofText cs)

end SqlTokens
