-- The law of lines: a text that leaves nothing open can be read without the lines
-- that follow it, and these can be read without it. Only the places of
-- their tokens move.
import SqlTokens.Proofs.Layout
import SqlTokens.Proofs.Places

namespace SqlTokens

open Trivia (Gap Clear Element isBlank)
open Lexeme (Reads quotes)

/-! ## Moving down -/

/-- The place of a character when further lines come in front of the text: so many lines and so
many characters more. -/
def Position.shift (lines characters : Nat) (p : Position) : Position :=
  ⟨p.line + lines, p.column, p.offset + characters⟩

/-- A token with further lines in front of its text. -/
def Token.shift (lines characters : Nat) (t : Token) : Token :=
  { t with position := t.position.shift lines characters }

/-- The text ends outside quotes and block comments: no quote is without a partner, and no
slash has a star right behind it that opens no comment. -/
structure LeavesNothingOpen (cs : List Char) : Prop where
  no_loneQuote : ∀ q, ¬ LoneQuote cs q
  no_openComment : ∀ s ∈ stream cs, ∀ t ∈ stream cs, s.kind = .operator .divide →
    t.kind = .operator .multiply → t.position.offset ≠ s.position.offset + 1

namespace Position

theorem step_shift (lines characters : Nat) (p : Position) (c : Char) :
    (p.shift lines characters).step c = (p.step c).shift lines characters := by
  unfold step shift
  split
  · simp only [Nat.add_right_comm]
  · simp only [Nat.add_right_comm]

theorem past_shift (lines characters : Nat) (p : Position) (cs : List Char) :
    (p.shift lines characters).past cs = (p.past cs).shift lines characters := by
  induction cs generalizing p with
  | nil => rfl
  | cons c cs ih => rw [past_cons, past_cons, step_shift, ih]

/-- Behind a whole line, the place is that of a new text moved down. -/
theorem past_start_line (a : List Char) :
    start.past (a ++ ['\n']) = start.shift (a.count '\n' + 1) (a.length + 1) := by
  rw [past_start, behind_concat]
  simp [behind, step, shift, start, Nat.add_comm, Nat.add_left_comm]

end Position

/-- A text further down is cut like the text alone. -/
theorem Cut.shift {p : Position} {cs : List Char} {ps : List Piece} (h : Cut p cs ps)
    (lines characters : Nat) :
    ∃ ps', Cut (p.shift lines characters) cs ps' ∧
      ps'.map (·.token) = (ps.map (·.token)).map (Token.shift lines characters) :=
  h.moved fun a => (Position.past_shift lines characters p a).symm

/-! ## A new line behind a text -/

/-- Behind the end of a text, a new line is all that a scanner sees. -/
theorem sameToBlank_line (rest b : List Char) : SameToBlank (rest ++ '\n' :: b) rest := by
  induction rest with
  | nil => exact List.nil_prefix
  | cons c rest ih =>
    unfold SameToBlank at ih ⊢
    rw [List.cons_append, List.takeWhile_cons]
    split
    · exact List.cons_prefix_cons.2 ⟨rfl, ih⟩
    · exact List.nil_prefix

theorem Trivia.Element.line_behind {e rest : List Char} (h : Element e rest) (b : List Char) :
    Element e (rest ++ '\n' :: b) := by
  cases h with
  | blank hc => exact .blank hc
  | line hn hr =>
    refine .line hn (Or.inr ?_)
    rcases hr with rfl | hr
    · rfl
    · rw [List.head?_append, hr]
      rfl
  | block hc => exact .block hc

theorem Trivia.Gap.line_behind {g rest : List Char} (h : Gap g rest) (b : List Char) :
    Gap g (rest ++ '\n' :: b) := by
  induction h with
  | nil => exact .nil
  | cons he _ ih =>
    refine .cons ?_ ih
    have he' := he.line_behind b
    rwa [List.append_assoc] at he'

theorem Trivia.Gap.eq_nil_of_clear {g rest : List Char} (h : Gap g rest) (hc : Clear (g ++ rest)) :
    g = [] := by
  cases h with
  | nil => rfl
  | @cons e g _ he _ => exact absurd he (hc e (g ++ rest) (by rw [List.append_assoc]))

/-- A gap in front of a text goes into the gap of its first token. -/
theorem Cut.gap_append {p : Position} {g b : List Char} {ps : List Piece}
    (h : Cut (p.past g) b ps) (hg : Gap g b) :
    ∃ ps', Cut p (g ++ b) ps' ∧ ps'.map (·.token) = ps.map (·.token) := by
  generalize hp : p.past g = p' at h
  cases h with
  | done hg' => exact ⟨[], .done (.append (by rwa [List.append_nil]) hg'), rfl⟩
  | @piece _ g' w rest kind value ps hg' hc hw hcut =>
    subst hp
    rw [← Position.past_append, ← List.append_assoc] at hcut
    rw [← List.append_assoc]
    refine ⟨_, .piece (hg.append hg') hc hw hcut, ?_⟩
    rw [List.map_cons, List.map_cons, Position.past_append]

/-! ## A slash with a star behind it -/

theorem kind_eq_of_reads_cons {c : Char} {r w cs : List Char} {kind k : Kind} {value v : Value}
    (h : Reads r w kind value) (hr : r = c :: cs) (hscan : Lexeme.scan c cs = ⟨k, v, 1⟩) :
    kind = k := by
  subst hr
  rw [Lexeme.scan_of_reads h] at hscan
  exact congrArg Lexeme.kind hscan

/-- A star behind a slash that opens no comment is the next token. -/
theorem Cut.exists_multiply {p : Position} {more : List Char} {ps : List Piece}
    (h : Cut p ('*' :: more) ps) :
    ∃ t ∈ ps.map (·.token), t.kind = .operator .multiply ∧ t.position = p := by
  have hclear : Clear ('*' :: more) := Trivia.clear_iff.2 rfl
  generalize hcs : '*' :: more = cs at h hclear
  cases h with
  | done hg =>
    have hnil := hg.eq_nil_of_clear (by rwa [List.append_nil])
    rw [hnil] at hcs
    cases hcs
  | @piece _ g w rest kind value ps hg _ hw _ =>
    obtain rfl := hg.eq_nil_of_clear hclear
    exact ⟨_, List.mem_cons_self, kind_eq_of_reads_cons hw hcs.symm rfl, rfl⟩

/-! ## Line by line -/

/-- The cut of a text that leaves nothing open goes on behind a new line. -/
theorem Cut.line_behind {p : Position} {a b : List Char} {ps qs : List Piece} (h : Cut p a ps)
    (hquote : ∀ piece ∈ ps, piece.token.kind = .error →
      ∀ q ∈ quotes.map (·.1), piece.lexeme ≠ [q])
    (hcomment : ∀ s ∈ ps.map (·.token), ∀ t ∈ ps.map (·.token), s.kind = .operator .divide →
      t.kind = .operator .multiply → t.position.offset ≠ s.position.offset + 1)
    (hb : Cut (p.past (a ++ ['\n'])) b qs) :
    ∃ rs, Cut p (a ++ '\n' :: b) rs ∧
      rs.map (·.token) = ps.map (·.token) ++ qs.map (·.token) := by
  induction h with
  | @done p g hg =>
    have hblank : Gap ['\n'] b := .single (.blank rfl)
    have hline : Gap (g ++ ['\n']) b := Gap.append (hg.line_behind b) hblank
    obtain ⟨rs, hcut, htokens⟩ := hb.gap_append hline
    rw [List.append_assoc] at hcut
    exact ⟨rs, hcut, htokens⟩
  | @piece p g w rest kind value ps hg hc hw hcut ih =>
    rw [List.forall_mem_cons] at hquote
    have hseen := sameToBlank_line rest b
    have hw' : Reads (w ++ (rest ++ '\n' :: b)) w kind value := by
      apply hw.sameToBlank hseen
      intro q hq hwq hkind
      exact absurd hwq (hquote.1 hkind q hq)
    have hc' : Clear (w ++ (rest ++ '\n' :: b)) := by
      apply clear_of_sameToBlank hw hc hseen
      rintro rfl hstar
      -- The star stands in the text itself, so it is a token of it.
      cases rest with
      | nil => cases hstar
      | cons d more =>
        cases hstar
        obtain ⟨t, ht, hmul, hpos⟩ := hcut.exists_multiply
        refine hcomment _ List.mem_cons_self t (List.mem_cons_of_mem _ ht)
          (kind_eq_of_reads_cons hw rfl rfl) hmul ?_
        rw [hpos, Position.past_append, Position.offset_past]
        rfl
    have hg' : Gap g (w ++ (rest ++ '\n' :: b)) := by
      have hline := hg.line_behind b
      rwa [List.append_assoc] at hline
    have htext : g ++ (w ++ rest) ++ ['\n'] = (g ++ w) ++ (rest ++ ['\n']) := by
      simp only [List.append_assoc]
    rw [htext, Position.past_append] at hb
    obtain ⟨rs, hrs, htokens⟩ := ih hquote.2
      (fun s hs t ht => hcomment s (List.mem_cons_of_mem _ hs) t (List.mem_cons_of_mem _ ht)) hb
    refine ⟨⟨g, w, ⟨kind, value, p.past g⟩⟩ :: rs, ?_, ?_⟩
    · have hnext := Cut.piece hg' hc' hw' hrs
      rwa [show g ++ (w ++ (rest ++ '\n' :: b)) = g ++ (w ++ rest) ++ '\n' :: b by
        simp only [List.append_assoc]] at hnext
    · rw [List.map_cons, htokens, List.map_cons, List.cons_append]

/-- The tokens of two texts with a new line between them. -/
theorem stream_line {a : List Char} (h : LeavesNothingOpen a) (b : List Char) :
    stream (a ++ '\n' :: b) =
      stream a ++ (stream b).map (Token.shift (a.count '\n' + 1) (a.length + 1)) := by
  have hcut : Cut .start a (pieces a) := pieces_eq_iff.1 rfl
  obtain ⟨qs, hqs, hshift⟩ := (pieces_eq_iff.1 (rfl : pieces b = _)).shift (a.count '\n' + 1)
    (a.length + 1)
  rw [← Position.past_start_line] at hqs
  have hquote : ∀ piece ∈ pieces a, piece.token.kind = .error →
      ∀ q ∈ quotes.map (·.1), piece.lexeme ≠ [q] :=
    fun piece hpiece hkind q hq hlexeme => h.no_loneQuote q ⟨hq, piece, hpiece, hkind, hlexeme⟩
  have hcomment := h.no_openComment
  rw [← map_token_pieces] at hcomment
  obtain ⟨rs, hrs, htokens⟩ := hcut.line_behind hquote hcomment hqs
  rw [← map_token_pieces, pieces_eq_iff.2 hrs, htokens, hshift, map_token_pieces,
    map_token_pieces]

/-! ## The laws -/

/-- A script can be read line by line, at every new line in front of which nothing is open. -/
theorem a_script_is_read_line_by_line {a : List Char} (h : LeavesNothingOpen a) (b : List Char) :
    (Lexer.ofText (a ++ '\n' :: b)).collect.value =
      (Lexer.ofText a).collect.value ++
        (Lexer.ofText b).collect.value.map (Token.shift (a.count '\n' + 1) (a.length + 1)) := by
  rw [Lexer.collect_value rfl, Lexer.collect_value rfl, Lexer.collect_value rfl]
  exact stream_line h b

/-- A quote in a comment that the line ends, and an open comment in the second text. -/
theorem two_lines_are_read_line_by_line :
    LeavesNothingOpen "x <\n!--'".toList ∧
      (Lexer.ofText ("x <\n!--'".toList ++ '\n' :: "=/*'".toList)).collect.value =
        (Lexer.ofText "x <\n!--'".toList).collect.value ++
          (Lexer.ofText "=/*'".toList).collect.value.map (Token.shift 2 9) := by
  have hopen : LeavesNothingOpen "x <\n!--'".toList := by
    refine ⟨?_, by decide +kernel⟩
    have hdouble : ¬ LoneQuote "x <\n!--'".toList '"' := by decide +kernel
    have hsingle : ¬ LoneQuote "x <\n!--'".toList '\'' := by decide +kernel
    intro q hq
    have hmark : q = '"' ∨ q = '\'' := by simpa [quotes] using hq.1
    rcases hmark with rfl | rfl
    · exact hdouble hq
    · exact hsingle hq
  exact ⟨hopen, a_script_is_read_line_by_line hopen "=/*'".toList⟩

end SqlTokens
