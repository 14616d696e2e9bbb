-- The tokens of a text, one after the other. Each call skips the trivia in front
-- of the next token and reads that token; at the end only trivia is left.
import SqlTokens.Cursor
import SqlTokens.Lexeme
import SqlTokens.Trivia

namespace SqlTokens

/-! ## Every lexeme has a character -/

namespace Lexeme

theorem isWordPart_of_isWordStart {c : Char} (h : isWordStart c = true) : isWordPart c = true := by
  simp only [isWordStart, isWordPart, Char.isAlphanum, Bool.or_eq_true] at h ⊢
  rcases h with h | h
  · exact Or.inl (Or.inl h)
  · exact Or.inr h

theorem length_integer (digits : List Char) : (integer digits).length = digits.length := by
  unfold integer
  by_cases h : Numeral.valueOf digits ≤ Numeral.maxInteger
  · rw [if_pos h]
  · rw [if_neg h]; rfl

theorem length_float (n : Numeral) : (float n).length = n.text.length := by
  unfold float
  generalize Binary64.ofRatio? false n.decimal.num n.decimal.den = o
  cases o <;> rfl

theorem length_quoted? {quote : Char} {kind : Kind} {cs : List Char} {l : Lexeme}
    (h : quoted? quote kind cs = some l) : 0 < l.length := by
  obtain ⟨n, -, rfl⟩ := Option.map_eq_some_iff.1 h
  exact Nat.succ_pos _

theorem length_operator? {cs : List Char} {l : Lexeme} (h : operator? cs = some l) :
    0 < l.length := by
  unfold operator? at h
  split at h <;> cases h <;> decide

theorem length_delimiter? {c : Char} {l : Lexeme} (h : delimiter? c = some l) :
    0 < l.length := by
  unfold delimiter? at h
  split at h <;> cases h <;> decide

theorem length_word_pos {c : Char} {cs : List Char} (h : isWordStart c = true) :
    0 < (word (c :: cs)).length := by
  have hw : (c :: cs).takeWhile isWordPart = c :: cs.takeWhile isWordPart := by
    rw [List.takeWhile_cons, if_pos (isWordPart_of_isWordStart h)]
  unfold word
  simp only [hw]
  split <;> exact Nat.succ_pos _

theorem length_number_pos {c : Char} {cs : List Char} (h : c.isDigit = true) :
    0 < (number (c :: cs)).length := by
  have hw : (c :: cs).takeWhile Char.isDigit = c :: cs.takeWhile Char.isDigit := by
    rw [List.takeWhile_cons, if_pos h]
  unfold number
  simp only [hw]
  split
  · split
    · rw [length_integer]; exact Nat.succ_pos _
    · rw [length_float]; simp [Numeral.text]
  · rw [length_integer]; exact Nat.succ_pos _

theorem length_scan_pos (c : Char) (cs : List Char) : 0 < (scan c cs).length := by
  have hgetD : ∀ o : Option Lexeme, (∀ l, o = some l → 0 < l.length) →
      0 < (o.getD (unexpected c)).length := by
    intro o ho
    cases o with
    | none => exact Nat.succ_pos _
    | some l => exact ho l rfl
  unfold scan
  split
  · exact length_word_pos (by assumption)
  · split
    · exact length_number_pos (by assumption)
    · split
      · exact hgetD _ fun l hl => length_quoted? hl
      · split
        · exact hgetD _ fun l hl => length_quoted? hl
        · apply hgetD
          intro l hl
          rcases ho : operator? (c :: cs) with _ | m
          · rw [ho] at hl; exact length_delimiter? (by simpa using hl)
          · rw [ho] at hl
            have hm : m = l := by simpa using hl
            subst hm
            exact length_operator? ho

end Lexeme

/-! ## The next token -/

namespace Cursor

/-- The cursor behind the trivia in front of it. -/
def skipTrivia (c : Cursor) : Cursor := c.skip (Trivia.split c.rest).1.length

/-- Reads a token right at the cursor; none at the end of the text. -/
def readToken (c : Cursor) : Option Token × Cursor :=
  match c.rest with
  | [] => (none, c)
  | first :: more =>
    let l := Lexeme.scan first more
    (some ⟨l.kind, l.value, c.position⟩, c.skip l.length)

/-- Reads the next token; none when only trivia is left. -/
def next (c : Cursor) : Option Token × Cursor := c.skipTrivia.readToken

theorem rest_skip (c : Cursor) (n : Nat) : (c.skip n).rest = c.rest.drop n := rfl

theorem length_skipTrivia_le (c : Cursor) : c.skipTrivia.rest.length ≤ c.rest.length := by
  simp [skipTrivia, rest_skip]

/-- Reading a token uses up text. -/
theorem length_readToken_lt {c : Cursor} {t : Token} (h : c.readToken.1 = some t) :
    c.readToken.2.rest.length < c.rest.length := by
  unfold readToken at h ⊢
  rcases hr : c.rest with _ | ⟨first, more⟩
  · simp [hr] at h
  · have := Lexeme.length_scan_pos first more
    simp only [rest_skip, hr, List.length_drop, List.length_cons]
    omega

theorem length_next_lt {c : Cursor} {t : Token} (h : c.next.1 = some t) :
    c.next.2.rest.length < c.rest.length :=
  Nat.lt_of_lt_of_le (length_readToken_lt h) (length_skipTrivia_le c)

/-- All tokens from the cursor to the end of the text, errors included. -/
def tokens (c : Cursor) : List Token :=
  match _h : c.next.1 with
  | none => []
  | some t => t :: tokens c.next.2
termination_by c.rest.length
decreasing_by exact length_next_lt _h

end Cursor

/-- All tokens of a text. -/
def stream (cs : List Char) : List Token := (Cursor.ofText cs).tokens

end SqlTokens
