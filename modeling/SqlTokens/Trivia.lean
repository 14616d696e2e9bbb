-- Trivia: the blanks and comments between tokens. A line comment runs up to the
-- end of its line. A block comment runs up to the first close mark, so comments
-- do not nest, and without a close mark it is no comment at all.
import SqlTokens.Text.Find

namespace SqlTokens.Trivia

/-- The characters that separate tokens and mean nothing. -/
def isBlank (c : Char) : Bool := c == ' ' || c == '\t' || c == '\r' || c == '\n'

/-- The length of the blanks or the comment at the front of a text; zero when it starts with
neither. The close mark of a block comment begins behind its open mark. -/
def element : List Char → Nat
  | '-' :: '-' :: cs => 2 + (cs.takeWhile (· != '\n')).length
  | '/' :: '*' :: cs => ((Text.find? ['*', '/'] cs).map (· + 4)).getD 0
  | cs => (cs.takeWhile isBlank).length

/-- Only a text that is not empty starts with trivia. -/
theorem ne_nil_of_element {cs : List Char} (h : 0 < element cs) : cs ≠ [] := by
  rintro rfl; simp [element] at h

/-- Splits a text into the trivia at its front and what follows. -/
def split (cs : List Char) : List Char × List Char :=
  if _h : 0 < element cs then
    let next := split (cs.drop (element cs))
    (cs.take (element cs) ++ next.1, next.2)
  else ([], cs)
termination_by cs.length
decreasing_by
  have := List.length_pos_iff.2 (ne_nil_of_element _h)
  simp only [List.length_drop]; omega

/-- The text without the trivia at its front. -/
def skip (cs : List Char) : List Char := (split cs).2

/-! ## Nothing is lost -/

theorem split_append (cs : List Char) : (split cs).1 ++ (split cs).2 = cs := by
  fun_induction split cs with
  | case1 cs h next ih => rw [List.append_assoc, ih, List.take_append_drop]
  | case2 cs h => rfl

end SqlTokens.Trivia
