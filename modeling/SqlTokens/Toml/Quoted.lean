-- Quoted texts in TOML: between single quotes every character stands for itself,
-- between double quotes a backslash escapes, and three quotes allow newlines.
import SqlTokens.Text.Hex

namespace SqlTokens.Toml

/-- A character that stands for itself in comments and quoted texts: not a control character,
except for the tab. -/
def isPlain (c : Char) : Bool := c == '\t' || (decide (0x20 ≤ c.toNat) && c != '\x7f')

/-- Reads a code point of `n` digits. -/
def codePoint? (n : Nat) (cs : List Char) : Option (Char × List Char) :=
  if n ≤ cs.length then (Text.hexChar? (cs.take n)).map fun c => (c, cs.drop n) else none

/-- Reads an escape behind its backslash. -/
def escape? : List Char → Option (Char × List Char)
  | 'b' :: cs => some ('\x08', cs)
  | 't' :: cs => some ('\t', cs)
  | 'n' :: cs => some ('\n', cs)
  | 'f' :: cs => some ('\x0c', cs)
  | 'r' :: cs => some ('\r', cs)
  | 'e' :: cs => some ('\x1b', cs)
  | '"' :: cs => some ('"', cs)
  | '\\' :: cs => some ('\\', cs)
  | 'x' :: cs => codePoint? 2 cs
  | 'u' :: cs => codePoint? 4 cs
  | 'U' :: cs => codePoint? 8 cs
  | _ => none

theorem length_codePoint?_le {n : Nat} {cs rest : List Char} {c : Char}
    (h : codePoint? n cs = some (c, rest)) : rest.length ≤ cs.length := by
  unfold codePoint? at h
  split at h
  · obtain ⟨d, -, hd⟩ := Option.map_eq_some_iff.1 h
    cases hd
    simp
  · cases h

/-- An escape uses up text. -/
theorem length_escape?_lt {cs rest : List Char} {c : Char} (h : escape? cs = some (c, rest)) :
    rest.length < cs.length := by
  unfold escape? at h
  split at h
  all_goals first
    | (cases h; exact Nat.lt_succ_self _)
    | exact Nat.lt_succ_of_le (length_codePoint?_le h)
    | cases h

/-! ## One line -/

/-- Reads a text with escapes behind its first quote, and the quote that ends it. -/
def basic? (cs : List Char) : Option (List Char × List Char) :=
  match cs with
  | [] => none
  | '"' :: rest => some ([], rest)
  | '\\' :: more =>
    match _h : escape? more with
    | some (c, rest) => (basic? rest).map fun (text, rest) => (c :: text, rest)
    | none => none
  | c :: rest =>
    if isPlain c then (basic? rest).map fun (text, rest) => (c :: text, rest) else none
termination_by cs.length
decreasing_by
  · have := length_escape?_lt _h; simp only [List.length_cons]; omega
  · exact Nat.lt_succ_self _

/-- Reads a text without escapes behind its first quote, and the quote that ends it. -/
def literal? : List Char → Option (List Char × List Char)
  | [] => none
  | '\'' :: rest => some ([], rest)
  | c :: rest =>
    if isPlain c then (literal? rest).map fun (text, rest) => (c :: text, rest) else none

/-! ## Several lines -/

/-- A text without the newline at its front. -/
def dropNewline : List Char → List Char
  | '\n' :: cs => cs
  | '\r' :: '\n' :: cs => cs
  | cs => cs

/-- A text without the blanks and newlines at its front; none when a carriage return among them
stands alone. -/
def skipLines? : List Char → Option (List Char)
  | '\r' :: '\n' :: cs => skipLines? cs
  | '\r' :: _ => none
  | c :: cs => if c = ' ' ∨ c = '\t' ∨ c = '\n' then skipLines? cs else some (c :: cs)
  | [] => some []

/-- A backslash at the end of a line joins it with the next text: reads behind the backslash up
to that text; none when the line does not end there. -/
def joinLines? (cs : List Char) : Option (List Char) :=
  match cs.dropWhile fun c => c == ' ' || c == '\t' with
  | '\n' :: rest => skipLines? rest
  | '\r' :: '\n' :: rest => skipLines? rest
  | _ => none

theorem length_skipLines?_le {cs rest : List Char} (h : skipLines? cs = some rest) :
    rest.length ≤ cs.length := by
  fun_induction skipLines? cs with
  | case1 cs ih => have := ih h; simp only [List.length_cons]; omega
  | case2 => cases h
  | case3 =>
    rename_i ih
    have := ih h
    simp only [List.length_cons]; omega
  | case4 => cases h; exact Nat.le_refl _
  | case5 => cases h; exact Nat.le_refl _

theorem length_joinLines?_le {cs rest : List Char} (h : joinLines? cs = some rest) :
    rest.length ≤ cs.length := by
  have hd := (List.dropWhile_suffix (l := cs) fun c => c == ' ' || c == '\t').length_le
  unfold joinLines? at h
  split at h
  · rename_i more hm
    have := length_skipLines?_le h
    rw [hm, List.length_cons] at hd
    omega
  · rename_i more hm
    have := length_skipLines?_le h
    rw [hm, List.length_cons, List.length_cons] at hd
    omega
  · cases h

/-- The end of a text between three quotes: one or two further quotes in front of the last
three belong to the text. -/
def closing (quote : Char) : List Char → List Char × List Char
  | a :: b :: rest =>
    if a ≠ quote then ([], a :: b :: rest)
    else if b ≠ quote then ([a], b :: rest)
    else ([a, b], rest)
  | [a] => if a = quote then ([a], []) else ([], [a])
  | [] => ([], [])

/-- Reads a text with escapes behind its first three quotes, and the three that end it. -/
def longBasic? (cs : List Char) : Option (List Char × List Char) :=
  match cs with
  | [] => none
  | '"' :: '"' :: '"' :: rest => some (closing '"' rest)
  | '\\' :: more =>
    match _h : escape? more with
    | some (c, rest) => (longBasic? rest).map fun (text, rest) => (c :: text, rest)
    | none =>
      match _h : joinLines? more with
      | some rest => longBasic? rest
      | none => none
  | '\r' :: '\n' :: rest =>
    (longBasic? rest).map fun (text, rest) => ('\r' :: '\n' :: text, rest)
  | c :: rest =>
    if isPlain c || c == '\n' then
      (longBasic? rest).map fun (text, rest) => (c :: text, rest)
    else none
termination_by cs.length
decreasing_by
  · have := length_escape?_lt _h; simp only [List.length_cons]; omega
  · have := length_joinLines?_le _h; simp only [List.length_cons]; omega
  · simp only [List.length_cons]; omega
  · exact Nat.lt_succ_self _

/-- Reads a text without escapes behind its first three quotes, and the three that end it. -/
def longLiteral? : List Char → Option (List Char × List Char)
  | [] => none
  | '\'' :: '\'' :: '\'' :: rest => some (closing '\'' rest)
  | '\r' :: '\n' :: rest =>
    (longLiteral? rest).map fun (text, rest) => ('\r' :: '\n' :: text, rest)
  | c :: rest =>
    if isPlain c || c == '\n' then
      (longLiteral? rest).map fun (text, rest) => (c :: text, rest)
    else none

/-! ## Any of them -/

/-- Reads a quoted text; none where no quote stands. -/
def quoted? : List Char → Option (List Char × List Char)
  | '"' :: '"' :: '"' :: cs => longBasic? (dropNewline cs)
  | '\'' :: '\'' :: '\'' :: cs => longLiteral? (dropNewline cs)
  | '"' :: cs => basic? cs
  | '\'' :: cs => literal? cs
  | _ => none

end SqlTokens.Toml
