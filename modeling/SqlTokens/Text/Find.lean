-- The first place where a pattern occurs in a text.

namespace SqlTokens.Text

/-- How many characters stand before the first occurrence of `pat`. The empty
pattern occurs at once, in every text. -/
def find? (pat : List Char) : List Char → Option Nat
  | [] => if pat.isEmpty then some 0 else none
  | c :: cs => if pat.isPrefixOf (c :: cs) then some 0 else (find? pat cs).map (· + 1)

/-- What an occurrence leaves behind it is the rest of the text. -/
theorem find?_le (pat cs : List Char) (k : Nat) (h : find? pat cs = some k) : k ≤ cs.length := by
  induction cs generalizing k with
  | nil =>
    simp only [find?] at h
    split at h
    · cases h; exact Nat.le_refl _
    · cases h
  | cons c cs ih =>
    simp only [find?] at h
    split at h
    · cases h; exact Nat.zero_le _
    · obtain ⟨j, hj, rfl⟩ := Option.map_eq_some_iff.1 h
      exact Nat.succ_le_succ (ih j hj)

end SqlTokens.Text
