-- How far a scanner looks behind a lexeme: never over a blank, except for the partner
-- of a quote. So the text behind a lexeme can be changed from its first blank
-- on, and the lexeme stays what it is.
import SqlTokens.Proofs.Gap
import SqlTokens.Proofs.Grammar

namespace SqlTokens

open Trivia (Clear isBlank)
open Lexeme (Reads Digit Longest HasFraction quotes longOperators)

/-! ## What stands in front of the first blank -/

/-- Up to the first blank of the one text, the other text is the same. -/
def SameToBlank (rest' rest : List Char) : Prop := rest'.takeWhile (!isBlank ·) <+: rest

theorem SameToBlank.prefix_of {rest rest' s : List Char} (h : SameToBlank rest' rest)
    (hs : ∀ c ∈ s, isBlank c = false) (hp : s <+: rest') : s <+: rest := by
  obtain ⟨t, rfl⟩ := hp
  refine List.IsPrefix.trans ?_ h
  rw [List.takeWhile_append_of_pos (by simpa using hs)]
  exact List.prefix_append _ _

/-- A character that is no blank stands behind a lexeme only if it stood there before. -/
theorem SameToBlank.head {rest more : List Char} {c : Char} (h : SameToBlank (c :: more) rest)
    (hc : isBlank c = false) : c ∈ rest.head? := by
  obtain ⟨t, rfl⟩ := h.prefix_of (s := [c]) (by simpa using hc) ⟨more, rfl⟩
  rfl

theorem SameToBlank.stops {rest rest' : List Char} (h : SameToBlank rest' rest)
    {p : Char → Bool} (hp : ∀ c, isBlank c = true → p c = false) (hs : Text.Stops p rest) :
    Text.Stops p rest' := by
  intro c hc
  obtain ⟨more, rfl⟩ := List.head?_eq_some_iff.1 hc
  by_cases hb : isBlank c = true
  · exact hp c hb
  · exact hs c (h.head (by simpa using hb))

theorem eq_of_isBlank {c : Char} (h : isBlank c = true) :
    c = ' ' ∨ c = '\t' ∨ c = '\r' ∨ c = '\n' := by
  simpa [isBlank, or_assoc] using h

theorem isWordPart_of_isBlank {c : Char} (h : isBlank c = true) : Lexeme.isWordPart c = false := by
  rcases eq_of_isBlank h with rfl | rfl | rfl | rfl <;> rfl

theorem isDigit_of_isBlank {c : Char} (h : isBlank c = true) : c.isDigit = false := by
  rcases eq_of_isBlank h with rfl | rfl | rfl | rfl <;> rfl

theorem isBlank_of_digit {c : Char} (h : Digit c) : isBlank c = false := by
  rw [← Bool.not_eq_true]
  intro hb
  rw [← Lexeme.isDigit_iff, isDigit_of_isBlank hb] at h
  cases h

/-! ## What a scanner sees -/

/-- Of a new text behind a lexeme, a scanner sees nothing that it did not see of the old one: not a
character that goes on with a word or a number, and no marks. -/
structure SeenBefore (rest rest' : List Char) : Prop where
  stops_word : Text.Stops Lexeme.isWordPart rest → Text.Stops Lexeme.isWordPart rest'
  stops_number : Text.Stops Char.isDigit rest → Text.Stops Char.isDigit rest'
  marks : ∀ s, (∀ c ∈ s, isBlank c = false ∧ c.isAlpha = false) → s <+: rest' → s <+: rest

theorem SameToBlank.seenBefore {rest rest' : List Char} (h : SameToBlank rest' rest) :
    SeenBefore rest rest' := by
  refine ⟨?_, ?_, ?_⟩
  · exact h.stops fun _ => isWordPart_of_isBlank
  · exact h.stops fun _ => isDigit_of_isBlank
  · exact fun s hs => h.prefix_of fun c hc => (hs c hc).1

theorem isAlpha_of_digit {c : Char} (h : Digit c) : c.isAlpha = false := by
  rw [← Bool.not_eq_true]
  intro ha
  refine Lexeme.not_letter_of_digit h (Lexeme.isWordStart_iff.1 ?_)
  rw [Lexeme.isWordStart, ha, Bool.true_or]

theorem SeenBefore.not_longOperator {c : Char} {rest rest' : List Char}
    (h : SeenBefore rest rest')
    (hno : ∀ s sign, (s, sign) ∈ longOperators → ¬ s <+: c :: rest)
    (s : List Char) (sign : Operator) (hs : (s, sign) ∈ longOperators) : ¬ s <+: c :: rest' := by
  have hsecond : ∃ a b, s = [a, b] ∧ isBlank b = false ∧ b.isAlpha = false := by
    simp only [longOperators, List.mem_cons, Prod.mk.injEq, List.not_mem_nil, or_false] at hs
    rcases hs with ⟨rfl, -⟩ | ⟨rfl, -⟩ | ⟨rfl, -⟩ | ⟨rfl, -⟩ <;> exact ⟨_, _, rfl, rfl, rfl⟩
  obtain ⟨a, b, rfl, hb⟩ := hsecond
  intro hp
  obtain ⟨rfl, hp'⟩ := List.cons_prefix_cons.1 hp
  exact hno _ sign hs (List.cons_prefix_cons.2 ⟨rfl, h.marks [b] (by simpa using hb) hp'⟩)

theorem SeenBefore.not_hasFraction {w rest rest' : List Char} (h : SeenBefore rest rest')
    (hno : ¬ HasFraction (w ++ rest) w) : ¬ HasFraction (w ++ rest') w := by
  rintro ⟨d, more, hr, hd⟩
  obtain rfl := List.append_cancel_left hr
  have hmarks : ∀ c ∈ ['.', d], isBlank c = false ∧ c.isAlpha = false := by
    simp only [List.mem_cons, List.not_mem_nil, or_false, forall_eq_or_imp, forall_eq]
    exact ⟨⟨rfl, rfl⟩, isBlank_of_digit hd, isAlpha_of_digit hd⟩
  obtain ⟨t, ht⟩ := h.marks _ hmarks ⟨more, rfl⟩
  exact hno ⟨d, t, by rw [← ht]; rfl, hd⟩

/-! ## The lexeme stays -/

/-- A lexeme stays a lexeme when no scanner sees the text behind it change. A quote without a
partner must not get one. -/
theorem Lexeme.Reads.seenBefore {w rest rest' : List Char} {kind : Kind} {value : Value}
    (h : Reads (w ++ rest) w kind value) (hb : SeenBefore rest rest')
    (hq : ∀ q ∈ quotes.map (·.1), w = [q] → kind = .error → q ∉ rest → q ∉ rest') :
    Reads (w ++ rest') w kind value := by
  have hword : ∀ hl : Longest IsWord (w ++ rest) w, Longest IsWord (w ++ rest') w := fun hl =>
    longest_isWord.2 ⟨hl.has_shape, hb.stops_word (longest_isWord.1 hl).2⟩
  have hnumber : ∀ {v : List Char}, Longest IsNumber (v ++ rest) v →
      Longest IsNumber (v ++ rest') v := fun hl =>
    longest_isNumber.2 ⟨hl.has_shape, hb.stops_number (longest_isNumber.1 hl).2⟩
  generalize hr : w ++ rest = r at h
  cases h with
  | keyword hl hk => exact .keyword (hword (hr ▸ hl)) hk
  | identifier hl hk => exact .identifier (hword (hr ▸ hl)) hk
  | @quoted q _ s more hkind hs =>
    have hr' : q :: (s ++ [q]) ++ rest' = q :: (s ++ q :: rest') := by simp
    rw [hr']
    exact .quoted hkind hs
  | integer hl hf hle =>
    subst hr
    exact .integer (hnumber hl) (hb.not_hasFraction hf) hle
  | integerTooLarge hl hf hlt =>
    subst hr
    exact .integerTooLarge (hnumber hl) (hb.not_hasFraction hf) hlt
  | @float a b more x ha hbl hx =>
    have hr' : a ++ '.' :: b ++ rest' = a ++ '.' :: (b ++ rest') := by simp
    have hmore : more = b ++ rest := by simpa using hr.symm
    subst hmore
    rw [hr']
    exact .float (longest_isNumber.2 ⟨ha.has_shape, Text.stops_cons.2 rfl⟩) (hnumber hbl) hx
  | @floatTooLarge a b more ha hbl hx =>
    have hr' : a ++ '.' :: b ++ rest' = a ++ '.' :: (b ++ rest') := by simp
    have hmore : more = b ++ rest := by simpa using hr.symm
    subst hmore
    rw [hr']
    exact .floatTooLarge (longest_isNumber.2 ⟨ha.has_shape, Text.stops_cons.2 rfl⟩)
      (hnumber hbl) hx
  | longOperator hmem _ => exact .longOperator hmem (List.prefix_append _ _)
  | operator hmem hno =>
    cases hr
    exact .operator hmem (hb.not_longOperator hno)
  | delimiter hmem => exact .delimiter hmem
  | @unexpected c more ha =>
    cases hr
    refine .unexpected ⟨ha.not_letter, ha.not_digit, ?_, hb.not_longOperator ha.no_longOperator,
      ha.no_operator, ha.no_delimiter⟩
    intro k hk
    exact hq c (List.mem_map_of_mem (f := (·.1)) hk) rfl rfl (ha.no_partner k hk)

/-- A lexeme stays a lexeme when the text behind it changes from its first blank on. -/
theorem Lexeme.Reads.sameToBlank {w rest rest' : List Char} {kind : Kind} {value : Value}
    (h : Reads (w ++ rest) w kind value) (hb : SameToBlank rest' rest)
    (hq : ∀ q ∈ quotes.map (·.1), w = [q] → kind = .error → q ∉ rest → q ∉ rest') :
    Reads (w ++ rest') w kind value :=
  h.seenBefore hb.seenBefore hq

/-! ## No comment comes into being -/

/-- A minus and a slash are lexemes of one character. -/
theorem Lexeme.Reads.eq_singleton {c : Char} {cs w : List Char} {kind : Kind} {value : Value}
    (h : Reads (c :: cs) w kind value) (hc : c = '-' ∨ c = '/') : w = [c] := by
  have hlen : (Lexeme.scan c cs).length = 1 := by
    rcases hc with rfl | rfl
    · rfl
    · rfl
  rw [Lexeme.scan_of_reads h] at hlen
  obtain ⟨a, rfl⟩ := List.length_eq_one_iff.1 hlen
  obtain ⟨rest, hr⟩ := h.front
  cases hr
  rfl

/-- Two minus signs always start a comment. -/
theorem not_clear_line (cs : List Char) : ¬ Clear ('-' :: '-' :: cs) := by
  intro h
  have hz := Trivia.clear_iff.1 h
  rw [Trivia.element_line] at hz
  omega

/-- Where no blank or comment starts, none starts when the text behind the lexeme changes from
its first blank on. A slash must not get a star behind it. -/
theorem clear_of_sameToBlank {w rest rest' : List Char} {kind : Kind} {value : Value}
    (h : Reads (w ++ rest) w kind value) (hc : Clear (w ++ rest)) (hb : SameToBlank rest' rest)
    (hstar : w = ['/'] → '*' ∉ rest'.head?) : Clear (w ++ rest') := by
  obtain ⟨c, w, rfl⟩ := List.exists_cons_of_ne_nil h.ne_nil
  intro e r he hel
  cases hel with
  | @blank c' _ hblank =>
    cases he
    exact hc [c] (w ++ rest) rfl (.blank hblank)
  | line _ _ =>
    simp only [List.cons_append, List.cons.injEq] at he
    obtain ⟨rfl, he⟩ := he
    cases h.eq_singleton (Or.inl rfl)
    rw [List.nil_append] at he
    rw [← he] at hb
    obtain ⟨more, hmore⟩ := List.head?_eq_some_iff.1 (hb.head rfl)
    rw [hmore] at hc
    exact not_clear_line more hc
  | block _ =>
    simp only [List.cons_append, List.cons.injEq] at he
    obtain ⟨rfl, he⟩ := he
    cases h.eq_singleton (Or.inr rfl)
    rw [List.nil_append] at he
    exact hstar rfl (by rw [← he]; rfl)

end SqlTokens
