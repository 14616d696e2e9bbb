-- The law of keywords: their spellings, the list of all words, the table that a word is looked
-- up in and the test for a keyword say the same. A word is a keyword in every mix of letter
-- cases, and nothing but letters makes one.
import SqlTokens.Proofs.LetterCase
import SqlTokens.Proofs.Places

namespace SqlTokens

open Lexeme (Reads quotes)

namespace Keyword

/-! ## One list behind all tables -/

/-- A word with its letters in upper case. Only the letters A to Z have a case. -/
def inCapitals (w : List Char) : String := String.ofList (w.map Char.toUpper)

theorem mem_all (word : Keyword) : word ∈ all := by
  cases word <;> simp [all]

theorem spellings_eq : spellings = all.map spelling := rfl

theorem table_eq : table = all.map fun word => (word.spelling, word) := rfl

theorem mem_spellings_iff {s : String} : s ∈ spellings ↔ ∃ word : Keyword, word.spelling = s := by
  simp [spellings_eq, mem_all]

theorem mem_table_iff {s : String} {word : Keyword} : (s, word) ∈ table ↔ word.spelling = s := by
  simp [table_eq, mem_all]

/-! ## Looking a word up -/

theorem ofWord?_eq_some_iff {w : List Char} {word : Keyword} :
    ofWord? w = some word ↔ word.spelling = inCapitals w := by
  rw [Lexeme.ofWord?_eq_some_iff, mem_table_iff, inCapitals]

theorem isSome_ofWord?_iff {w : List Char} :
    (ofWord? w).isSome = true ↔ inCapitals w ∈ spellings := by
  simp only [Option.isSome_iff_exists, ofWord?_eq_some_iff, mem_spellings_iff]

theorem inCapitals_eq_iff {v w : List Char} : inCapitals v = inCapitals w ↔ SameLetters v w := by
  unfold inCapitals SameLetters
  rw [String.ofList_inj]

/-- Words of the same letters are the same keyword, and a keyword has no other words. -/
theorem eq_iff_sameLetters {v w : List Char} {a b : Keyword} (hv : ofWord? v = some a)
    (hw : ofWord? w = some b) : a = b ↔ SameLetters v w := by
  rw [← inCapitals_eq_iff]
  constructor
  · rintro rfl
    rw [← ofWord?_eq_some_iff.1 hv, ofWord?_eq_some_iff.1 hw]
  · intro h
    rw [ofWord?_eq_some_iff] at hw
    rw [ofWord?_eq_some_iff.2 (hw.trans h.symm)] at hv
    exact (Option.some.inj hv).symm

/-! ## The letters of keywords -/

theorem isUpper_spelling (word : Keyword) : ∀ c ∈ word.spelling.toList, 'A' ≤ c ∧ c ≤ 'Z' := by
  cases word <;> simp [spelling]

/-- A keyword is made of letters from A to Z in either case. -/
theorem isAlpha_of_ofWord? {w : List Char} {word : Keyword} (h : ofWord? w = some word) :
    ∀ c ∈ w, ('A' ≤ c ∧ c ≤ 'Z') ∨ ('a' ≤ c ∧ c ≤ 'z') := by
  intro c hc
  have hspelling : word.spelling.toList = w.map Char.toUpper := by
    rw [ofWord?_eq_some_iff.1 h, inCapitals, String.toList_ofList]
  have hupper : 'A' ≤ c.toUpper ∧ c.toUpper ≤ 'Z' := by
    apply isUpper_spelling word
    rw [hspelling]
    exact List.mem_map_of_mem hc
  by_cases hl : 'a' ≤ c ∧ c ≤ 'z'
  · exact Or.inr hl
  · rw [toUpper_of_not_lower hl] at hupper
    exact Or.inl hupper

end Keyword

/-! ## Keywords as kinds of tokens -/

namespace Kind

theorem labels_eq : keywords.map label = Keyword.spellings := rfl

/-- The list of kinds misses no keyword, and nothing else is in it. -/
theorem isKeyword_iff {kind : Kind} : kind.isKeyword = true ↔ ∃ word, kind = .keyword word := by
  cases kind with
  | keyword word => cases word <;> simp [isKeyword, keywords]
  | _ => simp [isKeyword, keywords]

/-- No other kind is shown as a keyword. -/
theorem isKeyword_iff_label_mem {kind : Kind} :
    kind.isKeyword = true ↔ kind.label ∈ Keyword.spellings := by
  constructor
  · intro h
    rw [← labels_eq]
    exact List.mem_map_of_mem (List.contains_iff_mem.1 h)
  · intro h
    rw [isKeyword_iff]
    cases kind with
    | keyword word => exact ⟨word, rfl⟩
    | literal type => cases type <;> simp [label, LiteralType.label, Keyword.spellings] at h
    | operator sign => cases sign <;> simp [label, Operator.label, Keyword.spellings] at h
    | delimiter mark => cases mark <;> simp [label, Delimiter.label, Keyword.spellings] at h
    | _ => simp [label, Keyword.spellings] at h

theorem map_ofWord?_eq_some_iff {w : List Char} {kind : Kind} :
    (Keyword.ofWord? w).map Kind.keyword = some kind ↔
      kind.isKeyword = true ∧ kind.label = Keyword.inCapitals w := by
  rw [isKeyword_iff, Option.map_eq_some_iff]
  constructor
  · rintro ⟨word, hword, rfl⟩
    exact ⟨⟨word, rfl⟩, Keyword.ofWord?_eq_some_iff.1 hword⟩
  · rintro ⟨⟨word, rfl⟩, hlabel⟩
    exact ⟨word, Keyword.ofWord?_eq_some_iff.2 hlabel, rfl⟩

end Kind

theorem Lexeme.Reads.keyword_value {r w : List Char} {word : Keyword} {value : Value}
    (h : Reads r w (.keyword word) value) : value = .text word.spelling := by
  cases h with
  | keyword _ hk => rw [Keyword.mem_table_iff.1 hk]
  | quoted hq _ => simp [quotes] at hq

theorem Token.StandsIn.keyword_value {cs : List Char} {t : Token} (h : t.StandsIn cs)
    (hk : t.kind.isKeyword = true) : t.value = .text t.kind.label := by
  obtain ⟨w, hreads⟩ := h.reads
  obtain ⟨word, hword⟩ := Kind.isKeyword_iff.1 hk
  rw [hword] at hreads ⊢
  exact hreads.keyword_value

/-! ## The law -/

/-- The tables of keywords agree on every word and on every kind of token. -/
structure KeywordTablesAgree : Prop where
  /-- The keyword that a word is found to be is the one that is shown as the word in capitals. -/
  found_iff : ∀ (w : List Char) (kind : Kind), (Keyword.ofWord? w).map Kind.keyword = some kind ↔
    kind.isKeyword = true ∧ kind.label = Keyword.inCapitals w
  /-- A keyword is found for the words of the list, and it is the one that the table has for it. -/
  listed_iff : ∀ w : List Char,
    (Keyword.ofWord? w).isSome = true ↔ Keyword.inCapitals w ∈ Keyword.spellings
  table_iff : ∀ (w : List Char) (word : Keyword),
    Keyword.ofWord? w = some word ↔ (Keyword.inCapitals w, word) ∈ Keyword.table
  /-- The kinds that count as keywords are shown as the words of the list, in its order. -/
  labels_eq : Kind.keywords.map Kind.label = Keyword.spellings
  /-- Every word that is kept for the language counts as a keyword, and no other kind does. -/
  isKeyword_iff : ∀ kind : Kind, kind.isKeyword = true ↔ ∃ word : Keyword, kind = .keyword word
  /-- No other kind is shown as a word of the list. -/
  isKeyword_iff_label_mem : ∀ kind : Kind,
    kind.isKeyword = true ↔ kind.label ∈ Keyword.spellings
  /-- The table has one entry for each word of the list. -/
  keys_eq : Keyword.table.map (·.1) = Keyword.spellings
  keys_nodup : Keyword.spellings.Nodup
  /-- Two words are the same keyword when they differ in the case of letters only. -/
  eq_iff : ∀ (v w : List Char) (a b : Keyword), Keyword.ofWord? v = some a →
    Keyword.ofWord? w = some b → (a = b ↔ SameLetters v w)
  /-- Whatever is no letter from A to Z makes a word no keyword. -/
  letters : ∀ (w : List Char), (∃ c ∈ w, ¬ (('A' ≤ c ∧ c ≤ 'Z') ∨ ('a' ≤ c ∧ c ≤ 'z'))) →
    Keyword.ofWord? w = none
  /-- A lexer gives keywords the text that their kind is shown as. -/
  value_eq : ∀ cs lx, Lexer.Opened cs lx → ∀ calls, ∀ o ∈ lx.run calls, ∀ t ∈ o.value.delivered,
    t.kind.isKeyword = true → t.value = .text t.kind.label

theorem the_keyword_tables_agree : KeywordTablesAgree := by
  refine ⟨?_, ?_, ?_, Kind.labels_eq, ?_, ?_, rfl, by decide, ?_, ?_, ?_⟩
  · exact fun w kind => Kind.map_ofWord?_eq_some_iff
  · exact fun w => Keyword.isSome_ofWord?_iff
  · exact fun w word => Lexeme.ofWord?_eq_some_iff
  · exact fun kind => Kind.isKeyword_iff
  · exact fun kind => Kind.isKeyword_iff_label_mem
  · exact fun v w a b hv hw => Keyword.eq_iff_sameLetters hv hw
  · rintro w ⟨c, hc, hletter⟩
    rcases hword : Keyword.ofWord? w with _ | word
    · rfl
    · exact absurd (Keyword.isAlpha_of_ofWord? hword c hc) hletter
  · intro cs lx hlx calls o ho t ht hk
    exact (standsIn_of_mem_stream (hlx.within.run calls o ho t ht)).keyword_value hk

/-- Two spellings of one keyword, a word that only looks like one, and the text of a token. -/
theorem the_keyword_tables_agree_on_mixed_letters :
    (Kind.keyword .NULL).label = Keyword.inCapitals "nULL".toList ∧
      SameLetters "nULL".toList "NuLl".toList ∧
      Keyword.ofWord? "\u017fet".toList = none ∧
      (Lexer.ofText "nULL".toList).delivered [.next] = [⟨.keyword .NULL, .text "NULL", .start⟩] ∧
      ∀ o ∈ (Lexer.ofText "nULL".toList).run [.next], ∀ t ∈ o.value.delivered,
        t.kind.isKeyword = true → t.value = .text t.kind.label := by
  have hnull : Keyword.ofWord? "nULL".toList = some .NULL := by decide
  have hmixed : Keyword.ofWord? "NuLl".toList = some .NULL := by decide
  refine ⟨?_, ?_, ?_, by decide +kernel, ?_⟩
  · apply ((the_keyword_tables_agree.found_iff _ _).1 _).2
    rw [hnull, Option.map_some]
  · exact (the_keyword_tables_agree.eq_iff _ _ _ _ hnull hmixed).1 rfl
  · exact the_keyword_tables_agree.letters _ ⟨'\u017f', by decide, by decide⟩
  · exact the_keyword_tables_agree.value_eq _ _ .ofText _

end SqlTokens
