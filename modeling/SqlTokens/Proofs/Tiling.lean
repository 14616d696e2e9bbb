-- The law of the whole text: gaps and lexemes alternate from its first character
-- to its last, and each token says what its lexeme says. Nothing is lost,
-- nothing is read twice.
import SqlTokens.Proofs.Calls

namespace SqlTokens

open Lexeme (IsWord IsNumber Reads longOperators operators delimiters)

/-! ## What a lexeme says -/

/-- The kind and the value that a lexeme stands for, whatever text is around it. -/
inductive Decodes : List Char → Kind → Value → Prop
  | keyword {w : List Char} {word : Keyword} :
      Keyword.ofWord? w = some word →
      Decodes w (.keyword word) (.text (String.ofList (w.map Char.toUpper)))
  | identifier {w : List Char} : IsWord w → Decodes w .identifier (.text (String.ofList w))
  | quotedIdentifier {s : List Char} :
      '"' ∉ s → Decodes ('"' :: (s ++ ['"'])) .identifier (.text (String.ofList s))
  | string {s : List Char} :
      '\'' ∉ s → Decodes ('\'' :: (s ++ ['\''])) (.literal .string) (.text (String.ofList s))
  | integer {w : List Char} :
      IsNumber w → Decodes w (.literal .integer) (.integer (Numeral.valueOf w))
  | float {a b : List Char} {x : Binary64} :
      IsNumber a → IsNumber b →
      Binary64.ofRatio? false (Numeral.valueOf (a ++ b)) (Nat.pow 10 b.length) = some x →
      Decodes (a ++ '.' :: b) (.literal .float) (.float x)
  | operator {w : List Char} {sign : Operator} :
      (w, sign) ∈ longOperators ++ operators.map (fun entry => ([entry.1], entry.2)) →
      Decodes w (.operator sign) (.text (String.ofList w))
  | delimiter {c : Char} {mark : Delimiter} :
      (c, mark) ∈ delimiters → Decodes [c] (.delimiter mark) (.text (String.ofList [c]))
  | unexpected {c : Char} :
      Decodes [c] .error (.text (String.ofList ("Unexpected character: '".toList ++ [c, '\''])))
  | integerTooLarge {w : List Char} :
      IsNumber w → Numeral.maxInteger < Numeral.valueOf w →
      Decodes w .error (.text (String.ofList ("Integer literal out of range: ".toList ++ w)))
  | floatTooLarge {a b : List Char} :
      IsNumber a → IsNumber b →
      Binary64.ofRatio? false (Numeral.valueOf (a ++ b)) (Nat.pow 10 b.length) = none →
      Decodes (a ++ '.' :: b) .error
        (.text (String.ofList ("Float literal out of range: ".toList ++ (a ++ '.' :: b))))

theorem decodes_of_reads {r w : List Char} {kind : Kind} {value : Value}
    (h : Reads r w kind value) : Decodes w kind value := by
  cases h with
  | keyword _ hk => exact Decodes.keyword (Lexeme.ofWord?_eq_some_iff.2 hk)
  | identifier hl _ => exact Decodes.identifier hl.has_shape
  | quoted hq hs =>
    simp only [Lexeme.quotes, List.mem_cons, Prod.mk.injEq, List.not_mem_nil, or_false] at hq
    rcases hq with ⟨rfl, rfl⟩ | ⟨rfl, rfl⟩
    · exact Decodes.quotedIdentifier hs
    · exact Decodes.string hs
  | integer hl _ _ => exact Decodes.integer hl.has_shape
  | integerTooLarge hl _ hlt => exact Decodes.integerTooLarge hl.has_shape hlt
  | float ha hb hx => exact Decodes.float ha.has_shape hb.has_shape hx
  | floatTooLarge ha hb hx => exact Decodes.floatTooLarge ha.has_shape hb.has_shape hx
  | longOperator hmem _ => exact Decodes.operator (List.mem_append_left _ hmem)
  | operator hmem _ =>
    exact Decodes.operator (List.mem_append_right _ (List.mem_map.2 ⟨_, hmem, rfl⟩))
  | delimiter hmem => exact Decodes.delimiter hmem
  | unexpected _ => exact Decodes.unexpected

/-! ## Gaps and lexemes in turn -/

/-- A text, `n` characters into the input, is a gap and a lexeme for each token in turn, and a
last gap. Each token gives the offset of its lexeme. -/
inductive Tiles : Nat → List Char → List Token → Prop
  | done {n : Nat} {g : List Char} : Trivia.Gap g [] → Tiles n g []
  | token {n : Nat} {g w rest : List Char} {t : Token} {ts : List Token} :
      Trivia.Gap g (w ++ rest) → w ≠ [] → t.position.offset = n + g.length →
      Decodes w t.kind t.value → Tiles (n + g.length + w.length) rest ts →
      Tiles n (g ++ (w ++ rest)) (t :: ts)

/-- The cut of a text puts its tokens where their offsets say. -/
theorem Cut.tiles {p : Position} {cs : List Char} {ps : List Piece} (h : Cut p cs ps) :
    Tiles p.offset cs (ps.map (·.token)) := by
  induction h with
  | done hg => exact Tiles.done hg
  | @piece p g w rest kind value ps hg _ hw _ ih =>
    rw [Position.offset_past, List.length_append, ← Nat.add_assoc] at ih
    exact Tiles.token hg hw.ne_nil (Position.offset_past p g) (decodes_of_reads hw) ih

/-! ## The laws -/

/-- The tokens that a new lexer gives cover its text: what lies between two of their lexemes
is trivia and nothing else. -/
theorem the_tokens_tile_the_text {cs : List Char} {lx : Lexer} (h : lx.Opened cs) :
    Tiles 0 cs lx.collect.value := by
  rw [Lexer.collect_value h.ahead_eq, h.cursor_eq, ← Cursor.map_token_pieces]
  exact (cut_pieces (Cursor.ofText cs)).tiles

/-- A comment with a quote in it, a comparison, a fraction and a quote without a partner. -/
theorem the_tokens_tile_a_line :
    Lexer.withSettings "a--'\n<=1.5 \"".toList { maxInputLength := some 12 } =
        .ok ⟨.ofText "a--'\n<=1.5 \"".toList, { maxInputLength := some 12 }, .unread⟩ ∧
      Tiles 0 "a--'\n<=1.5 \"".toList
        [⟨.identifier, .text "a", ⟨1, 1, 0⟩⟩, ⟨.operator .lessEqual, .text "<=", ⟨2, 1, 5⟩⟩,
         ⟨.literal .float, .float ⟨false, 4609434218613702656, by decide⟩, ⟨2, 3, 7⟩⟩,
         ⟨.error, .text "Unexpected character: '\"'", ⟨2, 7, 11⟩⟩] := by
  have htiles : ∀ ts, (Lexer.mk (.ofText "a--'\n<=1.5 \"".toList) { maxInputLength := some 12 }
      .unread).collect.value = ts → Tiles 0 "a--'\n<=1.5 \"".toList ts := by
    rintro _ rfl
    exact the_tokens_tile_the_text (.withSettings (s := { maxInputLength := some 12 }) rfl)
  exact ⟨rfl, htiles _ (by decide +kernel)⟩

end SqlTokens
