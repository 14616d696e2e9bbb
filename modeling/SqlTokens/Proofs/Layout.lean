-- The law of layout: the gaps of a text can be changed, and its tokens stay what
-- they are. No scanner looks over a blank, except for the partner of a quote.
import SqlTokens.Proofs.Pieces
import SqlTokens.Proofs.Sight

namespace SqlTokens

open Trivia (Gap Clear isBlank)
open Lexeme (Reads quotes)

/-- What a token says, wherever it stands. -/
def Token.content (t : Token) : Kind × Value := (t.kind, t.value)

/-- A quote that is an error by itself, since the text has no partner for it. -/
def LoneQuote (cs : List Char) (q : Char) : Prop :=
  q ∈ quotes.map (·.1) ∧ ∃ p ∈ pieces cs, p.token.kind = .error ∧ p.lexeme = [q]

instance (cs : List Char) (q : Char) : Decidable (LoneQuote cs q) :=
  inferInstanceAs (Decidable
    (q ∈ quotes.map (·.1) ∧ ∃ p ∈ pieces cs, p.token.kind = .error ∧ p.lexeme = [q]))

/-- Lexemes laid out as a text, with a gap behind each. Every gap starts with a blank; only the
last one may be empty. Some characters are barred from the gaps. -/
inductive Layout (barred : Char → Prop) : List (List Char) → List Char → Prop
  | done : Layout barred [] []
  | lexeme {w g rest : List Char} {ws : List (List Char)} :
      ((∃ c ∈ g.head?, isBlank c = true) ∨ g = [] ∧ ws = []) → Gap g rest →
      (∀ c ∈ g, ¬ barred c) → Layout barred ws rest →
      Layout barred (w :: ws) (w ++ (g ++ rest))

/-! ## A lexeme in front of a blank -/

/-- Nothing follows, or a blank. -/
def BlankAhead (rest : List Char) : Prop := ∀ c ∈ rest.head?, isBlank c = true

theorem BlankAhead.nil : BlankAhead [] := by
  intro c hc
  cases hc

/-- A blank moves up, and nothing else is seen in front of it. -/
theorem BlankAhead.sameToBlank {rest' : List Char} (h : BlankAhead rest') (rest : List Char) :
    SameToBlank rest' rest := by
  unfold SameToBlank
  cases rest' with
  | nil => exact List.nil_prefix
  | cons c more =>
    rw [List.takeWhile_cons, h c rfl]
    exact List.nil_prefix

theorem BlankAhead.star_not_mem {rest : List Char} (h : BlankAhead rest) : '*' ∉ rest.head? :=
  fun hs => absurd (h '*' hs) (by decide)

/-! ## A text laid out anew -/

theorem BlankAhead.of_head {g rest : List Char} (h : ∃ c ∈ g.head?, isBlank c = true) :
    BlankAhead (g ++ rest) := by
  obtain ⟨c, hc, hblank⟩ := h
  obtain ⟨more, rfl⟩ := List.head?_eq_some_iff.1 hc
  intro d hd
  cases hd
  exact hblank

/-- A character that is barred from the gaps stands in a lexeme. -/
theorem Layout.mem_lexeme {barred : Char → Prop} {ws : List (List Char)} {text : List Char}
    (h : Layout barred ws text) {c : Char} (hb : barred c) (hc : c ∈ text) : ∃ w ∈ ws, c ∈ w := by
  induction h with
  | done => cases hc
  | @lexeme w g rest ws _ _ hg _ ih =>
    rw [List.mem_append, List.mem_append] at hc
    rcases hc with hc | hc | hc
    · exact ⟨w, List.mem_cons_self, hc⟩
    · exact absurd hb (hg c hc)
    · obtain ⟨v, hv, hcv⟩ := ih hc
      exact ⟨v, List.mem_cons_of_mem w hv, hcv⟩

theorem Cut.mem_of_mem_lexeme {p : Position} {cs : List Char} {ps : List Piece} (h : Cut p cs ps)
    {w : List Char} (hw : w ∈ ps.map (·.lexeme)) {c : Char} (hc : c ∈ w) : c ∈ cs := by
  induction h with
  | done => cases hw
  | @piece p g v rest kind value ps _ _ _ _ ih =>
    rw [List.map_cons, List.mem_cons] at hw
    rw [List.mem_append, List.mem_append]
    rcases hw with rfl | hw
    · exact Or.inr (Or.inl hc)
    · exact Or.inr (Or.inr (ih hw))

/-- The cut of a text is also that of its lexemes in another layout. -/
theorem Cut.exists_layout {barred : Char → Prop} {p : Position} {cs : List Char}
    {ps : List Piece} (h : Cut p cs ps)
    (hbarred : ∀ piece ∈ ps, ∀ q ∈ quotes.map (·.1), piece.token.kind = .error →
      piece.lexeme = [q] → barred q)
    (p' : Position) {gap text : List Char} (hgap : Gap gap text)
    (hl : Layout barred (ps.map (·.lexeme)) text) :
    ∃ ps', Cut p' (gap ++ text) ps' ∧
      ps'.map (·.token.content) = ps.map (·.token.content) := by
  induction h generalizing p' gap text with
  | done _ =>
    cases hl
    rw [List.append_nil]
    exact ⟨[], .done hgap, rfl⟩
  | @piece p g w rest kind value ps hg hc hw hcut ih =>
    rw [List.map_cons] at hl
    cases hl with
    | @lexeme _ g' text' _ hstart hg' hbar hl' =>
      have hb : BlankAhead (g' ++ text') := by
        rcases hstart with hhead | ⟨rfl, hnil⟩
        · exact .of_head hhead
        · rw [hnil] at hl'
          cases hl'
          exact .nil
      have hw' : Reads (w ++ (g' ++ text')) w kind value := by
        apply hw.sameToBlank (hb.sameToBlank rest)
        intro q hq hwq hkind hrest hmem
        have hbq : barred q := hbarred _ List.mem_cons_self q hq hkind hwq
        rcases List.mem_append.1 hmem with hm | hm
        · exact hbar q hm hbq
        · obtain ⟨v, hv, hqv⟩ := hl'.mem_lexeme hbq hm
          exact hrest (hcut.mem_of_mem_lexeme hv hqv)
      obtain ⟨ps', hcut', hcontent⟩ :=
        ih (fun piece hpiece => hbarred piece (List.mem_cons_of_mem _ hpiece))
          (p'.past (gap ++ w)) hg' hl'
      refine ⟨⟨gap, w, ⟨kind, value, p'.past gap⟩⟩ :: ps',
        .piece hgap
          (clear_of_sameToBlank hw hc (hb.sameToBlank rest) fun _ => hb.star_not_mem) hw' hcut', ?_⟩
      rw [List.map_cons, List.map_cons, hcontent]
      rfl

/-! ## The laws -/

/-- A text keeps its tokens, with their kinds and values, when it is laid out anew: with any gap
in front, and gaps that start with a blank behind its lexemes. The gaps must not hold a
quote that the text has without a partner. -/
theorem the_layout_does_not_matter {cs g text : List Char} (hg : Gap g text)
    (hl : Layout (LoneQuote cs) ((pieces cs).map (·.lexeme)) text) :
    (stream (g ++ text)).map Token.content = (stream cs).map Token.content := by
  obtain ⟨ps', hcut, hcontent⟩ := (pieces_eq_iff.1 rfl).exists_layout
    (fun piece hpiece q hq hkind hlexeme => ⟨hq, piece, hpiece, hkind, hlexeme⟩) .start hg hl
  rw [← map_token_pieces, ← map_token_pieces, pieces_eq_iff.2 hcut, List.map_map, List.map_map]
  exact hcontent

/-- A quote without a partner, and a comment without an end. -/
theorem the_layout_of_a_line_does_not_matter :
    Gap ['-', '-', '\'', '\n'] "' a\n/\t* --\"".toList ∧
      Layout (LoneQuote "'a/*".toList) ((pieces "'a/*".toList).map (·.lexeme))
        "' a\n/\t* --\"".toList ∧
      (stream (['-', '-', '\'', '\n'] ++ "' a\n/\t* --\"".toList)).map Token.content =
        (stream "'a/*".toList).map Token.content := by
  have hgap : ∀ {g rest : List Char}, Trivia.split (g ++ rest) = (g, rest) → Gap g rest :=
    fun h => (Trivia.split_eq_iff.1 h).2.1
  have hbar : ∀ {g : List Char}, g.all (fun c => !decide (LoneQuote "'a/*".toList c)) = true →
      ∀ c ∈ g, ¬ LoneQuote "'a/*".toList c := by
    intro g h
    simpa using h
  have hg : Gap ['-', '-', '\'', '\n'] "' a\n/\t* --\"".toList := hgap (by decide +kernel)
  have hlexemes : (pieces "'a/*".toList).map (·.lexeme) = [['\''], ['a'], ['/'], ['*']] := by
    decide +kernel
  have hl : Layout (LoneQuote "'a/*".toList) ((pieces "'a/*".toList).map (·.lexeme))
      "' a\n/\t* --\"".toList := by
    rw [hlexemes]
    refine .lexeme (w := ['\'']) (g := [' ']) (Or.inl ⟨_, rfl, rfl⟩) (hgap (by decide +kernel))
      (hbar (by decide +kernel)) ?_
    refine .lexeme (w := ['a']) (g := ['\n']) (Or.inl ⟨_, rfl, rfl⟩) (hgap (by decide +kernel))
      (hbar (by decide +kernel)) ?_
    refine .lexeme (w := ['/']) (g := ['\t']) (Or.inl ⟨_, rfl, rfl⟩) (hgap (by decide +kernel))
      (hbar (by decide +kernel)) ?_
    exact .lexeme (w := ['*']) (g := [' ', '-', '-', '"']) (Or.inl ⟨_, rfl, rfl⟩)
      (hgap (by decide +kernel)) (hbar (by decide +kernel)) .done
  exact ⟨hg, hl, the_layout_does_not_matter hg hl⟩

end SqlTokens
