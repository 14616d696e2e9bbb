-- The law of skipping: however the blanks and the comments in front of a text are
-- taken off, the same text is left in the end, and no trivia starts it. So the end of
-- a text is seen where only trivia is left, and nowhere else.
import Mathlib.Logic.Relation
import SqlTokens.Proofs.Records

namespace SqlTokens

open Trivia (Gap Element isBlank)

/-! ## Texts that start with no trivia -/

namespace Trivia

/-- No trivia starts the text: no blank, no line comment, and no block comment that is closed
behind its open mark. -/
structure Bare (cs : List Char) : Prop where
  no_blank : ∀ c ∈ cs.head?, c ∉ [' ', '\t', '\r', '\n']
  no_line : ¬ ['-', '-'] <+: cs
  no_block : ∀ body, cs = '/' :: '*' :: body → ¬ ['*', '/'] <:+: body

theorem isBlank_iff {c : Char} : isBlank c = true ↔ c ∈ [' ', '\t', '\r', '\n'] := by
  simp [isBlank, or_assoc]

theorem bare_iff_clear {cs : List Char} : Bare cs ↔ Clear cs := by
  rw [clear_iff]
  constructor
  · intro h
    unfold element
    split
    · exact absurd ⟨_, rfl⟩ h.no_line
    · rename_i body
      rw [(Text.find?_eq_none_iff (List.cons_ne_nil _ _)).2 (h.no_block body rfl)]
      rfl
    · cases cs with
      | nil => rfl
      | cons c rest =>
        have hc : isBlank c = false := by
          rw [← Bool.not_eq_true, isBlank_iff]
          exact h.no_blank c rfl
        rw [List.takeWhile_cons, hc]
        rfl
  · intro h
    refine ⟨?_, ?_, ?_⟩
    · intro c hc hblank
      obtain ⟨rest, rfl⟩ := List.head?_eq_some_iff.1 hc
      rw [element_of_blank (isBlank_iff.2 hblank)] at h
      omega
    · rintro ⟨body, rfl⟩
      rw [List.cons_append, List.cons_append, List.nil_append, element_line] at h
      omega
    · rintro body rfl
      rw [element_block] at h
      rw [← Text.find?_eq_none_iff (List.cons_ne_nil _ _)]
      rcases hf : Text.find? ['*', '/'] body with _ | n
      · rfl
      · rw [hf] at h
        cases h

/-! ## Skipping step by step -/

/-- One step of skipping takes a run of blanks, a line comment or a block comment off the front of
a text. A run of blanks need not be taken as a whole. -/
inductive Skips : List Char → List Char → Prop
  | blanks {run rest : List Char} :
      run ≠ [] → (∀ c ∈ run, isBlank c = true) → Skips (run ++ rest) rest
  | line {body rest : List Char} :
      '\n' ∉ body → (rest = [] ∨ rest.head? = some '\n') → Skips ('-' :: '-' :: (body ++ rest)) rest
  | block {body rest : List Char} :
      ¬ ['*', '/'] <:+: body → Skips ('/' :: '*' :: (body ++ '*' :: '/' :: rest)) rest

/-- Steps of skipping, one after the other. -/
abbrev SkipsOn : List Char → List Char → Prop := Relation.ReflTransGen Skips

theorem Skips.exists_gap {cs rest : List Char} (h : Skips cs rest) :
    ∃ g, g ≠ [] ∧ cs = g ++ rest ∧ Gap g rest := by
  cases h with
  | @blanks run _ hne hall => exact ⟨run, hne, rfl, gap_of_blanks hall rest⟩
  | @line body _ hn hr =>
    exact ⟨'-' :: '-' :: body, List.cons_ne_nil _ _, rfl, .single (.line hn hr)⟩
  | @block body _ hc =>
    exact ⟨'/' :: '*' :: (body ++ ['*', '/']), List.cons_ne_nil _ _, by simp, .single (.block hc)⟩

theorem Element.skips {e rest : List Char} (h : Element e rest) : Skips (e ++ rest) rest := by
  cases h with
  | @blank c _ hc => exact .blanks (List.cons_ne_nil c []) (by simpa using hc)
  | line hn hr => exact .line hn hr
  | @block body _ hc =>
    have hskips : Skips ('/' :: '*' :: (body ++ '*' :: '/' :: rest)) rest := .block hc
    simpa using hskips

theorem Gap.skipsOn {g rest : List Char} (h : Gap g rest) : SkipsOn (g ++ rest) rest := by
  induction h with
  | nil => exact .refl
  | cons he _ ih =>
    rw [List.append_assoc]
    exact .head he.skips ih

/-- Every step uses up text, so steps of skipping come to an end. -/
theorem wellFounded_skips : WellFounded fun rest cs : List Char => Skips cs rest := by
  refine Subrelation.wf ?_ (measure List.length).wf
  intro rest cs h
  obtain ⟨g, hne, rfl, -⟩ := h.exists_gap
  have hpos := List.length_pos_iff.2 hne
  simp only [WellFoundedRelation.rel, InvImage, List.length_append]
  omega

theorem skip_gap {g rest : List Char} (h : Gap g rest) : skip (g ++ rest) = skip rest := by
  rw [skip, split_gap h]
  rfl

/-- A step leads to nothing that would not be left without it. -/
theorem SkipsOn.skip_eq {cs rest : List Char} (h : SkipsOn cs rest) : skip rest = skip cs := by
  induction h with
  | refl => rfl
  | tail _ hstep ih =>
    obtain ⟨g, -, rfl, hg⟩ := hstep.exists_gap
    rw [← ih, skip_gap hg]

theorem skipsOn_skip (cs : List Char) : SkipsOn cs (skip cs) := by
  have h := (gap_split cs).skipsOn
  rwa [split_append] at h

/-- Wherever the steps have led, they can be gone on with to what `skip` leaves. -/
theorem SkipsOn.goes_on {cs rest : List Char} (h : SkipsOn cs rest) : SkipsOn rest (skip cs) := by
  rw [← h.skip_eq]
  exact skipsOn_skip rest

theorem SkipsOn.eq_skip_of_bare {cs rest : List Char} (h : SkipsOn cs rest) (hb : Bare rest) :
    rest = skip cs := by
  rw [← h.skip_eq, skip, split_of_clear (bare_iff_clear.1 hb)]

end Trivia

/-! ## Three readers in turn -/

namespace Cursor

/-- The cursor behind the blanks in front of it. -/
def skipBlanks (c : Cursor) : Cursor := (c.consumeWhile isBlank).2

/-- The cursor at the end of its line, if a line comment starts at it. -/
def skipLineComment (c : Cursor) : Cursor :=
  if c.startsWith ['-', '-'] then (c.consumeWhile (· != '\n')).2 else c

/-- The cursor behind a block comment that starts at it. One that is not closed stays. -/
def skipBlockComment (c : Cursor) : Cursor :=
  if c.startsWith ['/', '*'] then
    match c.findFrom 2 ['*', '/'] with
    | some n => (c.consume (n + 2)).2
    | none => c
  else c

/-- The three readers, each called once. -/
def round (c : Cursor) : Cursor := c.skipBlanks.skipLineComment.skipBlockComment

/-- Only trivia lies between two cursors. -/
def Passes (c d : Cursor) : Prop :=
  ∃ g, c.rest = g ++ d.rest ∧ Gap g d.rest ∧ d = c.skip g.length

theorem passes_skip {c : Cursor} {g rest : List Char} (hr : c.rest = g ++ rest) (hg : Gap g rest) :
    c.Passes (c.skip g.length) := by
  have hrest := (skip_append hr).1
  exact ⟨g, hr.trans (by rw [hrest]), by rwa [hrest], rfl⟩

theorem passes_refl (c : Cursor) : c.Passes c := ⟨[], rfl, .nil, rfl⟩

theorem Passes.trans {c d e : Cursor} (h : c.Passes d) (h' : d.Passes e) : c.Passes e := by
  obtain ⟨g, hr, hg, rfl⟩ := h
  obtain ⟨g', hr', hg', rfl⟩ := h'
  have hsum : (c.skip g.length).skip g'.length = c.skip (g ++ g').length := by
    rw [skip_skip, List.length_append]
  rw [hr'] at hr hg
  refine ⟨g ++ g', ?_, hg.append hg', hsum⟩
  rw [hr, List.append_assoc]

theorem Passes.skipTrivia_eq {c d : Cursor} (h : c.Passes d) : d.skipTrivia = c.skipTrivia := by
  obtain ⟨g, hr, hg, hd⟩ := h
  have hsplit : (Trivia.split c.rest).1 = g ++ (Trivia.split d.rest).1 := by
    rw [hr, Trivia.split_gap hg]
  calc d.skipTrivia = (c.skip g.length).skip (Trivia.split d.rest).1.length := by
        rw [skipTrivia, ← hd]
    _ = c.skipTrivia := by rw [skip_skip, skipTrivia, hsplit, List.length_append]

theorem Passes.offset_le {c d : Cursor} (h : c.Passes d) :
    c.position.offset ≤ d.position.offset := by
  obtain ⟨g, hr, -, hd⟩ := h
  rw [hd, (skip_append hr).2, Position.offset_past]
  exact Nat.le_add_right _ _

/-- Where the offset stays, nothing was passed. -/
theorem Passes.eq_of_offset_le {c d : Cursor} (h : c.Passes d)
    (hle : d.position.offset ≤ c.position.offset) : d = c := by
  obtain ⟨g, hr, -, hd⟩ := h
  rw [hd, (skip_append hr).2, Position.offset_past] at hle
  have hg : g = [] := List.length_eq_zero_iff.1 (by omega)
  rw [hd, hg]
  rfl

/-- Where the offset moves, less text is left. -/
theorem Passes.length_lt {c d : Cursor} (h : c.Passes d)
    (hne : d.position.offset ≠ c.position.offset) : d.rest.length < c.rest.length := by
  obtain ⟨g, hr, -, hd⟩ := h
  rw [hd, (skip_append hr).2, Position.offset_past] at hne
  rw [hr, List.length_append]
  omega

/-! ## What a reader passes -/

theorem takeWhile_line (body : List Char) : ('-' :: '-' :: body).takeWhile (· != '\n') =
    '-' :: '-' :: body.takeWhile (· != '\n') := rfl

/-- A search that starts past the end of the text is no special case: nothing is found there. -/
theorem findFrom_eq {c : Cursor} {pat : List Char} (h : pat ≠ []) (n : Nat) :
    c.findFrom n pat = (Text.find? pat (c.rest.drop n)).map (n + ·) := by
  unfold findFrom
  by_cases hn : c.rest.length < n
  · rw [List.drop_eq_nil_of_le (Nat.le_of_lt hn)]
    simp [hn, Text.find?, h]
  · simp [hn, h]

/-- A search that starts behind some text looks at what follows that text. -/
theorem findFrom_append {c : Cursor} {pat a rest : List Char} (hpat : pat ≠ [])
    (h : c.rest = a ++ rest) :
    c.findFrom a.length pat = (Text.find? pat rest).map (a.length + ·) := by
  rw [findFrom_eq hpat, h, List.drop_left]

theorem findFrom_close {c : Cursor} {body : List Char} (h : c.rest = '/' :: '*' :: body) :
    c.findFrom 2 ['*', '/'] = (Text.find? ['*', '/'] body).map (2 + ·) :=
  findFrom_append (a := ['/', '*']) (List.cons_ne_nil _ _) h

theorem passes_skipBlanks (c : Cursor) : c.Passes c.skipBlanks :=
  passes_skip List.takeWhile_append_dropWhile.symm
    (Trivia.gap_of_blanks (fun _ hc => Text.of_mem_takeWhile hc) _)

theorem passes_skipLineComment (c : Cursor) : c.Passes c.skipLineComment := by
  unfold skipLineComment
  split
  · rename_i hstart
    obtain ⟨body, hbody⟩ := List.isPrefixOf_iff_prefix.1 hstart
    have hrest : c.rest = '-' :: '-' :: body := hbody.symm
    have htake : c.rest.takeWhile (· != '\n') = '-' :: '-' :: body.takeWhile (· != '\n') := by
      rw [hrest, takeWhile_line]
    unfold consumeWhile
    rw [htake]
    refine passes_skip ?_ (.single (Trivia.element_of_line body))
    rw [hrest, List.cons_append, List.cons_append, List.takeWhile_append_dropWhile]
  · exact passes_refl c

/-- A comment lies within the text, up to the close mark that the search finds. -/
theorem exists_comment_of_findFrom {c : Cursor} (hstart : c.startsWith ['/', '*'] = true)
    {close : Nat} (h : c.findFrom 2 ['*', '/'] = some close) :
    ∃ body rest, c.rest = ('/' :: '*' :: (body ++ ['*', '/'])) ++ rest ∧
      ¬ ['*', '/'] <:+: body ∧ ('/' :: '*' :: (body ++ ['*', '/'])).length = close + 2 := by
  obtain ⟨body, hbody⟩ := List.isPrefixOf_iff_prefix.1 hstart
  have hrest : c.rest = '/' :: '*' :: body := hbody.symm
  rw [findFrom_close hrest] at h
  obtain ⟨n, hn, rfl⟩ := Option.map_eq_some_iff.1 h
  obtain ⟨hb, hc⟩ := Trivia.eq_append_of_find?_close hn
  refine ⟨body.take n, body.drop (n + 2), ?_, hc, ?_⟩
  · rw [hrest]
    simpa using hb
  · rw [List.length_cons, List.length_cons, List.length_append,
      List.length_take_of_le (Text.find?_le _ _ _ hn)]
    simp only [List.length_cons, List.length_nil]
    omega

theorem passes_skipBlockComment (c : Cursor) : c.Passes c.skipBlockComment := by
  unfold skipBlockComment
  split
  · rename_i hstart
    rcases hf : c.findFrom 2 ['*', '/'] with _ | close
    · exact passes_refl c
    · obtain ⟨body, rest, htext, hc, hlen⟩ := exists_comment_of_findFrom hstart hf
      have hpass := passes_skip htext (.single (.block hc))
      rwa [hlen] at hpass
  · exact passes_refl c

theorem passes_round (c : Cursor) : c.Passes c.round :=
  ((passes_skipBlanks c).trans (passes_skipLineComment _)).trans (passes_skipBlockComment _)

/-- Round after round, until one of them does not move the cursor. -/
def rounds (c : Cursor) : Cursor :=
  if c.round.position.offset = c.position.offset then c.round else c.round.rounds
termination_by c.rest.length
decreasing_by exact (passes_round c).length_lt (by assumption)

/-! ## Where no reader moves -/

theorem no_blank_of_skipBlanks {c : Cursor} (h : c.skipBlanks = c) :
    ∀ a ∈ c.rest.head?, a ∉ [' ', '\t', '\r', '\n'] := by
  have hlen : (c.rest.takeWhile isBlank).length = 0 :=
    skip_inj (List.takeWhile_prefix _).length_le (Nat.zero_le _) h
  intro a ha hblank
  obtain ⟨more, hmore⟩ := List.head?_eq_some_iff.1 ha
  rw [hmore, List.takeWhile_cons, if_pos (Trivia.isBlank_iff.2 hblank)] at hlen
  cases hlen

theorem no_line_of_skipLineComment {c : Cursor} (h : c.skipLineComment = c) :
    ¬ ['-', '-'] <+: c.rest := by
  intro hstart
  rw [skipLineComment, startsWith, if_pos (List.isPrefixOf_iff_prefix.2 hstart)] at h
  have hlen : (c.rest.takeWhile (· != '\n')).length = 0 :=
    skip_inj (List.takeWhile_prefix _).length_le (Nat.zero_le _) h
  obtain ⟨body, hbody⟩ := hstart
  rw [← hbody, List.cons_append, List.cons_append, takeWhile_line] at hlen
  cases hlen

theorem no_block_of_skipBlockComment {c : Cursor} (h : c.skipBlockComment = c)
    (body : List Char) (hbody : c.rest = '/' :: '*' :: body) : ¬ ['*', '/'] <:+: body := by
  have hstart : c.startsWith ['/', '*'] = true :=
    List.isPrefixOf_iff_prefix.2 ⟨body, hbody.symm⟩
  rw [← Text.find?_eq_none_iff (List.cons_ne_nil _ _)]
  rw [skipBlockComment, if_pos hstart, findFrom_close hbody] at h
  rcases hf : Text.find? ['*', '/'] body with _ | n
  · rfl
  · rw [hf] at h
    have hrest : c.rest.drop (2 + n + 2) = c.rest := congrArg Cursor.rest h
    have hlen := congrArg List.length hrest
    rw [List.length_drop, hbody, List.length_cons, List.length_cons] at hlen
    omega

/-- A round that does not move the cursor leaves no trivia in front of it. -/
theorem bare_of_round {c : Cursor} (h : c.round.position.offset = c.position.offset) :
    Trivia.Bare c.rest := by
  have hblanks := passes_skipBlanks c
  have hline := passes_skipLineComment c.skipBlanks
  have hblock := passes_skipBlockComment c.skipBlanks.skipLineComment
  have hle := hblock.offset_le
  have hle' := hline.offset_le
  have hround := Nat.le_of_eq h
  unfold round at hround
  -- No reader moves the cursor back, so none of the three has moved it.
  have h1 : c.skipBlanks = c := hblanks.eq_of_offset_le (by omega)
  rw [h1] at hline hblock hle hround
  have h2 : c.skipLineComment = c := hline.eq_of_offset_le (by omega)
  rw [h2] at hblock hround
  have h3 : c.skipBlockComment = c := hblock.eq_of_offset_le hround
  exact ⟨no_blank_of_skipBlanks h1, no_line_of_skipLineComment h2, no_block_of_skipBlockComment h3⟩

theorem skipTrivia_of_bare {c : Cursor} (h : Trivia.Bare c.rest) : c.skipTrivia = c := by
  rw [skipTrivia, Trivia.split_of_clear (Trivia.bare_iff_clear.1 h)]
  rfl

/-- Round after round leads behind all trivia. -/
theorem rounds_eq (c : Cursor) : c.rounds = c.skipTrivia := by
  fun_induction rounds c with
  | case1 c h =>
    rw [(passes_round c).eq_of_offset_le (Nat.le_of_eq h), skipTrivia_of_bare (bare_of_round h)]
  | case2 c h ih => rw [ih, (passes_round c).skipTrivia_eq]

theorem passes_skipTrivia (c : Cursor) : c.Passes c.skipTrivia :=
  passes_skip (Trivia.split_append c.rest).symm (Trivia.gap_split c.rest)

theorem rest_skipTrivia (c : Cursor) : c.skipTrivia.rest = Trivia.skip c.rest :=
  (skip_append (Trivia.split_append c.rest).symm).1

theorem bare_skipTrivia (c : Cursor) : Trivia.Bare c.skipTrivia.rest := by
  rw [rest_skipTrivia, Trivia.bare_iff_clear]
  exact Trivia.clear_split c.rest

end Cursor

/-! ## A lexer at the end of its text -/

namespace Lexer

/-- The text that a series of calls has not taken: a lexer that never looked ahead has it all in
front of its cursor. -/
def untaken (lx : Lexer) (calls : List Call) : List Char :=
  (lx.after (withoutLooks calls)).cursor.rest

theorem Ahead.after {lx lx' : Lexer} (h : Ahead lx lx') (calls : List Call) :
    Ahead (lx.after (withoutLooks calls)) (lx'.after calls) := by
  induction calls generalizing lx lx' with
  | nil => exact h
  | cons c calls ih =>
    rw [after_cons, withoutLooks_cons]
    by_cases hl : c.looks = true
    · rw [if_pos hl]
      exact ih (h.call_looks hl)
    · rw [if_neg hl, after_cons]
      exact ih (h.call_lexer (by simpa using hl))

theorem ahead_after {lx : Lexer} (h : lx.ahead = .unread) (calls : List Call) :
    (lx.after (withoutLooks calls)).ahead = .unread := by
  induction calls generalizing lx with
  | nil => exact h
  | cons c calls ih =>
    rw [withoutLooks_cons]
    by_cases hl : c.looks = true
    · rw [if_pos hl]
      exact ih h
    · rw [if_neg hl, after_cons]
      exact ih (takes_call h (by simpa using hl)).ahead_eq

/-- A lexer that has looked holds what it saw. -/
theorem ahead_peek_ne (lx : Lexer) : lx.peek.lexer.ahead ≠ .unread := by
  obtain ⟨cursor, settings, ahead⟩ := lx
  cases ahead with
  | unread => exact Lookahead.noConfusion
  | read t => exact Lookahead.noConfusion

theorem isAtEnd_value (lx : Lexer) : lx.isAtEnd.value = lx.next.value.isNone := by
  rw [← peek_value]
  rfl

theorem produce_eq_none_iff (lx : Lexer) : lx.produce.value = none ↔ Gap lx.cursor.rest [] :=
  Cursor.next_eq_none_iff

end Lexer

/-! ## The laws -/

/-- All trivia in front of a cursor is skipped, and nothing else. -/
structure Cursor.SkipsAllTrivia (c : Cursor) : Prop where
  /-- What is skipped are blanks and comments, and none of them starts what is left. -/
  passes : c.Passes c.skipTrivia
  bare : Trivia.Bare c.skipTrivia.rest
  /-- No other stretch of the text is like that. -/
  unique : ∀ g rest, c.rest = g ++ rest → Gap g rest → Trivia.Bare rest →
    c.skipTrivia = c.skip g.length
  /-- Calling the three readers in turn comes to an end there. -/
  rounds_eq : c.rounds = c.skipTrivia
  /-- Steps of skipping in any order come to an end, none of them leads astray, and where no trivia
  is left, they have led to the same place. -/
  acc : Acc (fun rest cs => Trivia.Skips cs rest) c.rest
  goes_on : ∀ rest, Trivia.SkipsOn c.rest rest → Trivia.SkipsOn rest c.skipTrivia.rest
  ends : ∀ rest, Trivia.SkipsOn c.rest rest → Trivia.Bare rest → rest = c.skipTrivia.rest
  /-- Skipping again skips nothing. -/
  again : c.skipTrivia.skipTrivia = c.skipTrivia

/-- A lexer sees the end of its text where only trivia is left of it. -/
structure Lexer.SeesTheEnd (lx : Lexer) (calls : List Lexer.Call) : Prop where
  /-- Reading finds no token when only trivia is in front of the cursor. -/
  produce_eq_none_iff : (lx.after calls).produce.value = none ↔ Gap (lx.after calls).cursor.rest []
  /-- The end is seen when only trivia is left to take, whoever has looked before. -/
  isAtEnd_iff : (lx.after calls).isAtEnd.value = true ↔ Gap (lx.untaken calls) []
  /-- With nothing read ahead, the text to take is in front of the cursor. -/
  untaken_eq : (lx.after calls).ahead = .unread →
    lx.untaken calls = (lx.after calls).cursor.rest

theorem Cursor.skipsAllTrivia (c : Cursor) : c.SkipsAllTrivia := by
  refine ⟨passes_skipTrivia c, bare_skipTrivia c, ?_, rounds_eq c,
    Trivia.wellFounded_skips.apply c.rest, ?_, ?_, skipTrivia_of_bare (bare_skipTrivia c)⟩
  · intro g rest hr hg hb
    exact skipTrivia_of_gap hr hg (Trivia.bare_iff_clear.1 hb)
  · intro rest h
    rw [rest_skipTrivia]
    exact h.goes_on
  · intro rest h hb
    rw [rest_skipTrivia]
    exact h.eq_skip_of_bare hb

theorem Lexer.Opened.seesTheEnd {cs : List Char} {lx : Lexer} (h : lx.Opened cs)
    (calls : List Lexer.Call) : lx.SeesTheEnd calls := by
  have hahead : Ahead (lx.after (withoutLooks calls)) (lx.after calls) :=
    Ahead.after (Or.inl rfl) calls
  have hunread := ahead_after h.ahead_eq calls
  refine ⟨produce_eq_none_iff _, ?_, ?_⟩
  · rw [isAtEnd_value, hahead.next_value, next_of_unread hunread, Option.isNone_iff_eq_none]
    exact produce_eq_none_iff _
  · intro hempty
    rcases hahead with heq | heq
    · rw [untaken, heq]
    · rw [heq] at hempty
      exact absurd hempty (ahead_peek_ne _)

/-- Trivia is skipped to its end from every place in every text, and a lexer sees the end of its
text just where trivia is all that is left. -/
theorem trivia_is_skipped_to_its_end :
    (∀ c : Cursor, c.SkipsAllTrivia) ∧
      ∀ cs lx, Lexer.Opened cs lx → ∀ calls, lx.SeesTheEnd calls :=
  ⟨Cursor.skipsAllTrivia, fun _ _ h calls => h.seesTheEnd calls⟩

/-- A comment that is closed at the first mark behind its own, and a lexer that has looked at the
last token of its text, then taken it. -/
theorem trivia_of_two_lines_is_skipped_to_its_end :
    (Cursor.ofText " --a\n/*/*/*/ b".toList).SkipsAllTrivia ∧
      (Cursor.ofText " --a\n/*/*/*/ b".toList).skipTrivia.rest = "*/ b".toList ∧
      Lexer.Opened "a --b".toList (.ofText "a --b".toList) ∧
      (Lexer.ofText "a --b".toList).SeesTheEnd [.peek] ∧
      (Lexer.ofText "a --b".toList).untaken [.peek] = "a --b".toList ∧
      (Lexer.ofText "a --b".toList).SeesTheEnd [.peek, .next] ∧
      (Lexer.ofText "a --b".toList).untaken [.peek, .next] = " --b".toList := by
  have hopened : Lexer.Opened "a --b".toList (.ofText "a --b".toList) := .ofText
  refine ⟨trivia_is_skipped_to_its_end.1 _, by decide +kernel, hopened,
    trivia_is_skipped_to_its_end.2 _ _ hopened _, by decide +kernel,
    trivia_is_skipped_to_its_end.2 _ _ hopened _, by decide +kernel⟩

end SqlTokens
