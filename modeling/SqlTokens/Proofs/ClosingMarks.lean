-- The law of searching ahead: a search answers with the first place where its pattern stands
-- in full, or there is no such place. So a quote that closes a text and the mark that closes a
-- comment lie within the text, and what is read up to them is never cut short.
import Mathlib.Order.Bounds.Defs
import SqlTokens.Proofs.Places
import SqlTokens.Proofs.Skipping

namespace SqlTokens

open Lexeme (Reads quotes)

namespace Cursor

/-! ## Places ahead of a cursor -/

/-- The cursor after `n` characters were read one by one. At the end of the text it stays. -/
def advanceBy (c : Cursor) : Nat → Cursor
  | 0 => c
  | n + 1 => c.advance.2.advanceBy n

/-- The whole pattern is there when one looks ahead, its first character `k` places from here. -/
structure Stands (c : Cursor) (pat : List Char) (k : Nat) : Prop where
  fits : k + pat.length ≤ c.rest.length
  peekAhead_eq : ∀ i (h : i < pat.length), c.peekAhead (k + i) = some pat[i]

theorem advanceBy_eq_skip (c : Cursor) (n : Nat) : c.advanceBy n = c.skip n := by
  induction n generalizing c with
  | zero => simp [advanceBy, skip]
  | succ n ih =>
    unfold advanceBy advance
    rw [ih, skip_skip, Nat.add_comm]

theorem stands_iff_drop {c : Cursor} {pat : List Char} (h : pat ≠ []) {k : Nat} :
    c.Stands pat k ↔ pat <+: c.rest.drop k := by
  rw [List.prefix_iff_getElem?]
  constructor
  · intro hs i hi
    rw [List.getElem?_drop]
    exact hs.peekAhead_eq i hi
  · intro hp
    refine ⟨?_, ?_⟩
    -- an empty pattern would be a prefix of what is left even past the end
    · have hlen := (List.prefix_iff_getElem?.2 hp).length_le
      have hpos := List.length_pos_iff.2 h
      rw [List.length_drop] at hlen
      omega
    · intro i hi
      rw [peekAhead, ← List.getElem?_drop]
      exact hp i hi

theorem stands_iff_startsWith {c : Cursor} {pat : List Char} (h : pat ≠ []) {k : Nat} :
    c.Stands pat k ↔ (c.advanceBy k).startsWith pat = true := by
  rw [stands_iff_drop h, advanceBy_eq_skip, startsWith, List.isPrefixOf_iff_prefix, rest_skip]

/-- Counted from the start of the text, a place ahead lies behind all that was read. -/
theorem Exact.stands_iff {cs : List Char} {c : Cursor} (h : c.Exact cs) (pat : List Char)
    (k : Nat) : c.Stands pat k ↔ (ofText cs).Stands pat (c.position.offset + k) := by
  have hfits : k + pat.length ≤ c.rest.length ↔
      c.position.offset + k + pat.length ≤ (ofText cs).rest.length := by
    have hle := h.index_le
    rw [h.offset_eq, h.rest_eq, List.length_drop]
    simp only [ofText]
    omega
  have hpeek : ∀ i, c.peekAhead (k + i) = (ofText cs).peekAhead (c.position.offset + k + i) := by
    intro i
    rw [h.offset_eq, peekAhead, peekAhead, h.rest_eq, List.getElem?_drop, Nat.add_assoc]
    rfl
  constructor
  · intro hs
    exact ⟨hfits.1 hs.fits, fun i hi => (hpeek i).symm.trans (hs.peekAhead_eq i hi)⟩
  · intro hs
    exact ⟨hfits.2 hs.fits, fun i hi => (hpeek i).trans (hs.peekAhead_eq i hi)⟩

/-! ## The search -/

theorem findFrom_eq_some_iff {c : Cursor} {pat : List Char} (h : pat ≠ []) {n k : Nat} :
    c.findFrom n pat = some k ↔ IsLeast {j | n ≤ j ∧ c.Stands pat j} k := by
  simp only [findFrom_eq h, Option.map_eq_some_iff, Text.find?_eq_some_iff h, List.drop_drop,
    ← stands_iff_drop h]
  constructor
  · rintro ⟨m, ⟨hm, hlt⟩, rfl⟩
    refine ⟨⟨Nat.le_add_right n m, hm⟩, ?_⟩
    rintro j ⟨hj, hs⟩
    -- the search counts from its start, the set from the cursor
    obtain ⟨i, rfl⟩ := Nat.exists_eq_add_of_le hj
    have hi : ¬ i < m := fun hlt' => hlt i hlt' hs
    omega
  · rintro ⟨⟨hk, hs⟩, hleast⟩
    obtain ⟨m, rfl⟩ := Nat.exists_eq_add_of_le hk
    refine ⟨m, ⟨hs, ?_⟩, rfl⟩
    intro i hi hs'
    have hle := hleast ⟨Nat.le_add_right n i, hs'⟩
    omega

theorem findFrom_eq_none_iff {c : Cursor} {pat : List Char} (h : pat ≠ []) {n : Nat} :
    c.findFrom n pat = none ↔ ∀ k, n ≤ k → ¬ c.Stands pat k := by
  rw [findFrom_eq h, Option.map_eq_none_iff, Text.find?_eq_none_iff h]
  constructor
  · intro hi k hk hs
    obtain ⟨m, rfl⟩ := Nat.exists_eq_add_of_le hk
    rw [stands_iff_drop h, ← List.drop_drop] at hs
    exact hi (hs.isInfix.trans (List.drop_suffix m _).isInfix)
  · rintro hall ⟨a, b, hab⟩
    apply hall (n + a.length) (Nat.le_add_right n _)
    rw [stands_iff_drop h, ← List.drop_drop, ← hab, List.append_assoc, List.drop_left]
    exact List.prefix_append pat b

/-- Nothing is found where the pattern is longer than the text behind the start. -/
theorem findFrom_of_short {c : Cursor} {pat : List Char} (h : pat ≠ []) {n : Nat}
    (hlen : c.rest.length < n + pat.length) : c.findFrom n pat = none := by
  rw [findFrom_eq_none_iff h]
  intro k hk hs
  have hfits := hs.fits
  omega

/-! ## Reading up to a mark -/

/-- The text between the quote at a cursor and the next one, and the cursor behind that one.
Where no further quote stands, nothing is read. -/
def readQuoted? (c : Cursor) (quote : Char) : Option (List Char × Cursor) :=
  (c.findFrom 1 [quote]).map fun close =>
    let inner := c.advance.2.consume (close - 1)
    (inner.1, inner.2.advance.2)

/-- Reading up to a quote that was found `close` places ahead gives all that is asked for. -/
structure ReadsUpToQuote (c : Cursor) (quote : Char) (close : Nat) : Prop where
  /-- The quote lies at least one place ahead, so one character less can be asked for. -/
  one_le : 1 ≤ close
  opening : c.advance.1.isSome = true
  length_eq : (c.advance.2.consume (close - 1)).1.length = close - 1
  not_mem : quote ∉ (c.advance.2.consume (close - 1)).1
  closing : (c.advance.2.consume (close - 1)).2.advance.1 = some quote

/-- Reading a comment whose close mark was found `close` places ahead gives all that is asked
for, and that mark is the end of it. -/
structure ReadsComment (c : Cursor) (close : Nat) : Prop where
  length_eq : (c.consume (close + 2)).1.length = close + 2
  text_eq : ∃ body, (c.consume (close + 2)).1 = '/' :: '*' :: (body ++ ['*', '/']) ∧
    ¬ ['*', '/'] <:+: body
  skip_eq : c.skipBlockComment = (c.consume (close + 2)).2

theorem consume_append {c : Cursor} {a rest : List Char} (h : c.rest = a ++ rest) :
    c.consume a.length = (a, c.skip a.length) := by
  rw [consume, h, List.take_left]

theorem findFrom_quote {c : Cursor} {first : Char} {more : List Char} (h : c.rest = first :: more)
    (quote : Char) : c.findFrom 1 [quote] = (Text.find? [quote] more).map (1 + ·) :=
  findFrom_append (a := [first]) (List.cons_ne_nil _ _) h

/-- A quote that is found closes a text behind the first character. -/
theorem exists_quoted_of_findFrom {c : Cursor} {quote : Char} {close : Nat}
    (h : c.findFrom 1 [quote] = some close) :
    ∃ first s rest, c.rest = first :: (s ++ quote :: rest) ∧ quote ∉ s ∧ close = s.length + 1 := by
  rcases hc : c.rest with _ | ⟨first, more⟩
  · rw [findFrom_of_short (List.cons_ne_nil _ _) (by simp [hc])] at h
    cases h
  · rw [findFrom_quote hc] at h
    obtain ⟨n, hn, rfl⟩ := Option.map_eq_some_iff.1 h
    obtain ⟨s, rest, rfl, hs, rfl⟩ := Text.exists_append_of_find?_singleton hn
    exact ⟨first, s, rest, rfl, hs, Nat.add_comm 1 _⟩

theorem readsUpToQuote {c : Cursor} {quote : Char} {close : Nat}
    (h : c.findFrom 1 [quote] = some close) : c.ReadsUpToQuote quote close := by
  obtain ⟨first, s, rest, hrest, hs, rfl⟩ := exists_quoted_of_findFrom h
  have hinner : c.advance.2.rest = s ++ quote :: rest := by
    simp [advance, rest_skip, hrest]
  have hclose : (c.advance.2.skip s.length).rest = quote :: rest := (skip_append hinner).1
  refine ⟨Nat.succ_pos _, ?_, ?_, ?_, ?_⟩
  · simp [advance, peek, hrest]
  · rw [Nat.add_sub_cancel, consume_append hinner]
  · rwa [Nat.add_sub_cancel, consume_append hinner]
  · rw [Nat.add_sub_cancel, consume_append hinner, advance, peek, hclose]
    rfl

theorem readsComment {c : Cursor} (hstart : c.startsWith ['/', '*'] = true) {close : Nat}
    (h : c.findFrom 2 ['*', '/'] = some close) : c.ReadsComment close := by
  obtain ⟨body, rest, hrest, hbody, hlen⟩ := exists_comment_of_findFrom hstart h
  have hread := consume_append hrest
  rw [hlen] at hread
  refine ⟨?_, ⟨body, ?_, hbody⟩, ?_⟩
  · rw [hread, hlen]
  · rw [hread]
  · rw [skipBlockComment, if_pos hstart, h]

theorem readQuoted?_append {c : Cursor} {quote first : Char} {s rest : List Char}
    (h : c.rest = first :: (s ++ quote :: rest)) (hs : quote ∉ s) :
    c.readQuoted? quote = some (s, c.skip (s.length + 2)) := by
  have hinner : (c.skip 1).rest = s ++ quote :: rest := by
    simp [rest_skip, h]
  unfold readQuoted?
  rw [findFrom_quote h, Text.find?_singleton_append hs]
  simp only [Option.map_some, advance, Nat.add_sub_cancel_left, consume_append hinner, skip_skip]
  rw [Nat.add_comm 1, Nat.add_assoc]

theorem readQuoted?_eq_none {c : Cursor} {quote first : Char} {more : List Char}
    (h : c.rest = first :: more) (hq : quote ∉ more) : c.readQuoted? quote = none := by
  unfold readQuoted?
  rw [findFrom_quote h, Text.find?_singleton_eq_none hq]
  rfl

/-- What is read between two quotes is the text of a token. A quote without a partner is an error
by itself. -/
theorem readToken_quote {c : Cursor} {quote : Char} {kind : Kind} (hq : (quote, kind) ∈ quotes)
    (hc : c.peek = some quote) :
    c.readToken = ((c.readQuoted? quote).map fun (s, d) =>
      (some ⟨kind, .text (String.ofList s), c.position⟩, d)).getD
        (some (.error (String.ofList ("Unexpected character: '".toList ++ [quote, '\'']))
          c.position), c.skip 1) := by
  obtain ⟨more, hrest⟩ := List.head?_eq_some_iff.1 hc
  by_cases hmem : quote ∈ more
  · obtain ⟨s, rest, rfl, hs⟩ := List.eq_append_cons_of_mem hmem
    have hreads : Reads c.rest (quote :: (s ++ [quote])) kind (.text (String.ofList s)) := by
      rw [hrest]
      exact .quoted hq hs
    rw [readQuoted?_append hrest hs, (readToken_eq_iff.1 hreads).2]
    simp
  · rw [readQuoted?_eq_none hrest hmem]
    simp only [readToken, hrest, Lexeme.scan_quote hq, Lexeme.quoted?,
      Text.find?_singleton_eq_none hmem]
    rfl

/-! ## The laws -/

/-- Searching ahead of a cursor finds the first place where the pattern stands. -/
structure FindsTheFirst (c : Cursor) : Prop where
  /-- A pattern stands `k` places ahead when the text starts with it after `k` reads. -/
  stands_iff : ∀ pat, pat ≠ [] → ∀ k, c.Stands pat k ↔ (c.advanceBy k).startsWith pat = true
  /-- Places are counted from the cursor, wherever it is in its text. -/
  stands_iff_offset : ∀ cs, c.Exact cs → ∀ pat k,
    c.Stands pat k ↔ (ofText cs).Stands pat (c.position.offset + k)
  eq_some_iff : ∀ pat, pat ≠ [] → ∀ n k,
    c.findFrom n pat = some k ↔ IsLeast {j | n ≤ j ∧ c.Stands pat j} k
  eq_none_iff : ∀ pat, pat ≠ [] → ∀ n,
    c.findFrom n pat = none ↔ ∀ k, n ≤ k → ¬ c.Stands pat k
  /-- So it is when the search starts past the end, or the pattern is longer than what is left. -/
  eq_none_of_short : ∀ pat, pat ≠ [] → ∀ n, c.rest.length < n + pat.length →
    c.findFrom n pat = none

/-- Quoted texts and comments are read up to the mark that the search finds. -/
structure ReadsUpToMarks (c : Cursor) : Prop where
  readsUpToQuote : ∀ quote close, c.findFrom 1 [quote] = some close →
    c.ReadsUpToQuote quote close
  readsComment : c.startsWith ['/', '*'] = true → ∀ close,
    c.findFrom 2 ['*', '/'] = some close → c.ReadsComment close
  /-- This is how a token is read at a quote. -/
  readToken_quote : ∀ quote kind, (quote, kind) ∈ quotes → c.peek = some quote →
    c.readToken = ((c.readQuoted? quote).map fun (s, d) =>
      (some ⟨kind, .text (String.ofList s), c.position⟩, d)).getD
        (some (.error (String.ofList ("Unexpected character: '".toList ++ [quote, '\'']))
          c.position), c.skip 1)
  /-- This is how comments are skipped in front of a token. -/
  rounds_eq : c.rounds = c.skipTrivia

/-- From every place in a text, a search finds the first occurrence of its pattern and nothing
else, and reading up to a mark that was found stays within the text. -/
theorem the_first_occurrence_is_found (c : Cursor) : c.FindsTheFirst ∧ c.ReadsUpToMarks := by
  refine ⟨⟨?_, ?_, ?_, ?_, ?_⟩, ⟨?_, ?_, ?_, rounds_eq c⟩⟩
  · exact fun pat h k => stands_iff_startsWith h
  · exact fun cs h pat k => h.stands_iff pat k
  · exact fun pat h n k => findFrom_eq_some_iff h
  · exact fun pat h n => findFrom_eq_none_iff h
  · exact fun pat h n hlen => findFrom_of_short h hlen
  · exact fun quote close h => Cursor.readsUpToQuote h
  · exact fun hstart close h => Cursor.readsComment hstart h
  · exact fun quote kind hq hc => Cursor.readToken_quote hq hc

/-- Behind a line, a comment whose marks must not overlap, and a quoted text without a character. -/
theorem the_first_marks_behind_a_line_are_found :
    ((ofText "a\n/*/*/''".toList).after [.consume 2]).findFrom 2 ['*', '/'] = some 3 ∧
      ((ofText "a\n/*/*/''".toList).after [.consume 2]).ReadsComment 3 ∧
      IsLeast {k | 2 ≤ k ∧
        ((ofText "a\n/*/*/''".toList).after [.consume 2]).Stands ['*', '/'] k} 3 ∧
      (ofText "a\n/*/*/''".toList).Stands ['*', '/'] 5 ∧
      ((ofText "a\n/*/*/''".toList).after [.consume 7]).findFrom 1 ['\''] = some 1 ∧
      ((ofText "a\n/*/*/''".toList).after [.consume 7]).ReadsUpToQuote '\'' 1 ∧
      ((ofText "a\n/*/*/''".toList).after [.consume 7]).findFrom 3 ['\''] = none := by
  have hcomment := the_first_occurrence_is_found
    ((ofText "a\n/*/*/''".toList).after [.consume 2])
  have hquote := the_first_occurrence_is_found ((ofText "a\n/*/*/''".toList).after [.consume 7])
  have hfound : ((ofText "a\n/*/*/''".toList).after [.consume 2]).findFrom 2 ['*', '/'] =
      some 3 := by decide +kernel
  have hclose : ((ofText "a\n/*/*/''".toList).after [.consume 7]).findFrom 1 ['\''] = some 1 := by
    decide +kernel
  have hleast := (hcomment.1.eq_some_iff ['*', '/'] (by simp) 2 3).1 hfound
  refine ⟨hfound, hcomment.2.readsComment (by decide +kernel) 3 hfound, hleast, ?_, hclose,
    hquote.2.readsUpToQuote '\'' 1 hclose, ?_⟩
  · exact (hcomment.1.stands_iff_offset _ (exact_after _ _) _ _).1 hleast.1.2
  · exact hquote.1.eq_none_of_short _ (by simp) 3 (by decide +kernel)

end Cursor

end SqlTokens
