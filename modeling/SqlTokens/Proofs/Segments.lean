-- The law of segments: reading that stops at errors hands out the tokens of a text in
-- segments, cut behind every error. No token is dropped at a cut, and no text is
-- skipped behind it.
import Mathlib.Data.List.GetD
import Mathlib.Data.List.SplitBy
import Mathlib.Data.List.TakeWhile
import SqlTokens.Proofs.Places

namespace SqlTokens

/-! ## Pieces cut behind errors -/

/-- The pieces of a text, cut behind every error. -/
def segments (ps : List Piece) : List (List Piece) := ps.splitBy fun p _ => !p.token.isError

/-- How many characters are in front of the cursor when a segment has been taken. An error stops
the reading right behind its lexeme; otherwise the reading goes on to the end of the text. -/
def endOf (cs : List Char) (seg : List Piece) : Nat :=
  match seg.getLast? with
  | some p => if p.token.isError then p.token.position.offset + p.lexeme.length else cs.length
  | none => cs.length

theorem isChain_iff_dropLast {α : Type} {P : α → Prop} {l : List α} :
    l.IsChain (fun x _ => P x) ↔ ∀ x ∈ l.dropLast, P x := by
  induction l with
  | nil => simp
  | cons a l ih =>
    cases l with
    | nil => simp
    | cons b l => rw [List.isChain_cons_cons, ih, List.dropLast_cons_cons, List.forall_mem_cons]

/-- Errors that stand at most at the end leave a single segment. -/
theorem segments_eq_singleton {seg : List Piece} (hne : seg ≠ [])
    (h : ∀ p ∈ seg.dropLast, p.token.isError = false) : segments seg = [seg] := by
  apply List.splitBy_of_isChain hne
  rw [isChain_iff_dropLast]
  intro p hp
  rw [h p hp]
  rfl

theorem segments_error {front : List Piece} {p : Piece}
    (hfront : ∀ q ∈ front, q.token.isError = false) (hp : p.token.isError = true)
    (rest : List Piece) : segments (front ++ p :: rest) = (front ++ [p]) :: segments rest := by
  have hfirst : segments (front ++ [p]) = [front ++ [p]] := by
    apply segments_eq_singleton
    · simp
    · rwa [List.dropLast_concat]
  have hlist : front ++ p :: rest = (front ++ [p]) ++ rest := by simp
  unfold segments at hfirst ⊢
  rw [hlist, List.splitBy_append, hfirst, List.singleton_append]
  intro q hq r _
  rw [List.getLast?_concat] at hq
  cases hq
  rw [hp]
  rfl

theorem ne_nil_of_mem_segments {ps seg : List Piece} (h : seg ∈ segments ps) : seg ≠ [] :=
  List.ne_nil_of_mem_splitBy h

/-- Behind the last segment there is none, and no segment is empty. -/
theorem getD_segments_eq_nil_iff {ps : List Piece} {n : Nat} :
    (segments ps).getD n [] = [] ↔ (segments ps).length ≤ n := by
  constructor
  · intro hnil
    by_contra hlt
    rw [List.getD_eq_getElem _ _ (Nat.lt_of_not_le hlt)] at hnil
    exact ne_nil_of_mem_segments (List.getElem_mem _) hnil
  · exact List.getD_eq_default _ _

/-- An error is the last piece of its segment. -/
theorem isError_of_mem_dropLast {ps seg : List Piece} (h : seg ∈ segments ps) :
    ∀ p ∈ seg.dropLast, p.token.isError = false := by
  have hchain := List.isChain_of_mem_splitBy h
  rw [isChain_iff_dropLast] at hchain
  intro p hp
  simpa using hchain p hp

/-- A segment with another one behind it ends in an error. -/
theorem exists_error_of_mem_dropLast {ps seg : List Piece} (h : seg ∈ (segments ps).dropLast) :
    ∃ p ∈ seg.getLast?, p.token.isError = true := by
  have hchain := List.isChain_getLast_head_splitBy (fun (p : Piece) _ => !p.token.isError) ps
  have hends : (segments ps).IsChain fun s _ => ∃ p ∈ s.getLast?, p.token.isError = true := by
    apply hchain.imp
    rintro s _ ⟨hs, _, hp⟩
    exact ⟨s.getLast hs, List.getLast?_eq_some_getLast hs, by simpa using hp⟩
  exact isChain_iff_dropLast.1 hends seg h

/-! ## One segment -/

/-- Reading that stops at errors took a segment and led from the cursor `c` to `c'`. Either the
segment ends in an error and `c'` stands behind its lexeme, or it is all that was left. -/
inductive Segment (c c' : Cursor) : List Piece → Prop
  | error {front : List Piece} {p : Piece} :
      (∀ q ∈ front, q.token.isError = false) → p.token.isError = true →
      c.pieces = front ++ p :: c'.pieces →
      c'.position.offset = p.token.position.offset + p.lexeme.length → Segment c c' (front ++ [p])
  | rest : (∀ q ∈ c.pieces, q.token.isError = false) → c'.rest = [] → Segment c c' c.pieces

theorem Cursor.pieces_of_rest_eq_nil {c : Cursor} (h : c.rest = []) : c.pieces = [] := by
  apply pieces_of_gap
  rw [h]
  exact Trivia.Gap.nil

/-- Behind the next token the cursor stands at the end of its lexeme. -/
theorem Cursor.exists_piece_of_some {c : Cursor} {t : Token} (h : c.next.1 = some t) :
    ∃ p, p.token = t ∧ c.pieces = p :: c.next.2.pieces ∧
      c.next.2.position.offset = t.position.offset + p.lexeme.length := by
  rcases gap_or_reads c.rest with hg | ⟨g, w, rest, kind, value, hr, hg, hc, hw⟩
  · rw [next_of_gap hg] at h
    cases h
  · have hnext := next_of_reads hr hg hc hw
    have hrest : c.rest = (g ++ w) ++ rest := by rw [hr, List.append_assoc]
    rw [hnext] at h ⊢
    cases h
    refine ⟨_, rfl, pieces_of_reads hr hg hc hw, ?_⟩
    rw [(skip_append hrest).2, Position.past_append, Position.offset_past]

theorem Segment.cons {c d c' : Cursor} {p : Piece} {seg : List Piece} (h : Segment d c' seg)
    (hp : p.token.isError = false) (hpieces : c.pieces = p :: d.pieces) :
    Segment c c' (p :: seg) := by
  cases h with
  | @error front q hfront hq heq hoff =>
    have hfront' : ∀ r ∈ p :: front, r.token.isError = false := List.forall_mem_cons.2 ⟨hp, hfront⟩
    exact .error hfront' hq (by rw [hpieces, heq, List.cons_append]) hoff
  | rest hno hend =>
    rw [← hpieces]
    refine .rest ?_ hend
    rw [hpieces, List.forall_mem_cons]
    exact ⟨hp, hno⟩

/-- The segments of what is left are the one that is taken now, if there is any, and the segments
of what is left behind it. -/
theorem Segment.getD_segments {c c' : Cursor} {seg : List Piece} (h : Segment c c' seg) :
    (segments c.pieces).getD 0 [] = seg ∧
      ∀ n, (segments c.pieces).getD (n + 1) [] = (segments c'.pieces).getD n [] := by
  cases h with
  | error hfront hp heq _ =>
    rw [heq, segments_error hfront hp]
    exact ⟨rfl, fun n => rfl⟩
  | rest hno hend =>
    rw [Cursor.pieces_of_rest_eq_nil hend]
    by_cases hne : c.pieces = []
    · rw [hne]
      exact ⟨rfl, fun n => rfl⟩
    · rw [segments_eq_singleton hne fun p hp => hno p (List.dropLast_subset _ hp)]
      exact ⟨rfl, fun n => rfl⟩

theorem Segment.offset_eq {cs front : List Char} {c c' : Cursor} {seg : List Piece}
    (h : Segment c c' seg) (hb : c'.Behind cs front) : c'.position.offset = endOf cs seg := by
  unfold endOf
  cases h with
  | error _ hp _ hoff => simp only [List.getLast?_concat, hp, if_true, hoff]
  | rest hno hend =>
    have hall : c'.position.offset = cs.length := by
      rw [hb.position_eq, hb.text_eq, hend, List.append_nil]
      rfl
    rw [hall]
    split
    · rename_i p hp
      rw [hno p (List.mem_of_getLast? hp)]
      rfl
    · rfl

namespace Lexer

/-! ## One call -/

theorem segment_takeUntil {lx : Lexer} (h : lx.ahead = .unread) :
    ∃ seg, Segment lx.cursor (lx.takeUntil Token.isError).lexer.cursor seg ∧
      (lx.takeUntil Token.isError).value = seg.map (·.token) := by
  fun_induction takeUntil Token.isError lx with
  | case1 lx ht =>
    rw [next_of_unread h] at ht ⊢
    have hnone : lx.cursor.pieces = [] := Cursor.pieces_of_none ht
    refine ⟨lx.cursor.pieces, .rest ?_ ?_, ?_⟩
    · rw [hnone]
      exact fun q hq => absurd hq List.not_mem_nil
    · have hg := Cursor.next_of_gap (Cursor.next_eq_none_iff.1 ht)
      simp only [produce, hg, Cursor.rest_skip, List.drop_length]
    · rw [hnone]
      rfl
  | case2 lx t ht hs =>
    rw [next_of_unread h] at ht ⊢
    obtain ⟨p, rfl, hpieces, hoff⟩ := Cursor.exists_piece_of_some ht
    have hnone : ∀ q ∈ ([] : List Piece), q.token.isError = false :=
      fun q hq => absurd hq List.not_mem_nil
    exact ⟨[p], .error hnone hs hpieces hoff, rfl⟩
  | case3 lx t ht hs more ih =>
    obtain ⟨seg, hseg, hvalue⟩ := ih (takes_next h).ahead_eq
    rw [next_of_unread h] at ht
    obtain ⟨p, rfl, hpieces, -⟩ := Cursor.exists_piece_of_some ht
    refine ⟨p :: seg, hseg.cons (by simpa using hs) ?_, ?_⟩
    · rw [next_of_unread h]
      exact hpieces
    · rw [List.map_cons, ← hvalue]

theorem settings_next (lx : Lexer) : lx.next.lexer.settings = lx.settings := by
  obtain ⟨cursor, settings, ahead⟩ := lx
  cases ahead <;> rfl

theorem composes_settings : Composes fun lx _ _ lx' => lx'.settings = lx.settings where
  refl _ := rfl
  next := settings_next
  trans h h' := h'.trans h

theorem settings_takeUntil (stop : Token → Bool) (lx : Lexer) :
    (lx.takeUntil stop).lexer.settings = lx.settings :=
  composes_settings.takeUntil stop lx

theorem tokenize_value_of_not_stopOnError {lx : Lexer} (h : lx.settings.stopOnError = false) :
    lx.tokenize.value = lx.collect.value := by
  simp only [tokenize, collect, h, Bool.and_false]

theorem tokenize_of_stopOnError {lx : Lexer} (h : lx.settings.stopOnError = true) :
    lx.tokenize.value = (lx.takeUntil Token.isError).value ∧
      lx.tokenize.lexer = (lx.takeUntil Token.isError).lexer := by
  simp only [tokenize, h, Bool.and_true, and_self]

/-! ## Call after call -/

/-- A lexer that stops at errors, in front of a call: nothing is read ahead, and the cursor stands
somewhere in the text. -/
structure StopsAtErrors (cs : List Char) (lx : Lexer) : Prop where
  ahead_eq : lx.ahead = .unread
  stopOnError_eq : lx.settings.stopOnError = true
  behind : ∃ front, lx.cursor.Behind cs front

/-- The outcome of a call of `tokenize` that follows `n` others. -/
def batch (lx : Lexer) : Nat → Outcome (List Token)
  | 0 => lx.tokenize
  | n + 1 => lx.tokenize.lexer.batch n

theorem StopsAtErrors.tokenize {cs : List Char} {lx : Lexer} (h : lx.StopsAtErrors cs) :
    lx.tokenize.lexer.StopsAtErrors cs := by
  rw [(tokenize_of_stopOnError h.stopOnError_eq).2]
  refine ⟨(takes_takeUntil _ h.ahead_eq).ahead_eq, ?_, exists_behind_takeUntil _ h.behind⟩
  rw [settings_takeUntil]
  exact h.stopOnError_eq

theorem StopsAtErrors.exists_segment {cs : List Char} {lx : Lexer} (h : lx.StopsAtErrors cs) :
    ∃ seg, Segment lx.cursor lx.tokenize.lexer.cursor seg ∧
      lx.tokenize.value = seg.map (·.token) := by
  obtain ⟨hvalue, hlexer⟩ := tokenize_of_stopOnError h.stopOnError_eq
  rw [hvalue, hlexer]
  exact segment_takeUntil h.ahead_eq

/-- A call takes the next segment, and the cursor stops where the segment ends. -/
theorem StopsAtErrors.batch_eq {cs : List Char} {lx : Lexer} (h : lx.StopsAtErrors cs) (n : Nat) :
    (lx.batch n).value = ((segments lx.cursor.pieces).getD n []).map (·.token) ∧
      (lx.batch n).lexer.cursor =
        (Cursor.ofText cs).skip (endOf cs ((segments lx.cursor.pieces).getD n [])) := by
  induction n generalizing lx with
  | zero =>
    obtain ⟨seg, hseg, hvalue⟩ := h.exists_segment
    obtain ⟨front, hf⟩ := h.tokenize.behind
    rw [batch, hseg.getD_segments.1]
    refine ⟨hvalue, ?_⟩
    rw [← hseg.offset_eq hf]
    exact hf.eq_skip
  | succ n ih =>
    obtain ⟨seg, hseg, -⟩ := h.exists_segment
    rw [batch, hseg.getD_segments.2]
    exact ih h.tokenize

theorem StopsAtErrors.first_eq {cs : List Char} {lx : Lexer} (h : lx.StopsAtErrors cs) :
    (lx.batch 0).value = lx.cursor.tokens.takeWhile (!·.isError) ++
      (lx.cursor.tokens.dropWhile (!·.isError)).take 1 := by
  obtain ⟨seg, hseg, hvalue⟩ := h.exists_segment
  rw [batch, hvalue, ← Cursor.map_token_pieces]
  generalize lx.tokenize.lexer.cursor = c' at hseg
  cases hseg with
  | @error front p hfront hp heq _ =>
    have hfront' : ∀ t ∈ front.map (·.token), (!t.isError) = true := by simpa using hfront
    simp only [heq, List.map_append]
    rw [List.takeWhile_append_of_pos hfront', List.dropWhile_append_of_pos hfront']
    simp [hp]
  | rest hno _ =>
    have hno' : ∀ t ∈ lx.cursor.pieces.map (·.token), (!t.isError) = true := by
      simpa using hno
    rw [List.takeWhile_eq_self_iff.2 hno', List.dropWhile_eq_nil_iff.2 hno']
    simp

/-! ## The laws -/

/-- Calls of `tokenize` on one lexer, one after the other, hand out all tokens of a text in
segments. -/
structure CutsBehindErrors (cs : List Char) (all : List Token) (lx : Lexer)
    (segs : List (List Piece)) : Prop where
  /-- The segments are the whole text, and hold all its tokens. -/
  flatten_eq : segs.flatten = pieces cs
  tokens_eq : (segs.map (·.map (·.token))).flatten = all
  /-- Every call takes one segment. When there is none left, no token is. -/
  value_eq : ∀ n, (lx.batch n).value = (segs.getD n []).map (·.token)
  value_eq_nil_iff : ∀ n, (lx.batch n).value = [] ↔ segs.length ≤ n
  /-- An error is the last token of its segment. -/
  error_last : ∀ seg ∈ segs, ∀ p ∈ seg.dropLast, p.token.isError = false
  /-- Every segment but the last one ends in an error. -/
  ends_in_error : ∀ seg ∈ segs.dropLast, ∃ p ∈ seg.getLast?, p.token.isError = true
  /-- The first call takes the tokens up to the first error, and that error. -/
  first_eq : (lx.batch 0).value =
    all.takeWhile (!·.isError) ++ (all.dropWhile (!·.isError)).take 1
  /-- The cursor stands behind the lexeme of an error, or at the end of the text. -/
  cursor_eq : ∀ n, (lx.batch n).lexer.cursor =
    (Cursor.ofText cs).skip (endOf cs (segs.getD n []))

/-- Stopping at errors cuts the tokens of a text into segments, and does nothing else. The other
settings of the two lexers do not matter. -/
theorem stopping_at_errors_cuts_the_stream {cs : List Char} {s s' : Settings} {lx lx' : Lexer}
    (h : withSettings cs s = .ok lx) (hs : s.stopOnError = false)
    (h' : withSettings cs s' = .ok lx') (hs' : s'.stopOnError = true) :
    (∀ other, Opened cs other → other.collect.value = lx.tokenize.value) ∧
      CutsBehindErrors cs lx.tokenize.value lx' (segments (pieces cs)) := by
  have hall : lx.tokenize.value = stream cs := by
    rw [eq_of_withSettings h, tokenize_value_of_not_stopOnError hs, collect_value rfl]
    rfl
  have hstops : lx'.StopsAtErrors cs := by
    rw [eq_of_withSettings h']
    exact ⟨rfl, hs', [], Cursor.behind_ofText cs⟩
  have hcursor : lx'.cursor = .ofText cs := by rw [eq_of_withSettings h']
  have hbatch := hstops.batch_eq
  rw [hcursor] at hbatch
  refine ⟨?_, List.flatten_splitBy _ _, ?_, fun n => (hbatch n).1, ?_,
    fun seg => isError_of_mem_dropLast, fun seg => exists_error_of_mem_dropLast, ?_,
    fun n => (hbatch n).2⟩
  · intro other ho
    rw [hall, collect_value ho.ahead_eq, ho.cursor_eq]
    rfl
  · rw [hall, ← List.map_flatten, segments, List.flatten_splitBy, map_token_pieces]
  · intro n
    rw [(hbatch n).1, List.map_eq_nil_iff]
    exact getD_segments_eq_nil_iff
  · rw [hall, hstops.first_eq, hcursor]
    rfl

/-- A quote without a partner and a lone exclamation mark, with a comment behind them. -/
theorem stopping_at_two_errors_cuts_a_line :
    withSettings "a ' 1 ! --".toList { stopOnError := false } =
        .ok ⟨.ofText "a ' 1 ! --".toList, { stopOnError := false }, .unread⟩ ∧
      withSettings "a ' 1 ! --".toList { maxInputLength := some 10, traceTokens := true } =
        .ok ⟨.ofText "a ' 1 ! --".toList, { maxInputLength := some 10, traceTokens := true },
          .unread⟩ ∧
      CutsBehindErrors "a ' 1 ! --".toList
        (Lexer.mk (.ofText "a ' 1 ! --".toList) { stopOnError := false } .unread).tokenize.value
        ⟨.ofText "a ' 1 ! --".toList, { maxInputLength := some 10, traceTokens := true }, .unread⟩
        (segments (pieces "a ' 1 ! --".toList)) ∧
      (segments (pieces "a ' 1 ! --".toList)).map (·.map (·.lexeme)) =
        [[['a'], ['\'']], [['1'], ['!']]] := by
  have hall : withSettings "a ' 1 ! --".toList { stopOnError := false } =
      .ok ⟨.ofText "a ' 1 ! --".toList, { stopOnError := false }, .unread⟩ := rfl
  have hstops : withSettings "a ' 1 ! --".toList { maxInputLength := some 10, traceTokens := true } =
      .ok ⟨.ofText "a ' 1 ! --".toList, { maxInputLength := some 10, traceTokens := true },
        .unread⟩ := rfl
  refine ⟨hall, hstops, ?_, by decide +kernel⟩
  exact (stopping_at_errors_cuts_the_stream hall rfl hstops rfl).2

end Lexer

end SqlTokens
