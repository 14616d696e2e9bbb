-- The law of the log: a token is logged when it is read from the text, and only then.
-- However takes and looks follow each other, the records that they leave are those of
-- the tokens taken so far and of the token that is held for the next take.
import SqlTokens.Proofs.Lookahead

namespace SqlTokens

/-! ## Records in words -/

/-- The records of one token, as they stand in the log. -/
def Token.records (trace : Bool) (t : Token) : List String :=
  (if t.isError then ["DEBUG " ++ t.value.display ++ " at " ++ t.position.display] else []) ++
    (if trace then ["TRACE " ++ t.display] else [])

/-- The record that ends a call of `tokenize`. -/
def tokenizedRecord (count : Nat) (stopped : Position) : String :=
  "DEBUG Tokenized " ++ count.repr ++ " tokens, stopped at " ++ stopped.display

namespace Log.Event

theorem display_failed (t : Token) :
    (failed t).display = "DEBUG " ++ t.value.display ++ " at " ++ t.position.display := by
  have hlevel : ("DEBUG" : String) ++ " " = "DEBUG " := by rfl
  simp only [display, level, Level.name, message, ← String.append_assoc, hlevel]

theorem display_produced (t : Token) : (produced t).display = "TRACE " ++ t.display := by
  have hlevel : ("TRACE" : String) ++ " " = "TRACE " := by rfl
  simp only [display, level, Level.name, message, hlevel]

theorem display_tokenized (count : Nat) (stopped : Position) :
    (tokenized count stopped).display = tokenizedRecord count stopped := by
  have hlevel : ("DEBUG" : String) ++ " " ++ "Tokenized " = "DEBUG Tokenized " := by
    rw [← String.toList_inj]
    simp
  unfold display tokenizedRecord
  rw [← hlevel]
  simp only [level, Level.name, message, String.append_assoc]

theorem map_display_ofToken (trace : Bool) (t : Token) :
    (ofToken trace t).map display = t.records trace := by
  unfold ofToken Token.records
  rw [List.map_append, ← display_failed, ← display_produced]
  congr 1
  · split <;> rfl
  · split <;> rfl

end Log.Event

namespace Lexer

/-! ## What a series leaves behind -/

/-- The token that has been looked at but not taken, if there is one. -/
def held (lx : Lexer) : List Token :=
  match lx.ahead with
  | .read t => t.toList
  | .unread => []

/-- The records of a call without the one that ends a call of `tokenize`. -/
def Outcome.tokenLog (o : Outcome Reply) : Call → List Log.Event
  | .tokenize => o.log.dropLast
  | _ => o.log

/-- The records of a series of calls, without those that end the calls of `tokenize`. -/
def logged (lx : Lexer) (calls : List Call) : List Log.Event :=
  (calls.zip (lx.run calls)).flatMap fun step => step.2.tokenLog step.1

theorem logged_cons (lx : Lexer) (c : Call) (calls : List Call) :
    lx.logged (c :: calls) = (lx.call c).tokenLog c ++ (lx.call c).lexer.logged calls := rfl

theorem held_of_unread {lx : Lexer} (h : lx.ahead = .unread) : lx.held = [] := by
  rw [held, h]

/-! ## One call -/

/-- Some tokens were read on the way from `lx` to `lx'`. The log has their records, and they stand
behind the token held before: the front of them all was taken as `out`, the rest is held. -/
structure Accounts (lx : Lexer) (out : List Token) (log : List Log.Event) (lx' : Lexer) : Prop where
  settings_eq : lx'.settings = lx.settings
  exists_read : ∃ read, lx.cursor.tokens = read ++ lx'.cursor.tokens ∧
    log = read.flatMap (Log.Event.ofToken lx.settings.traceTokens) ∧ lx.held ++ read = out ++ lx'.held

theorem accounts_nil (lx : Lexer) : Accounts lx [] [] lx :=
  ⟨rfl, [], rfl, rfl, List.append_nil _⟩

theorem Accounts.trans {lx lx' lx'' : Lexer} {out out' : List Token} {log log' : List Log.Event}
    (h : Accounts lx out log lx') (h' : Accounts lx' out' log' lx'') :
    Accounts lx (out ++ out') (log ++ log') lx'' := by
  obtain ⟨read, hread, hlog, hheld⟩ := h.exists_read
  obtain ⟨read', hread', hlog', hheld'⟩ := h'.exists_read
  refine ⟨h'.settings_eq.trans h.settings_eq, read ++ read', ?_, ?_, ?_⟩
  · rw [hread, hread', List.append_assoc]
  · rw [hlog, hlog', h.settings_eq, List.flatMap_append]
  · calc lx.held ++ (read ++ read') = out ++ (lx'.held ++ read') := by
          rw [← List.append_assoc, hheld, List.append_assoc]
      _ = (out ++ out') ++ lx''.held := by rw [hheld', List.append_assoc]

/-- Reading a token logs it. Finding the end logs nothing. -/
theorem log_produce (lx : Lexer) : lx.produce.log =
    lx.produce.value.toList.flatMap (Log.Event.ofToken lx.settings.traceTokens) := by
  rcases ht : lx.cursor.next.1 with _ | t
  · simp [produce, ht]
  · simp [produce, ht]

theorem accounts_next (lx : Lexer) : Accounts lx lx.next.value.toList lx.next.log lx.next.lexer := by
  rcases ha : lx.ahead with _ | t
  · rw [next_of_unread ha]
    refine ⟨rfl, lx.produce.value.toList, tokens_produce lx, log_produce lx, ?_⟩
    rw [held_of_unread ha, @held_of_unread lx.produce.lexer ha]
    simp
  · simp only [next, ha]
    refine ⟨rfl, [], rfl, rfl, ?_⟩
    simp [held, ha]

theorem accounts_peek (lx : Lexer) : Accounts lx [] lx.peek.log lx.peek.lexer := by
  rcases ha : lx.ahead with _ | t
  · simp only [peek, ha]
    refine ⟨rfl, lx.produce.value.toList, tokens_produce lx, log_produce lx, ?_⟩
    simp [held, ha]
  · simp only [peek, ha]
    exact accounts_nil lx

theorem composes_accounts : Composes Accounts where
  refl := accounts_nil
  next := accounts_next
  trans := Accounts.trans

theorem tokenize_log (lx : Lexer) : lx.tokenize.log =
    (lx.takeUntil fun t => t.isError && lx.settings.stopOnError).log ++
      [.tokenized lx.tokenize.value.length lx.tokenize.lexer.position] := rfl

/-- A call of `tokenize` gives the token that was held and those that it reads. It logs the
latter, and then how many it gave. -/
theorem exists_read_tokenize (lx : Lexer) : ∃ read, lx.tokenize.value = lx.held ++ read ∧
    lx.tokenize.log = read.flatMap (Log.Event.ofToken lx.settings.traceTokens) ++
      [.tokenized lx.tokenize.value.length lx.tokenize.lexer.position] := by
  obtain ⟨read, -, hlog, hheld⟩ :=
    (composes_accounts.takeUntil (fun t => t.isError && lx.settings.stopOnError) lx).exists_read
  rw [held_of_unread (ahead_takeUntil _ lx), List.append_nil] at hheld
  refine ⟨read, hheld.symm, ?_⟩
  rw [tokenize_log, hlog]

/-- The step lemma: every call accounts for what it takes and for what it logs. -/
theorem accounts_call (lx : Lexer) (c : Call) :
    Accounts lx (if c.takes then (lx.call c).value.delivered else []) ((lx.call c).tokenLog c)
      (lx.call c).lexer := by
  cases c with
  | next => exact accounts_next lx
  | peek => exact accounts_peek lx
  | isAtEnd => exact accounts_peek lx
  | position => exact accounts_nil lx
  | settings => exact accounts_nil lx
  | collect => exact composes_accounts.takeUntil _ lx
  | take n => exact composes_accounts.take n lx
  | tokenize =>
    have hlog : (lx.call .tokenize).tokenLog .tokenize =
        (lx.takeUntil fun t => t.isError && lx.settings.stopOnError).log := by
      simp only [Outcome.tokenLog, Lexer.call, Outcome.map, tokenize_log, List.dropLast_concat]
    rw [hlog]
    exact composes_accounts.takeUntil _ lx

/-! ## A series of calls -/

theorem accounts_calls (lx : Lexer) (calls : List Call) :
    Accounts lx (lx.delivered calls) (lx.logged calls) (lx.after calls) := by
  induction calls generalizing lx with
  | nil => exact accounts_nil lx
  | cons c calls ih =>
    rw [delivered_cons, logged_cons, after_cons]
    exact (accounts_call lx c).trans (ih _)

/-! ## The law -/

/-- The log of a series of calls on a text has each token that was read, once and in order. -/
structure LogsOnce (cs : List Char) (lx : Lexer) (calls : List Call) : Prop where
  /-- The tokens that were taken and the one that is held are the front of the stream. -/
  tokens_eq : (stream cs).take ((lx.delivered calls).length + (lx.after calls).held.length) =
    lx.delivered calls ++ (lx.after calls).held
  /-- At most one token is held. -/
  length_held_le : (lx.after calls).held.length ≤ 1
  /-- The log has the records of these tokens and no others. -/
  records_eq : (lx.logged calls).map Log.Event.display =
    ((stream cs).take ((lx.delivered calls).length + (lx.after calls).held.length)).flatMap
      (Token.records lx.settings.traceTokens)
  /-- A call of `tokenize` gives the token that was held before it and those that it reads. It logs
  the latter, and ends with the number of all tokens that it gave and the place where the cursor
  stands after it. -/
  tokenize_eq : ∀ i : Nat, calls[i]? = some .tokenize →
    ∃ (o : Outcome Reply) (ts read : List Token),
      (lx.run calls)[i]? = some o ∧ o.value = .tokens ts ∧
      ts = (lx.after (calls.take i)).held ++ read ∧
      o.log.dropLast.map Log.Event.display =
        read.flatMap (Token.records lx.settings.traceTokens) ∧
      o.log.getLast?.map Log.Event.display = some (tokenizedRecord ts.length o.lexer.position)

theorem length_held_le_one (lx : Lexer) : lx.held.length ≤ 1 := by
  unfold held
  split
  · exact Option.length_toList_le
  · exact Nat.zero_le 1

/-- Each token is logged when it is read, whoever asks for it, and never again. -/
theorem every_token_is_logged_once {cs : List Char} {lx : Lexer} (h : lx.Opened cs)
    (calls : List Call) : LogsOnce cs lx calls := by
  obtain ⟨read, hread, hlog, hheld⟩ := (accounts_calls lx calls).exists_read
  rw [held_of_unread h.ahead_eq, List.nil_append] at hheld
  rw [h.cursor_eq] at hread
  have htake : (stream cs).take ((lx.delivered calls).length + (lx.after calls).held.length) =
      read := by
    rw [← List.length_append, ← hheld, stream, hread, List.take_left]
  refine ⟨htake.trans hheld, length_held_le_one _, ?_, ?_⟩
  · rw [htake, hlog, List.map_flatMap]
    simp only [Log.Event.map_display_ofToken]
  · intro i hi
    obtain ⟨read', hvalue, hlog'⟩ := exists_read_tokenize (lx.after (calls.take i))
    rw [(accounts_calls lx (calls.take i)).settings_eq] at hlog'
    refine ⟨_, _, read', getElem?_run lx hi, rfl, hvalue, ?_, ?_⟩
    · simp only [Lexer.call, Outcome.map, hlog', List.dropLast_concat, List.map_flatMap,
        Log.Event.map_display_ofToken]
    · simp only [Lexer.call, Outcome.map, hlog', List.getLast?_concat, Option.map_some,
        Log.Event.display_tokenized]

/-- A look in front of a call that ends at a quote without a partner, and looks behind it. -/
theorem every_token_of_a_line_is_logged_once :
    withSettings "a ' 1 --".toList { traceTokens := true } =
        .ok ⟨.ofText "a ' 1 --".toList, { traceTokens := true }, .unread⟩ ∧
      LogsOnce "a ' 1 --".toList ⟨.ofText "a ' 1 --".toList, { traceTokens := true }, .unread⟩
        [.peek, .tokenize, .isAtEnd, .peek, .next, .tokenize, .collect] ∧
      ((Lexer.mk (.ofText "a ' 1 --".toList) { traceTokens := true } .unread).logged
          [.peek, .tokenize, .isAtEnd, .peek, .next, .tokenize, .collect]).map Log.Event.display =
        ["TRACE IDENTIFIER('a') at 1:1", "DEBUG Unexpected character: ''' at 1:3",
          "TRACE ERROR('Unexpected character: '''') at 1:3",
          "TRACE INTEGER_LITERAL('1') at 1:5"] :=
  ⟨rfl, every_token_is_logged_once (.withSettings (s := { traceTokens := true }) rfl) _,
    by decide +kernel⟩

end Lexer

end SqlTokens
