-- A lexer: a cursor, settings, and room for one token that has been looked at but
-- not taken. Every call answers with the lexer after it and the log records that
-- it left, in order.
import SqlTokens.Config
import SqlTokens.Stream

namespace SqlTokens

/-- What has been read ahead: nothing, or a token, or that no token is left. -/
inductive Lookahead where
  | unread
  | read (token : Option Token)
  deriving DecidableEq

/-- The state of reading tokens. -/
structure Lexer where
  cursor : Cursor
  settings : Settings
  ahead : Lookahead
  deriving DecidableEq

namespace Lexer

/-- A lexer at the start of a text, with the default settings. -/
def ofText (cs : List Char) : Lexer := ⟨.ofText cs, {}, .unread⟩

/-- A lexer at the start of a text. The settings are checked first, then the length of the
text. -/
def withSettings (cs : List Char) (s : Settings) : Except Error Lexer := do
  s.check
  match s.maxInputLength with
  | some limit => if limit < cs.length then throw (.inputTooLong cs.length limit)
  | none => pure ()
  return ⟨.ofText cs, s, .unread⟩

/-- Where the cursor stands: behind all that was read, taken or only looked at. -/
def position (lx : Lexer) : Position := lx.cursor.position

/-- The answer of a call, the lexer after it, and the records that the call left. -/
structure Outcome (α : Type) where
  value : α
  lexer : Lexer
  log : List Log.Event

/-! ## One token -/

/-- Reads a token from the text. It is logged here, once, whether it is taken or looked at. -/
def produce (lx : Lexer) : Outcome (Option Token) where
  value := lx.cursor.next.1
  lexer := { lx with cursor := lx.cursor.next.2 }
  log := (lx.cursor.next.1.map (Log.Event.ofToken lx.settings.traceTokens)).getD []

/-- Takes the next token, first the one that was looked at. -/
def next (lx : Lexer) : Outcome (Option Token) :=
  match lx.ahead with
  | .read t => ⟨t, { lx with ahead := .unread }, []⟩
  | .unread => lx.produce

/-- Looks at the next token. Looking again, or taking it, gives the same token. -/
def peek (lx : Lexer) : Outcome (Option Token) :=
  match lx.ahead with
  | .read t => ⟨t, lx, []⟩
  | .unread =>
    let o := lx.produce
    { o with lexer := { o.lexer with ahead := .read o.value } }

/-- No token is left. This looks at the next token. -/
def isAtEnd (lx : Lexer) : Outcome Bool :=
  let o := lx.peek
  ⟨o.value.isNone, o.lexer, o.log⟩

/-! ## Many tokens -/

/-- How much is left to take: the characters of the text, and one for a token ahead. -/
def remaining (lx : Lexer) : Nat :=
  lx.cursor.rest.length +
    match lx.ahead with
    | .read (some _) => 1
    | _ => 0

/-- Taking a token leaves less to take. -/
theorem remaining_next_lt {lx : Lexer} {t : Token} (h : lx.next.value = some t) :
    lx.next.lexer.remaining < lx.remaining := by
  obtain ⟨cursor, settings, ahead⟩ := lx
  cases ahead with
  | unread => simpa [next, produce, remaining] using Cursor.length_next_lt h
  | read t' => simp only [next] at h; subst h; simp [next, remaining]

/-- Takes tokens up to the first one that satisfies `stop`, or to the end. -/
def takeUntil (stop : Token → Bool) (lx : Lexer) : Outcome (List Token) :=
  match _h : lx.next.value with
  | none => ⟨[], lx.next.lexer, lx.next.log⟩
  | some t =>
    if stop t then ⟨[t], lx.next.lexer, lx.next.log⟩
    else
      let more := takeUntil stop lx.next.lexer
      ⟨t :: more.value, more.lexer, lx.next.log ++ more.log⟩
termination_by lx.remaining
decreasing_by exact remaining_next_lt _h

/-- Takes `n` tokens, fewer at the end. -/
def take : Nat → Lexer → Outcome (List Token)
  | 0, lx => ⟨[], lx, []⟩
  | n + 1, lx =>
    match lx.next.value with
    | none => ⟨[], lx.next.lexer, lx.next.log⟩
    | some t =>
      let more := take n lx.next.lexer
      ⟨t :: more.value, more.lexer, lx.next.log ++ more.log⟩

/-- Takes all tokens that are left. -/
def collect (lx : Lexer) : Outcome (List Token) := lx.takeUntil fun _ => false

/-- Takes tokens to the end, or through the first error when the settings say so, and logs how
many there were. A further call goes on from there. -/
def tokenize (lx : Lexer) : Outcome (List Token) :=
  let o := lx.takeUntil fun t => t.isError && lx.settings.stopOnError
  { o with log := o.log ++ [.tokenized o.value.length o.lexer.position] }

/-! ## Any series of calls -/

/-- One call on a lexer. -/
inductive Call where
  | next
  | peek
  | isAtEnd
  | position
  | settings
  | tokenize
  | collect
  | take (n : Nat)
  deriving DecidableEq

/-- What a call answers. -/
inductive Reply where
  | token (t : Option Token)
  | tokens (ts : List Token)
  | flag (b : Bool)
  | position (p : Position)
  | settings (s : Settings)
  deriving DecidableEq

/-- An answer in another form. -/
def Outcome.map {α β : Type} (f : α → β) (o : Outcome α) : Outcome β :=
  ⟨f o.value, o.lexer, o.log⟩

/-- The outcome of a call. -/
def call (lx : Lexer) : Call → Outcome Reply
  | .next => lx.next.map .token
  | .peek => lx.peek.map .token
  | .isAtEnd => lx.isAtEnd.map .flag
  | .position => ⟨.position lx.position, lx, []⟩
  | .settings => ⟨.settings lx.settings, lx, []⟩
  | .tokenize => lx.tokenize.map .tokens
  | .collect => lx.collect.map .tokens
  | .take n => (lx.take n).map .tokens

/-- The outcomes of a series of calls. -/
def run (lx : Lexer) : List Call → List (Outcome Reply)
  | [] => []
  | c :: cs => lx.call c :: (lx.call c).lexer.run cs

end Lexer

/-- The version of the language of tokens and of the stored forms. -/
def version : String := "0.1.0"

/-- The tokens of a text with the default settings. -/
def tokenize (cs : List Char) : List Token := (Lexer.ofText cs).tokenize.value

end SqlTokens
