-- Log levels, the filters that let some of them through, and the records that
-- reading tokens leaves in the log.
import SqlTokens.Token

namespace SqlTokens.Log

/-- How important a record is, most important first. -/
inductive Level where
  | error | warn | info | debug | trace
  deriving DecidableEq

/-- Which records a log takes: none, or those of a level and of all more important ones. -/
inductive Filter where
  | off
  | upTo (level : Level)
  deriving DecidableEq

namespace Level

def name : Level → String
  | .error => "ERROR"
  | .warn => "WARN"
  | .info => "INFO"
  | .debug => "DEBUG"
  | .trace => "TRACE"

/-- The place of a level in the order, counted from the most important one. -/
def rank : Level → Nat
  | .error => 1
  | .warn => 2
  | .info => 3
  | .debug => 4
  | .trace => 5

end Level

namespace Filter

def all : List Filter :=
  [.off, .upTo .error, .upTo .warn, .upTo .info, .upTo .debug, .upTo .trace]

def name : Filter → String
  | .off => "OFF"
  | .upTo level => level.name

/-- The filter with a name, in any mix of letter cases. -/
def ofName? (name : String) : Option Filter :=
  all.find? fun f => decide (f.name.toList = name.toList.map Char.toUpper)

/-- The filter lets records of this level through. -/
def admits : Filter → Level → Bool
  | .off, _ => false
  | .upTo top, level => decide (level.rank ≤ top.rank)

end Filter

/-! ## Records -/

/-- What reading tokens reports: an error, a token, or the end of reading many tokens. -/
inductive Event where
  | failed (token : Token)
  | produced (token : Token)
  | tokenized (count : Nat) (stopped : Position)
  deriving DecidableEq

namespace Event

def level : Event → Level
  | .failed _ => .debug
  | .produced _ => .trace
  | .tokenized _ _ => .debug

def message : Event → String
  | .failed t => t.value.display ++ " at " ++ t.position.display
  | .produced t => t.display
  | .tokenized count stopped =>
    "Tokenized " ++ count.repr ++ " tokens, stopped at " ++ stopped.display

/-- A record as it stands in the log. -/
def display (e : Event) : String := e.level.name ++ " " ++ e.message

/-- The records that one token leaves when it is read: an error first of all as an error, and
every token as a token when tokens are traced. -/
def ofToken (trace : Bool) (t : Token) : List Event :=
  (if t.isError then [.failed t] else []) ++ (if trace then [.produced t] else [])

end Event

end SqlTokens.Log
