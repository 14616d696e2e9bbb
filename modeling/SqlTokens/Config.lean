-- The settings of a lexer, the settings of the log, and the two together. Absent
-- parts have defaults, two configurations merge field by field, and a
-- configuration is checked before it is used.
import SqlTokens.Error
import SqlTokens.Log

namespace SqlTokens

/-- How a lexer behaves. -/
structure Settings where
  /-- Reading all tokens ends at the first error. -/
  stopOnError : Bool := true
  /-- The most characters that an input may have. -/
  maxInputLength : Option Nat := none
  /-- Every token is logged. -/
  traceTokens : Bool := false
  deriving DecidableEq

/-- How much is logged. The level is kept as it was written. -/
structure Logging where
  level : String := "info"
  deriving DecidableEq

/-- A whole configuration. -/
structure Config where
  lexer : Settings := {}
  logging : Logging := {}
  deriving DecidableEq

namespace Settings

/-- No input fits a limit of zero characters, so such a limit is an error. -/
def check (s : Settings) : Except Error Unit :=
  if s.maxInputLength = some 0 then .error .zeroLimit else .ok ()

/-- Fields that differ from their default go before those that do not, later ones before
earlier ones. -/
def merge (s t : Settings) : Settings where
  stopOnError := s.stopOnError && t.stopOnError
  maxInputLength := t.maxInputLength.or s.maxInputLength
  traceTokens := s.traceTokens || t.traceTokens

end Settings

namespace Logging

/-- The filter that the level names. -/
def filter (l : Logging) : Except Error Log.Filter :=
  match Log.Filter.ofName? l.level with
  | some f => .ok f
  | none => .error (.unknownLevel l.level)

/-- The later level goes before the earlier one, unless it is spelled like the default. -/
def merge (l m : Logging) : Logging := if m.level = "info" then l else m

end Logging

namespace Config

/-- The settings are checked before the level. -/
def check (c : Config) : Except Error Unit := do
  c.lexer.check
  let _ ← c.logging.filter
  return ()

/-- The configuration itself, if it passes the check. -/
def checked (c : Config) : Except Error Config := do
  c.check
  return c

/-- Two configurations in one, the second one later. -/
def merge (c d : Config) : Config := ⟨c.lexer.merge d.lexer, c.logging.merge d.logging⟩

end Config

end SqlTokens
