-- The log of a process. It is set up once; the first set-up that succeeds fixes
-- what it takes, and reports itself in the log.
import SqlTokens.Config

namespace SqlTokens

/-- The log of a process, before or after its set-up. -/
structure Logger where
  /-- A filter from outside the configuration, which goes before the configured one. -/
  override : Option Log.Filter
  /-- What the log takes, once it is set up. -/
  active : Option Log.Filter
  /-- The lines that were written. -/
  lines : List String
  deriving DecidableEq

namespace Logger

/-- The log of a new process. -/
def fresh (override : Option Log.Filter) : Logger := ⟨override, none, []⟩

/-- What the log takes now. -/
def filter (l : Logger) : Log.Filter := l.active.getD .off

/-- Where the report of the set-up comes from, as a line of the log shows it. -/
def source : String := "sqllex::common::logging"

/-- The line that reports a set-up. It names the configured level. -/
def report (f : Log.Filter) : String :=
  Log.Level.debug.name ++ " " ++ source ++ " Logging initialized at level " ++ f.name

/-- Sets up the log, unless that has been done. A level that does not exist is an error even
then. -/
def setUp (l : Logger) (c : Logging) : Except Error Logger := do
  let f ← c.filter
  match l.active with
  | some _ => return l
  | none =>
    let taken := l.override.getD f
    return { l with
      active := some taken
      lines := if taken.admits .debug then l.lines ++ [report f] else l.lines }

/-- The result of each of several set-ups, with the log after it. -/
def setUpAll (l : Logger) : List Logging → List (Except Error Unit × Logger)
  | [] => []
  | c :: cs =>
    match l.setUp c with
    | .ok l' => (.ok (), l') :: setUpAll l' cs
    | .error e => (.error e, l) :: setUpAll l cs

end Logger

end SqlTokens
