-- A configuration as a TOML document, written and read.
import SqlTokens.Config
import SqlTokens.Toml.Printer
import SqlTokens.Toml.Reader

namespace SqlTokens

namespace Toml

mutual

/-- The value fits where nothing is asked of it: its integers are numbers of at most 128 bits
and its floating point numbers are not too large. -/
def Value.isSound : Value → Bool
  | .integer n => n.any fun (n : Int) =>
    decide (-(Numeral.maxInteger + 1) ≤ n) && decide (n ≤ 2 * Numeral.maxInteger + 1)
  | .float x => x.isSome
  | .array items => areSound items
  | .tables items => areSound items
  | .table _ entries => entriesAreSound entries
  | _ => true

/-- All values are sound. -/
def areSound : List Value → Bool
  | [] => true
  | v :: vs => v.isSound && areSound vs

/-- All values of a table are sound. -/
def entriesAreSound : List (Key × Value) → Bool
  | [] => true
  | (_, v) :: entries => v.isSound && entriesAreSound entries

end

/-- The values of a record with the named fields, in the order of the names. A record is a table,
an array of the values, or a date or a time, which stands for a table without these fields.
Fields may be missing, other entries of a table are ignored if they are sound, and further values
of an array are ignored. -/
def Value.fields? (names : List String) : Value → Option (List (Option Value))
  | .table _ entries =>
    if entriesAreSound (entries.filter fun e => !names.contains (String.ofList e.1)) then
      some (names.map fun name => entries.lookup name.toList)
    else none
  | .array items | .tables items => some ((List.range names.length).map fun i => items[i]?)
  | .moment => some (names.map fun _ => none)
  | _ => none

/-- A field that is a boolean, or its default. -/
def flag? (default : Bool) : Option Value → Option Bool
  | none => some default
  | some (.boolean b) => some b
  | some _ => none

/-- A field that is a number of 64 bits, or absent. -/
def limit? : Option Value → Option (Option Nat)
  | none => some none
  | some (.integer (some n)) =>
    if 0 ≤ n ∧ n ≤ Numeral.maxNatural then some (some n.toNat) else none
  | some _ => none

/-- A field that is a text, or its default. -/
def text? (default : String) : Option Value → Option String
  | none => some default
  | some (.string cs) => some (String.ofList cs)
  | some _ => none

end Toml

namespace Settings

/-- The names of the fields. -/
def fieldNames : List String := ["stop_on_error", "max_input_length", "trace_tokens"]

/-- The settings that a record holds. -/
def ofToml? (v : Toml.Value) : Option Settings :=
  match v.fields? fieldNames with
  | some [stop, limit, trace] => do
    return ⟨← Toml.flag? true stop, ← Toml.limit? limit, ← Toml.flag? false trace⟩
  | _ => none

/-- The settings as the lines of a table. An absent limit has no line. -/
def tomlLines (s : Settings) : List String :=
  ["stop_on_error = " ++ toString s.stopOnError] ++
    (s.maxInputLength.map fun n => "max_input_length = " ++ n.repr).toList ++
    ["trace_tokens = " ++ toString s.traceTokens]

end Settings

namespace Logging

/-- The names of the fields. -/
def fieldNames : List String := ["level"]

/-- The log settings that a record holds. -/
def ofToml? (v : Toml.Value) : Option Logging :=
  match v.fields? fieldNames with
  | some [level] => do return ⟨← Toml.text? "info" level⟩
  | _ => none

/-- The log settings as the lines of a table. -/
def tomlLines (l : Logging) : List String :=
  ["level = " ++ String.ofList (Toml.quote l.level.toList)]

end Logging

namespace Config

/-- The names of the parts. -/
def partNames : List String := ["lexer", "logging"]

/-- The configuration that a document holds. Absent parts have their defaults. -/
def ofTable? (t : Toml.Table) : Option Config :=
  match t.toValue.fields? partNames with
  | some [lexer, logging] => do
    return ⟨← (lexer.map Settings.ofToml?).getD (some {}),
      ← (logging.map Logging.ofToml?).getD (some {})⟩
  | _ => none

/-- Reads a configuration and checks it. -/
def ofToml (cs : List Char) : Except Error Config :=
  match (Toml.read? cs).bind ofTable? with
  | some c => c.checked
  | none => .error .badConfig

/-- The lines of the document: one table for each part, with an empty line between them. -/
def tomlLines (c : Config) : List String :=
  ["[lexer]"] ++ c.lexer.tomlLines ++ ["", "[logging]"] ++ c.logging.tomlLines

/-- The configuration as a document. It is not checked. -/
def toToml (c : Config) : List Char := c.tomlLines.flatMap fun line => line.toList ++ ['\n']

end Config

end SqlTokens
