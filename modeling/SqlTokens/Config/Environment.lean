-- A configuration from variables of the environment. Variables that are not set
-- leave the default; the first one with a bad value is the error.
import SqlTokens.Config
import SqlTokens.Numeral
import SqlTokens.Text.Blank

namespace SqlTokens

namespace Variable

/-- The boolean that a value spells, in lower case, with white space around it. -/
def boolean? (value : String) : Option Bool :=
  let word := Text.trim value.toList
  if word = ['t', 'r', 'u', 'e'] then some true
  else if word = ['f', 'a', 'l', 's', 'e'] then some false
  else none

/-- A text without one plus sign at its front. -/
def dropPlus : List Char → List Char
  | '+' :: cs => cs
  | cs => cs

/-- The number of 64 bits that a value spells in decimal digits, perhaps with a plus sign, with
white space around it. -/
def natural? (value : String) : Option Nat :=
  let digits := dropPlus (Text.trim value.toList)
  if !digits.isEmpty && digits.all Char.isDigit &&
      decide (Numeral.valueOf digits ≤ Numeral.maxNatural) then
    some (Numeral.valueOf digits)
  else none

/-- Reads a variable, if it is set. The error shows its value with the white space. -/
def read {α : Type} (v : Variable) (lookup : String → Option String)
    (parse : String → Option α) : Except Error (Option α) :=
  match lookup v.name with
  | none => .ok none
  | some value =>
    match parse value with
    | some a => .ok (some a)
    | none => .error (.badVariable v value)

end Variable

namespace Config

/-- The configuration that the variables give, checked when all of them have been read. -/
def ofEnvironment (lookup : String → Option String) : Except Error Config := do
  let stop ← Variable.stopOnError.read lookup Variable.boolean?
  let limit ← Variable.maxInputLength.read lookup Variable.natural?
  let trace ← Variable.traceTokens.read lookup Variable.boolean?
  let level := lookup Variable.logLevel.name
  let c : Config :=
    ⟨⟨stop.getD true, limit, trace.getD false⟩, ⟨level.getD "info"⟩⟩
  c.checked

/-- The variables of a process hold bytes. Those that are no UTF-8 text count as not set. -/
def ofProcess (lookup : String → Option ByteArray) : Except Error Config :=
  ofEnvironment fun name => (lookup name).bind String.fromUTF8?

end Config

end SqlTokens
