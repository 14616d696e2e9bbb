-- Storing tokens as JSON, and loading them again. A token is a record of its type,
-- its value and its position; a value names its case.
import SqlTokens.Error
import SqlTokens.Json.Printer
import SqlTokens.Json.Reader
import SqlTokens.Token

namespace SqlTokens

namespace Position

/-- The names of the stored fields. -/
def fieldNames : List String := ["line", "column", "offset"]

def toJson (p : Position) : Json :=
  .ofFields [("line", .number (.ofInt p.line)), ("column", .number (.ofInt p.column)),
    ("offset", .number (.ofInt p.offset))]

/-- The position that a record stores. -/
def ofJson? (j : Json) : Option Position :=
  match j.fields? fieldNames with
  | some [line, column, offset] => do
    return ⟨← line.natural?, ← column.natural?, ← offset.natural?⟩
  | _ => none

end Position

namespace Kind

def toJson (k : Kind) : Json := .ofText k.name

/-- The kind that a value stores: its name, or an object with the name and nothing in it. -/
def ofJson? (j : Json) : Option Kind :=
  match j with
  | .string (some cs) => ofName? (String.ofList cs)
  | .object [(some cs, .null)] => ofName? (String.ofList cs)
  | _ => none

end Kind

namespace Value

/-- Stored numbers up to 10^16 and down to 10^-5 have no exponent, whole ones a point; of two
equally near decimals the even one is stored. -/
def storedStyle : Numeral.Style where
  positional := fun front => decide (-5 < front) && decide (front ≤ 16)
  wholePoint := true
  tie := .even

/-- A value with the name of its case. Floating point numbers that are not finite are stored
as nothing. -/
def toJson : Value → Json
  | .text s => .ofFields [("Text", .ofText s)]
  | .integer n => .ofFields [("Integer", .number (.ofInt n))]
  | .float x =>
    .ofFields [("Float", if x.isFinite then .number (.ofBinary64 storedStyle x) else .null)]

/-- The value that an object with the name of a case stores. -/
def ofJson? (j : Json) : Option Value :=
  match j.single? with
  | some ("Text", j) => j.text?.map .text
  | some ("Integer", j) => j.integer?.map .integer
  | some ("Float", j) => j.float?.map .float
  | _ => none

end Value

namespace Token

/-- The names of the stored fields. -/
def fieldNames : List String := ["token_type", "value", "position"]

def toJson (t : Token) : Json :=
  .ofFields [("token_type", t.kind.toJson), ("value", t.value.toJson),
    ("position", t.position.toJson)]

/-- The token that a record stores. -/
def ofJson? (j : Json) : Option Token :=
  match j.fields? fieldNames with
  | some [kind, value, position] => do
    return ⟨← Kind.ofJson? kind, ← Value.ofJson? value, ← Position.ofJson? position⟩
  | _ => none

/-- A list of tokens as stored text. -/
def store (ts : List Token) : List Char := (Json.array (ts.map toJson)).print

/-- The list of tokens that a text stores. -/
def load (cs : List Char) : Except Error (List Token) :=
  match Json.read? cs with
  | some (.array items) =>
    match items.mapM ofJson? with
    | some ts => .ok ts
    | none => .error .badTokens
  | _ => .error .badTokens

end Token

end SqlTokens
