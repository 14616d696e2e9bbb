-- A token: its kind, its value, and where it starts.
import SqlTokens.Kind
import SqlTokens.Numeral
import SqlTokens.Position

namespace SqlTokens

/-- The value of a token: the text of a word, a mark or an error, or the number that a
literal denotes. -/
inductive Value where
  | text (text : String)
  | integer (number : Int)
  | float (number : Binary64)
  deriving DecidableEq

/-- A token of the language. -/
structure Token where
  kind : Kind
  value : Value
  position : Position
  deriving DecidableEq

namespace Value

def text? : Value → Option String
  | .text s => some s
  | _ => none

def integer? : Value → Option Int
  | .integer n => some n
  | _ => none

def float? : Value → Option Binary64
  | .float x => some x
  | _ => none

/-- Shown numbers have no exponent, whole ones no point; of two equally near decimals the
larger is shown. -/
def floatStyle : Numeral.Style where
  positional := fun _ => true
  wholePoint := false
  tie := .up

/-- A floating point number as it is shown. -/
def showFloat (x : Binary64) : String :=
  if x.isNaN then "NaN"
  else if x.isFinite then String.ofList (Numeral.ofBinary64 floatStyle x).text
  else if x.negative then "-inf" else "inf"

/-- A value as it is shown. -/
def display : Value → String
  | .text s => s
  | .integer n => String.ofList (Numeral.ofInt n).text
  | .float x => showFloat x

/-- Equality of values, in which floating point numbers are compared as numbers. -/
def equals : Value → Value → Bool
  | .text a, .text b => decide (a = b)
  | .integer a, .integer b => decide (a = b)
  | .float a, .float b => a.equals b
  | _, _ => false

end Value

namespace Token

/-- The report of an error. -/
def error (message : String) (position : Position) : Token := ⟨.error, .text message, position⟩

def isError (t : Token) : Bool := decide (t.kind = .error)

/-- The text of the token, when its value is a text. -/
def text? (t : Token) : Option String := t.value.text?

/-- A token as it is shown. -/
def display (t : Token) : String :=
  t.kind.label ++ "('" ++ t.value.display ++ "') at " ++ t.position.display

/-- Equality of tokens, in which floating point numbers are compared as numbers. -/
def equals (a b : Token) : Bool :=
  decide (a.kind = b.kind) && a.value.equals b.value && decide (a.position = b.position)

end Token

end SqlTokens
