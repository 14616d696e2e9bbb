-- JSON values. Numbers are kept as they are written, and the members of an object
-- in their order, repeated names included.
import SqlTokens.Numeral

namespace SqlTokens

/-- A JSON value. A string is absent when one of its escapes is half of a surrogate pair: it
is well formed, but it is no text. -/
inductive Json where
  | null
  | boolean (b : Bool)
  | number (n : Numeral)
  | string (text : Option (List Char))
  | array (items : List Json)
  | object (members : List (Option (List Char) × Json))

namespace Json

/-- A string that is a text. -/
def ofText (s : String) : Json := .string (some s.toList)

/-- An object with fields in the given order. -/
def ofFields (fields : List (String × Json)) : Json :=
  .object (fields.map fun f => (some f.1.toList, f.2))

/-- The value of the only member with a name. -/
def only? (members : List (Option (List Char) × Json)) (name : String) : Option Json :=
  match members.filter fun m => decide (m.1 = some name.toList) with
  | [m] => some m.2
  | _ => none

/-- The values of a record with the named fields, in the order of the names. A record is an
object, in which every name stands once and other members are ignored, or an array of the
values. -/
def fields? (names : List String) : Json → Option (List Json)
  | .object members =>
    if members.all fun m => m.1.isSome then names.mapM (only? members) else none
  | .array items => if items.length = names.length then some items else none
  | _ => none

/-- The name and the value of an object with one member. -/
def single? : Json → Option (String × Json)
  | .object [(some name, j)] => some (String.ofList name, j)
  | _ => none

def text? : Json → Option String
  | .string (some cs) => some (String.ofList cs)
  | _ => none

/-- A number without fraction, exponent and sign, of 64 bits. -/
def natural? : Json → Option Nat
  | .number n =>
    if n.isWhole && !n.negative && decide (Numeral.valueOf n.whole ≤ Numeral.maxNatural) then
      some (Numeral.valueOf n.whole)
    else none
  | _ => none

/-- A number without fraction and exponent in the range of 128 signed bits. -/
def integer? : Json → Option Int
  | .number n =>
    match n.toInt? with
    | some i =>
      if -(Numeral.maxInteger + 1) ≤ i ∧ i ≤ Numeral.maxInteger then some i else none
    | none => none
  | _ => none

/-- Any number, rounded to the nearest floating point number, unless that is infinite. -/
def float? : Json → Option Binary64
  | .number n => n.toBinary64?
  | _ => none

end Json

end SqlTokens
