-- Reading a JSON value from a text. The grammar is the strict one: no comments, no
-- trailing commas, no leading zeros, no control characters in strings.
import SqlTokens.Json
import SqlTokens.Text.Hex

namespace SqlTokens.Json

/-- The blanks that may stand between the parts of a value. -/
def isBlank (c : Char) : Bool := c == ' ' || c == '\n' || c == '\r' || c == '\t'

/-- A text without the blanks at its front. -/
def skipBlanks (cs : List Char) : List Char := cs.dropWhile isBlank

/-! ## Strings -/

/-- What one character or escape of a string gives: a character, or half of a surrogate
pair. -/
inductive Piece where
  | char (c : Char)
  | half (unit : Nat)
  deriving DecidableEq

/-- The character that stands behind a backslash for another one. -/
def unescape? : Char → Option Char
  | '"' => some '"'
  | '\\' => some '\\'
  | '/' => some '/'
  | 'b' => some '\x08'
  | 'f' => some '\x0c'
  | 'n' => some '\n'
  | 'r' => some '\r'
  | 't' => some '\t'
  | _ => none

/-- The piece that a number of 16 bits is. -/
def pieceOf (n : Nat) : Piece :=
  if 0xD800 ≤ n ∧ n < 0xE000 then .half n else .char (Char.ofNat n)

/-- Reads the rest of a string behind its first quote, and the quote that ends it. -/
def pieces? : List Char → Option (List Piece × List Char)
  | '"' :: cs => some ([], cs)
  | '\\' :: 'u' :: a :: b :: c :: d :: cs => do
    let n ← Text.hexValue? [a, b, c, d]
    let (ps, rest) ← pieces? cs
    return (pieceOf n :: ps, rest)
  | '\\' :: e :: cs => do
    let c ← unescape? e
    let (ps, rest) ← pieces? cs
    return (.char c :: ps, rest)
  | c :: cs => do
    guard (0x20 ≤ c.toNat ∧ c ≠ '\\')
    let (ps, rest) ← pieces? cs
    return (.char c :: ps, rest)
  | [] => none

/-- The text of the pieces. Two halves make a character when a high one stands before a low
one; any other half makes no text. -/
def join? : List Piece → Option (List Char)
  | [] => some []
  | .char c :: ps => (join? ps).map (c :: ·)
  | .half high :: .half low :: ps =>
    if high < 0xDC00 ∧ 0xDC00 ≤ low then
      (join? ps).map (Char.ofNat (0x10000 + 0x400 * (high - 0xD800) + (low - 0xDC00)) :: ·)
    else none
  | .half _ :: _ => none

/-- Reads a string behind its first quote. -/
def string? (cs : List Char) : Option (Option (List Char) × List Char) :=
  (pieces? cs).map fun (ps, rest) => (join? ps, rest)

/-! ## Numbers -/

/-- Reads the digits behind a point; no point is no digits. -/
def fraction? : List Char → Option (List Char × List Char)
  | '.' :: cs =>
    let digits := cs.takeWhile Char.isDigit
    if digits.isEmpty then none else some (digits, cs.dropWhile Char.isDigit)
  | cs => some ([], cs)

/-- Reads the digits of an exponent behind its sign. -/
def exponentDigits? (negative : Bool) (cs : List Char) : Option (Option Int × List Char) :=
  let digits := cs.takeWhile Char.isDigit
  if digits.isEmpty then none
  else
    let n : Int := Numeral.valueOf digits
    some (some (if negative then -n else n), cs.dropWhile Char.isDigit)

/-- Reads an exponent, if there is one. -/
def exponent? : List Char → Option (Option Int × List Char)
  | c :: cs =>
    if c = 'e' ∨ c = 'E' then
      match cs with
      | '-' :: cs => exponentDigits? true cs
      | '+' :: cs => exponentDigits? false cs
      | cs => exponentDigits? false cs
    else some (none, c :: cs)
  | [] => some (none, [])

/-- Reads a number behind its sign. Only zero itself starts with a zero. -/
def unsigned? (negative : Bool) (cs : List Char) : Option (Numeral × List Char) := do
  let whole := match cs with
    | '0' :: _ => ['0']
    | cs => cs.takeWhile Char.isDigit
  guard (!whole.isEmpty)
  let (fraction, cs) ← fraction? (cs.drop whole.length)
  let (exponent, cs) ← exponent? cs
  return (⟨negative, whole, fraction, exponent⟩, cs)

/-- Reads a number. -/
def number? : List Char → Option (Numeral × List Char)
  | '-' :: cs => unsigned? true cs
  | cs => unsigned? false cs

/-! ## Values -/

mutual

/-- Reads a value that starts with the first character. The first argument bounds the depth of
the search; twice the length of the text and one is enough. -/
def value? : Nat → List Char → Option (Json × List Char)
  | 0, _ => none
  | n + 1, '[' :: cs =>
    match skipBlanks cs with
    | ']' :: rest => some (.array [], rest)
    | cs => (items? n cs).map fun (js, rest) => (.array js, rest)
  | n + 1, '\x7b' :: cs =>
    match skipBlanks cs with
    | '\x7d' :: rest => some (.object [], rest)
    | cs => (members? n cs).map fun (ms, rest) => (.object ms, rest)
  | _ + 1, '"' :: cs => (string? cs).map fun (s, rest) => (.string s, rest)
  | _ + 1, 'n' :: 'u' :: 'l' :: 'l' :: rest => some (.null, rest)
  | _ + 1, 't' :: 'r' :: 'u' :: 'e' :: rest => some (.boolean true, rest)
  | _ + 1, 'f' :: 'a' :: 'l' :: 's' :: 'e' :: rest => some (.boolean false, rest)
  | _ + 1, cs => (number? cs).map fun (n, rest) => (.number n, rest)

/-- Reads values with commas between them, and the bracket that ends them. -/
def items? : Nat → List Char → Option (List Json × List Char)
  | 0, _ => none
  | n + 1, cs => do
    let (j, rest) ← value? n cs
    match skipBlanks rest with
    | ',' :: rest => (items? n (skipBlanks rest)).map fun (js, rest) => (j :: js, rest)
    | ']' :: rest => some ([j], rest)
    | _ => none

/-- Reads members with commas between them, and the brace that ends them. -/
def members? : Nat → List Char → Option (List (Option (List Char) × Json) × List Char)
  | n + 1, '"' :: cs => do
    let (name, rest) ← string? cs
    match skipBlanks rest with
    | ':' :: rest =>
      let (j, rest) ← value? n (skipBlanks rest)
      match skipBlanks rest with
      | ',' :: rest =>
        (members? n (skipBlanks rest)).map fun (ms, rest) => ((name, j) :: ms, rest)
      | '\x7d' :: rest => some ([(name, j)], rest)
      | _ => none
    | _ => none
  | _, _ => none

end

/-- Reads a text that is one value, with blanks around it. -/
def read? (cs : List Char) : Option Json :=
  match value? (2 * cs.length + 1) (skipBlanks cs) with
  | some (j, rest) => if (skipBlanks rest).isEmpty then some j else none
  | none => none

end SqlTokens.Json
