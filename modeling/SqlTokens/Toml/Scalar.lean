-- TOML values that are written without quotes and brackets: booleans, integers,
-- floating point numbers, dates and times.
import SqlTokens.Numeral
import SqlTokens.Text.Hex
import SqlTokens.Toml.Value

namespace SqlTokens.Toml

/-! ## Numbers -/

/-- Digits without the underscores between them. An underscore stands between two digits. -/
def ungroup? (isDigit : Char → Bool) : List Char → Option (List Char)
  | [] => none
  | [c] => if isDigit c then some [c] else none
  | c :: '_' :: cs => if isDigit c then (ungroup? isDigit cs).map (c :: ·) else none
  | c :: cs => if isDigit c then (ungroup? isDigit cs).map (c :: ·) else none

/-- The digits of a number in base ten, where only zero itself starts with a zero. -/
def wholeDigits? (cs : List Char) : Option (List Char) :=
  match ungroup? Char.isDigit cs with
  | some ['0'] => some ['0']
  | some ('0' :: _) => none
  | digits => digits

/-- A number without a sign in one of the bases 2, 8 and 16. -/
def inBase? (base : Nat) (cs : List Char) : Option Nat := do
  let digits ← ungroup? (fun c => (Text.digitValue? c).any (· < base)) cs
  return digits.foldl (fun n c => base * n + (Text.digitValue? c).getD 0) 0

/-- The sign at the front of a number, if there is one, and what follows. -/
def splitSign : List Char → Bool × List Char
  | '+' :: cs => (false, cs)
  | '-' :: cs => (true, cs)
  | cs => (false, cs)

/-- The integer that a text spells. -/
def integer? : List Char → Option Int
  | '0' :: 'x' :: cs => (inBase? 16 cs).map Int.ofNat
  | '0' :: 'o' :: cs => (inBase? 8 cs).map Int.ofNat
  | '0' :: 'b' :: cs => (inBase? 2 cs).map Int.ofNat
  | cs => do
    let (negative, cs) := splitSign cs
    let n : Int := Numeral.valueOf (← wholeDigits? cs)
    return if negative then -n else n

/-- Every underscore stands between two digits, where the letters up to `f` count as digits. -/
def isGrouped : List Char → Bool
  | '_' :: _ => false
  | c :: '_' :: d :: cs =>
    (Text.digitValue? c).isSome && (Text.digitValue? d).isSome && isGrouped (d :: cs)
  | _ :: cs => isGrouped cs
  | [] => true

/-- The text has the form of an integer. The form is wider than the numbers: a base may have no
digits behind it, and behind the first underscore of a number in base ten anything may stand but
a point or the letter of an exponent. -/
def isInteger (cs : List Char) : Bool :=
  let digits := (splitSign cs).2
  (integer? cs).isSome || cs == ['0', 'x'] || cs == ['0', 'o'] || cs == ['0', 'b'] ||
    (digits.head?.any (fun c => c.isDigit && c != '0') &&
      (digits.dropWhile Char.isDigit).head? == some '_' && isGrouped digits &&
      digits.all fun c => c != '.' && c != 'e' && c != 'E')

/-- The exponent behind its letter. It may start with zeros. -/
def exponent? (cs : List Char) : Option Int := do
  let (negative, cs) := splitSign cs
  let n : Int := Numeral.valueOf (← ungroup? Char.isDigit cs)
  return if negative then -n else n

/-- A number with a fraction, an exponent, or both. -/
def numeral? (cs : List Char) : Option Numeral := do
  let (negative, cs) := splitSign cs
  let isPart (c : Char) : Bool := c.isDigit || c == '_'
  let whole ← wholeDigits? (cs.takeWhile isPart)
  match cs.dropWhile isPart with
  | '.' :: cs =>
    let fraction ← ungroup? Char.isDigit (cs.takeWhile isPart)
    match cs.dropWhile isPart with
    | [] => return ⟨negative, whole, fraction, none⟩
    | e :: cs =>
      guard (e = 'e' ∨ e = 'E')
      return ⟨negative, whole, fraction, some (← exponent? cs)⟩
  | e :: cs =>
    guard (e = 'e' ∨ e = 'E')
    return ⟨negative, whole, [], some (← exponent? cs)⟩
  | [] => none

/-- The floating point number that a text spells. -/
def float? (cs : List Char) : Option Value :=
  let (negative, word) := splitSign cs
  if word = ['i', 'n', 'f'] then
    some (.float (some ⟨negative, Binary64.infinity, by decide⟩))
  else if word = ['n', 'a', 'n'] then
    some (.float (some ⟨negative, Binary64.infinity + 1, by decide⟩))
  else (numeral? cs).map fun n => .float n.toBinary64?

/-! ## Dates and times -/

/-- A number of two digits between two bounds. -/
def twoDigits (a b : Char) (low high : Nat) : Bool :=
  a.isDigit && b.isDigit && decide (low ≤ Numeral.valueOf [a, b]) &&
    decide (Numeral.valueOf [a, b] ≤ high)

/-- The days of a month; February has one more in every fourth year, but in hundreds of years
only in every fourth. -/
def daysIn (year month : Nat) : Nat :=
  if month = 2 then
    if year % 4 = 0 ∧ (year % 100 ≠ 0 ∨ year % 400 = 0) then 29 else 28
  else if month = 4 ∨ month = 6 ∨ month = 9 ∨ month = 11 then 30
  else 31

/-- What follows a date. -/
def afterDate? : List Char → Option (List Char)
  | y1 :: y2 :: y3 :: y4 :: '-' :: m1 :: m2 :: '-' :: d1 :: d2 :: rest =>
    if [y1, y2, y3, y4].all Char.isDigit && twoDigits m1 m2 1 12 &&
        twoDigits d1 d2 1 (daysIn (Numeral.valueOf [y1, y2, y3, y4]) (Numeral.valueOf [m1, m2]))
    then some rest
    else none
  | _ => none

/-- What follows a time. Seconds, and parts of a second, may be left out; a minute may have a
leap second. -/
def afterTime? : List Char → Option (List Char)
  | h1 :: h2 :: ':' :: m1 :: m2 :: rest =>
    if twoDigits h1 h2 0 23 && twoDigits m1 m2 0 59 then
      match rest with
      | ':' :: s1 :: s2 :: rest =>
        if twoDigits s1 s2 0 60 then
          match rest with
          | '.' :: rest =>
            if (rest.takeWhile Char.isDigit).isEmpty then none
            else some (rest.dropWhile Char.isDigit)
          | rest => some rest
        else none
      | rest => some rest
    else none
  | _ => none

/-- The text is empty or an offset from universal time. -/
def isOffset : List Char → Bool
  | [] => true
  | ['Z'] => true
  | ['z'] => true
  | [sign, h1, h2, ':', m1, m2] =>
    (sign == '+' || sign == '-') && twoDigits h1 h2 0 23 && twoDigits m1 m2 0 59
  | _ => false

/-- The text is a date, a time, or both with or without an offset. -/
def isMoment (cs : List Char) : Bool :=
  match afterDate? cs with
  | some [] => true
  | some (mark :: rest) =>
    (mark == 'T' || mark == 't' || mark == ' ') && (afterTime? rest).any isOffset
  | none => afterTime? cs == some []

/-! ## Any of them -/

/-- The characters that a text without quotes may have: all but blanks, line ends and the marks
of the document. -/
def isBare (c : Char) : Bool :=
  !(['=', ',', '[', ']', '\x7b', '\x7d', '#', ' ', '\t', '\r', '\n'].contains c)

/-- Splits the text of a value from what follows. A blank inside it stands only between a date
and a time. -/
def splitScalar (cs : List Char) : List Char × List Char :=
  let first := cs.takeWhile isBare
  match cs.dropWhile isBare with
  | ' ' :: d :: rest =>
    if d.isDigit && afterDate? first == some [] then
      (first ++ ' ' :: (d :: rest).takeWhile isBare, (d :: rest).dropWhile isBare)
    else (first, ' ' :: d :: rest)
  | rest => (first, rest)

/-- The value that a text spells. -/
def scalarOf? (cs : List Char) : Option Value :=
  if cs = ['t', 'r', 'u', 'e'] then some (.boolean true)
  else if cs = ['f', 'a', 'l', 's', 'e'] then some (.boolean false)
  else if isMoment cs then some .moment
  else if isInteger cs then some (.integer (integer? cs))
  else float? cs

/-- Reads a value without quotes and brackets. -/
def scalar? (cs : List Char) : Option (Value × List Char) :=
  let (word, rest) := splitScalar cs
  (scalarOf? word).map fun v => (v, rest)

end SqlTokens.Toml
