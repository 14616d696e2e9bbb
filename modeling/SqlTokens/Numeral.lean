-- Decimal numbers as they are written: a sign, digits, perhaps a fraction,
-- perhaps an exponent. A style decides which of the many ways to write a number
-- is taken.
import SqlTokens.Binary64.Shortest

namespace SqlTokens

/-- A written number. An empty fraction is written without a point. -/
structure Numeral where
  negative : Bool
  whole : List Char
  fraction : List Char
  exponent : Option Int
  deriving DecidableEq

namespace Numeral

/-- The largest number of 64 bits, for what counts characters. -/
def maxNatural : Nat := Nat.pow 2 64 - 1

/-- The largest number of 128 bits of which one is the sign, for the values of integers. -/
def maxInteger : Nat := Nat.pow 2 127 - 1

/-- Decimal digits of a number, without leading zeros. -/
def digitsOf (n : Nat) : List Char := Nat.toDigits 10 n

/-- The number that decimal digits spell. -/
def valueOf (digits : List Char) : Nat := Nat.ofDigitChars 10 digits 0

/-- A number without fraction and exponent. -/
def isWhole (n : Numeral) : Bool := n.fraction.isEmpty && n.exponent.isNone

/-- The size of the number, without its sign. -/
def decimal (n : Numeral) : Decimal :=
  ⟨valueOf (n.whole ++ n.fraction), n.exponent.getD 0 - n.fraction.length⟩

/-- The floating point number nearest to a written one; none when it is infinite. -/
def toBinary64? (n : Numeral) : Option Binary64 := n.decimal.toBinary64? n.negative

/-- The value of a number without fraction and exponent. -/
def toInt? (n : Numeral) : Option Int :=
  if n.isWhole then
    some (if n.negative then -(valueOf n.whole : Int) else valueOf n.whole)
  else none

/-- An integer as it is written. -/
def ofInt (n : Int) : Numeral := ⟨decide (n < 0), digitsOf n.natAbs, [], none⟩

/-- How an exponent is written: always with a sign. -/
def exponentText (e : Int) : List Char :=
  'e' :: (if e < 0 then '-' else '+') :: digitsOf e.natAbs

/-- The characters of a written number. -/
def text (n : Numeral) : List Char :=
  (if n.negative then ['-'] else []) ++ n.whole ++
    (if n.fraction.isEmpty then [] else '.' :: n.fraction) ++
    (n.exponent.map exponentText).getD []

/-! ## Styles -/

/-- How floating point numbers are written in one place. -/
structure Style where
  /-- Whether a number is written without an exponent, by the number of digits in front of
  its point; that number is zero or negative when the point stands before the digits. -/
  positional : Int → Bool
  /-- Whole numbers end in `.0`. -/
  wholePoint : Bool
  /-- Which of two equally near shortest decimals is written. -/
  tie : Binary64.Tie

/-- A decimal number in a style. -/
def ofDecimal (style : Style) (negative : Bool) (d : Decimal) : Numeral :=
  let digits := digitsOf d.digits
  let front := d.exponent + digits.length
  if style.positional front then
    if 0 ≤ d.exponent then
      ⟨negative, digits ++ List.replicate d.exponent.toNat '0',
        if style.wholePoint then ['0'] else [], none⟩
    else if 0 < front then
      ⟨negative, digits.take front.toNat, digits.drop front.toNat, none⟩
    else ⟨negative, ['0'], List.replicate (-front).toNat '0' ++ digits, none⟩
  else ⟨negative, digits.take 1, digits.drop 1, some (front - 1)⟩

/-- A finite floating point number with the fewest digits that name it. -/
def ofBinary64 (style : Style) (x : Binary64) : Numeral :=
  ofDecimal style x.negative (Binary64.shortest style.tie x.magnitude)

end Numeral

end SqlTokens
