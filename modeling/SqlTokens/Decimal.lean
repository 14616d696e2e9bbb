-- Decimal numbers, digits times a power of ten, and the floating point number
-- nearest to one.
import SqlTokens.Binary64.Round

namespace SqlTokens

/-- The number `digits * 10 ^ exponent`. -/
structure Decimal where
  digits : Nat
  exponent : Int
  deriving DecidableEq

namespace Decimal

/-- The numerator of the number as a quotient of naturals. -/
def num (d : Decimal) : Nat := d.digits * Nat.pow 10 d.exponent.toNat

/-- The denominator of the number as a quotient of naturals, a power of ten. -/
def den (d : Decimal) : Nat := Nat.pow 10 (-d.exponent).toNat

/-- The floating point number nearest to the decimal, with a sign; none when that is
infinite. Exponents far out of range are decided by their size alone: above 10^400 every
number is infinite, below 10^-400 every number is zero. -/
def toBinary64? (negative : Bool) (d : Decimal) : Option Binary64 :=
  if d.digits = 0 then some (.zero negative)
  else if 400 < d.exponent then none
  else if d.exponent + d.digits.log2 < -401 then some (.zero negative)
  else Binary64.ofRatio? negative d.num d.den

end Decimal

end SqlTokens
