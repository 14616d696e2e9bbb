-- Rounding of an exact quotient to the nearest floating point number. A number
-- halfway between two neighbours goes to the one with the even pattern.
import SqlTokens.Binary64

namespace SqlTokens.Binary64

/-- The whole number nearest to `num / den`; halfway goes to the even neighbour. -/
def roundEven (num den : Nat) : Nat :=
  let whole := num / den
  let twice := 2 * (num % den)
  if twice < den then whole
  else if den < twice then whole + 1
  else whole + whole % 2

/-- The magnitude nearest to `num / den`. The quotient is counted in units of 2^-1074; when
that count has more than 53 bits, the last `shift` of them are rounded off. A count that
rounds up to 54 bits carries into the exponent. Quotients too large for a finite number
get the magnitude of infinity or more. -/
def nearest (num den : Nat) : Nat :=
  let count := Nat.pow 2 1074 * num
  let shift := (count / den).log2 - 52
  Nat.pow 2 52 * shift + roundEven count (Nat.pow 2 shift * den)

/-- The number nearest to `num / den`, with a sign; none when that is infinite. -/
def ofRatio? (negative : Bool) (num den : Nat) : Option Binary64 :=
  let m := nearest num den
  if h : m < infinity then some ⟨negative, m, Nat.lt_trans h (by decide)⟩ else none

end SqlTokens.Binary64
