-- The shortest decimal that names a floating point number: of all decimals that
-- are read back as the number, those on the coarsest grid of a power of ten, and
-- of these the nearest one.
import SqlTokens.Decimal

namespace SqlTokens.Binary64

/-- Which of two equally near decimals is taken. -/
inductive Tie where
  | even | up
  deriving DecidableEq

/-- The decimal is read back as magnitude `m`: it lies between the points halfway to the two
neighbours of `m`. These two points are read as `m` too when `m` is even. Both ends are
doubled here, so that they stay whole. -/
def readsBack (m : Nat) (d : Decimal) : Bool :=
  let low := (units (m - 1) + units m) * d.den
  let high := (units m + units (m + 1)) * d.den
  let here := Nat.pow 2 1075 * d.num
  if m % 2 = 0 then decide (low ≤ here) && decide (here ≤ high)
  else decide (low < here) && decide (here < high)

/-- The multiple of `10 ^ e` that is nearest to magnitude `m` among those read back as `m`.
Only the two multiples next to the number can be. -/
def onGrid? (tie : Tie) (m : Nat) (e : Int) : Option Decimal :=
  let num := units m * Nat.pow 10 (-e).toNat
  let den := Nat.pow 2 1074 * Nat.pow 10 e.toNat
  let below : Decimal := ⟨num / den, e⟩
  let above : Decimal := ⟨num / den + 1, e⟩
  let twice := 2 * (num % den)
  let aboveWins := decide (den < twice) ||
    (decide (den = twice) && (decide (tie = .up) || decide (below.digits % 2 = 1)))
  match decide (0 < below.digits) && readsBack m below, readsBack m above with
  | true, true => some (if aboveWins then above else below)
  | true, false => some below
  | false, true => some above
  | false, false => none

/-- The coarsest grid with a hit, from `10 ^ e` downward. When the tries run out, the answer
is the number itself, which is a decimal too. -/
def searchGrids (tie : Tie) (m : Nat) : Nat → Int → Decimal
  | 0, _ => ⟨Nat.pow 5 1074 * units m, -1074⟩
  | tries + 1, e => (onGrid? tie m e).getD (searchGrids tie m tries (e - 1))

/-- The least exponent of a power of ten above the number of magnitude `m`. -/
def scale (m : Nat) : Int :=
  if Nat.pow 2 1074 ≤ units m then (Nat.toDigits 10 (units m / Nat.pow 2 1074)).length
  else 1 - (Nat.toDigits 10 ((Nat.pow 2 1074 - 1) / units m)).length

/-- The shortest decimal that is read back as magnitude `m`. Seventeen digits always do. -/
def shortest (tie : Tie) (m : Nat) : Decimal :=
  if m = 0 then ⟨0, 0⟩ else searchGrids tie m 18 (scale m)

end SqlTokens.Binary64
