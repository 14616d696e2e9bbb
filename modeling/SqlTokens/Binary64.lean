-- The floating point numbers of the 64 bit format of IEEE 754, as bit patterns.
-- A pattern is a sign and a magnitude; the magnitudes count upward in the order
-- of the numbers that they stand for, so the next number is the next magnitude.

namespace SqlTokens

/-- A bit pattern: the sign bit and the number that the 63 bits below it spell. -/
structure Binary64 where
  negative : Bool
  magnitude : Nat
  magnitude_lt : magnitude < Nat.pow 2 63
  deriving DecidableEq

namespace Binary64

/-- The magnitude of infinity. Smaller magnitudes are finite, larger ones are no numbers. -/
def infinity : Nat := 2047 * Nat.pow 2 52

def isFinite (x : Binary64) : Bool := decide (x.magnitude < infinity)

def isNaN (x : Binary64) : Bool := decide (infinity < x.magnitude)

/-- Zero with a sign. -/
def zero (negative : Bool) : Binary64 := ⟨negative, 0, by decide⟩

/-- The pattern that 64 bits spell. -/
def ofBits (bits : Nat) : Binary64 :=
  ⟨decide (Nat.pow 2 63 ≤ bits % Nat.pow 2 64), bits % Nat.pow 2 63, Nat.mod_lt _ (by decide)⟩

/-- The 64 bits of a pattern. -/
def toBits (x : Binary64) : Nat := (if x.negative then Nat.pow 2 63 else 0) + x.magnitude

/-- Equality of numbers: a pattern that is no number equals none, not even itself, and the
two zeros are equal. -/
def equals (x y : Binary64) : Bool :=
  !x.isNaN && !y.isNaN &&
    (decide (x.magnitude = 0 ∧ y.magnitude = 0) || decide (x = y))

/-- How many times the least positive number, 2^-1074, goes into the number of a finite
magnitude. The 52 low bits are the fraction. Above exponent 0, which has no leading one,
each exponent doubles the distance between neighbours. -/
def units (m : Nat) : Nat :=
  if m < Nat.pow 2 52 then m
  else (Nat.pow 2 52 + m % Nat.pow 2 52) * Nat.pow 2 (m / Nat.pow 2 52 - 1)

/-! ## The bits of a pattern -/

theorem toBits_ofBits (bits : Nat) (h : bits < Nat.pow 2 64) : (ofBits bits).toBits = bits := by
  simp only [ofBits, toBits, decide_eq_true_eq, Nat.pow_eq] at h ⊢
  split <;> omega

theorem ofBits_toBits (x : Binary64) : ofBits x.toBits = x := by
  obtain ⟨s, m, h⟩ := x
  rw [Nat.pow_eq] at h
  cases s <;> simp [ofBits, toBits] <;> omega

end Binary64

end SqlTokens
