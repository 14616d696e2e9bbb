-- Floating point numbers as rational numbers: the number that a bit pattern stands for,
-- and which of all finite patterns is nearest to a rational number. Rounding finds
-- that one, and it finds one just below the middle between the largest finite number
-- and the power of two above it.
import Mathlib.Algebra.Order.Field.Basic
import Mathlib.Algebra.Order.Ring.Rat
import Mathlib.Tactic.FieldSimp
import SqlTokens.Proofs.Rounding

namespace SqlTokens.Binary64

/-! ## The number of a pattern -/

/-- The number that a magnitude stands for. The 52 low bits are the fraction, and the bits above
them the exponent. The numbers of exponent 0 have no leading one and lie as close together as
those of exponent 1. -/
def size (m : Nat) : ℚ :=
  let exponent := m / Nat.pow 2 52
  let fraction : ℚ := (m % Nat.pow 2 52 : Nat) / 2 ^ 52
  if exponent = 0 then 2 ^ (-1022 : ℤ) * fraction
  else 2 ^ ((exponent : ℤ) - 1023) * (1 + fraction)

/-- The number that a finite pattern stands for. -/
def toRat (x : Binary64) : ℚ := if x.negative then -size x.magnitude else size x.magnitude

/-- Of all finite patterns, `x` stands for the number nearest to `q`. Of two numbers that are equally
near, it is the one whose last bit is zero. -/
structure IsNearest (q : ℚ) (x : Binary64) : Prop where
  finite : x.isFinite = true
  nearest : ∀ y : Binary64, y.isFinite = true → |x.toRat - q| ≤ |y.toRat - q|
  even_of_tie : ∀ y : Binary64, y.isFinite = true → y.toRat ≠ x.toRat →
    |y.toRat - q| = |x.toRat - q| → x.magnitude % 2 = 0

/-- The middle between the largest finite number and 2^1024, which would be the next one. -/
def overflow : ℚ := 2 ^ 1024 - 2 ^ 970

/-! ## Sizes in units -/

theorem cast_pow_two (k : Nat) : ((Nat.pow 2 k : Nat) : ℚ) = 2 ^ k := by
  rw [Nat.pow_eq, Nat.cast_pow, Nat.cast_ofNat]

theorem cast_one_pos : (0 : ℚ) < (one : Nat) := Nat.cast_pos.2 one_pos

theorem cast_one (k : Nat) (hk : one = Nat.pow 2 k) : ((one : Nat) : ℚ) = 2 ^ k := by
  rw [hk, cast_pow_two]

theorem scale_fraction {a b n : Nat} (h : b + a = n) (x : ℚ) :
    2 ^ (-(a : ℤ)) * (x / 2 ^ b) = x / 2 ^ n := by
  rw [← h, zpow_neg, zpow_natCast, pow_add]
  field_simp

theorem scale_significand {a b n : Nat} (h : b + a = n) (k : Nat) (x : ℚ) :
    2 ^ ((k : ℤ) - a) * (1 + x / 2 ^ b) = (2 ^ b + x) * 2 ^ k / 2 ^ n := by
  rw [← h, zpow_sub₀ two_ne_zero, zpow_natCast, zpow_natCast, pow_add]
  field_simp

/-- The exponent and the fraction say how many units the number has. -/
theorem size_eq (m : Nat) : size m = units m / (one : Nat) := by
  have hpos : 0 < Nat.pow 2 52 := by decide
  have hone := cast_one _ one_eq
  unfold size units
  simp only
  rw [hone]
  by_cases hm : m < Nat.pow 2 52
  · have h := scale_fraction (a := 1022) (b := 52) (n := 1074) rfl m
    rw [if_pos (Nat.div_eq_of_lt hm), if_pos hm, Nat.mod_eq_of_lt hm]
    exact h
  · have hexp : m / Nat.pow 2 52 ≠ 0 := by
      rw [Nat.div_ne_zero_iff]
      exact ⟨Nat.ne_of_gt hpos, Nat.not_lt.1 hm⟩
    obtain ⟨k, hk⟩ := Nat.exists_eq_succ_of_ne_zero hexp
    have h := scale_significand (a := 1022) (b := 52) (n := 1074) rfl k
      ((m % Nat.pow 2 52 : Nat) : ℚ)
    have hsub : ((k.succ : Nat) : ℤ) - 1023 = (k : ℤ) - (1022 : Nat) := by omega
    rw [if_neg hexp, if_neg hm, hk, hsub, h, Nat.succ_sub_one, Nat.cast_mul, Nat.cast_add,
      cast_pow_two, cast_pow_two]

theorem size_strictMono : StrictMono size := by
  intro m n h
  rw [size_eq, size_eq]
  exact div_lt_div_of_pos_right (Nat.cast_lt.2 (units_strictMono h)) cast_one_pos

theorem size_nonneg (m : Nat) : 0 ≤ size m := by
  rw [size_eq]
  exact div_nonneg (Nat.cast_nonneg _) cast_one_pos.le

theorem toRat_of_not_negative {x : Binary64} (h : x.negative = false) :
    x.toRat = size x.magnitude := by
  rw [toRat, h]
  rfl

/-- No number lies between a magnitude and its neighbours. -/
theorem toRat_cases (y : Binary64) (m : Nat) :
    y.toRat ≤ size (m - 1) ∨ y.toRat = size m ∨ size (m + 1) ≤ y.toRat := by
  rcases hy : y.negative with _ | _
  · rw [toRat_of_not_negative hy]
    rcases Nat.lt_trichotomy y.magnitude m with hlt | heq | hgt
    · exact Or.inl (size_strictMono.monotone (by omega))
    · exact Or.inr (Or.inl (by rw [heq]))
    · exact Or.inr (Or.inr (size_strictMono.monotone hgt))
  · left
    rw [toRat, if_pos hy]
    exact (neg_nonpos.2 (size_nonneg _)).trans (size_nonneg _)

/-! ## The nearest magnitude -/

/-- The quotient lies between the middles of `m` and its neighbours, and it is such a middle only
when `m` is even. -/
structure Between (q : ℚ) (m : Nat) : Prop where
  low : size (m - 1) + size m ≤ 2 * q
  high : 2 * q ≤ size m + size (m + 1)
  even_of_low : size (m - 1) + size m = 2 * q → m % 2 = 0
  even_of_high : 2 * q = size m + size (m + 1) → m % 2 = 0

theorem div_one_le_iff (num : Nat) {den : Nat} (hd : 0 < den) (a : Nat) :
    (a : ℚ) / (one : Nat) ≤ 2 * (num / den) ↔ a * den ≤ 2 * (one * num) := by
  have hd' : (0 : ℚ) < den := Nat.cast_pos.2 hd
  rw [div_le_iff₀ cast_one_pos, ← mul_div_assoc, div_mul_eq_mul_div, le_div_iff₀ hd', mul_assoc 2,
    mul_comm (num : ℚ)]
  exact_mod_cast Iff.rfl

theorem le_div_one_iff (num : Nat) {den : Nat} (hd : 0 < den) (a : Nat) :
    2 * ((num : ℚ) / den) ≤ a / (one : Nat) ↔ 2 * (one * num) ≤ a * den := by
  have hd' : (0 : ℚ) < den := Nat.cast_pos.2 hd
  rw [le_div_iff₀ cast_one_pos, ← mul_div_assoc, div_mul_eq_mul_div, div_le_iff₀ hd', mul_assoc 2,
    mul_comm (num : ℚ)]
  exact_mod_cast Iff.rfl

theorem Nearest.between {m num den : Nat} (hd : 0 < den) (h : Nearest m (one * num) den) :
    Between (num / den) m := by
  have hsum : ∀ a b, size a + size b = ((units a + units b : Nat) : ℚ) / (one : Nat) := by
    intro a b
    rw [size_eq, size_eq, ← add_div, Nat.cast_add]
  have hle := div_one_le_iff num hd
  have hge := le_div_one_iff num hd
  refine ⟨?_, ?_, fun heq => h.even_of_low ?_, fun heq => h.even_of_high ?_⟩
  · rw [hsum, hle]
    exact h.low
  · rw [hsum, hge]
    exact h.high
  · rw [hsum] at heq
    exact Nat.le_antisymm h.low ((hge _).1 heq.ge)
  · rw [hsum] at heq
    exact Nat.le_antisymm h.high ((hle _).1 heq.ge)

/-- Beyond the middle of two numbers, the farther one is nearer. -/
theorem abs_sub_le_of_le {a b q : ℚ} (hab : a ≤ b) (h : a + b ≤ 2 * q) : |b - q| ≤ |a - q| := by
  have hneg := neg_abs_le (a - q)
  rw [abs_le]
  constructor <;> linarith

theorem abs_sub_le_of_ge {a b q : ℚ} (hab : a ≤ b) (h : 2 * q ≤ a + b) : |a - q| ≤ |b - q| := by
  have hle := le_abs_self (b - q)
  rw [abs_le]
  constructor <;> linarith

/-- Two numbers that are equally near have the number in their middle. -/
theorem add_eq_of_tie {a b q : ℚ} (hne : a ≠ b) (h : |a - q| = |b - q|) : a + b = 2 * q := by
  rcases abs_eq_abs.1 h with heq | heq
  · exact absurd (by linarith) hne
  · linarith

theorem Between.isNearest {q : ℚ} {x : Binary64} (h : Between q x.magnitude)
    (hfinite : x.isFinite = true) (hsign : x.negative = false) : IsNearest q x := by
  have hprev : size (x.magnitude - 1) ≤ size x.magnitude :=
    size_strictMono.monotone (Nat.sub_le _ _)
  have hnext : size x.magnitude < size (x.magnitude + 1) := size_strictMono (Nat.lt_succ_self _)
  have hx := toRat_of_not_negative hsign
  obtain ⟨hlow, hhigh, hel, heh⟩ := h
  refine ⟨hfinite, ?_, ?_⟩
  · intro y _
    rw [hx]
    rcases toRat_cases y x.magnitude with hy | hy | hy
    · exact abs_sub_le_of_le (hy.trans hprev) (by linarith)
    · rw [hy]
    · exact abs_sub_le_of_ge (hnext.le.trans hy) (by linarith)
  · intro y _ hne htie
    rw [hx] at hne htie
    have hsum := add_eq_of_tie hne htie
    -- The number is the middle of the two, so `y` is a neighbour.
    rcases toRat_cases y x.magnitude with hy | hy | hy
    · exact hel (by linarith)
    · exact absurd hy hne
    · exact heh (by linarith)

/-- Of the patterns with a clear sign bit, only one is nearest. -/
theorem IsNearest.magnitude_le {q : ℚ} {x y : Binary64} (hx : IsNearest q x) (hy : IsNearest q y)
    (hxs : x.negative = false) (hys : y.negative = false) : x.magnitude ≤ y.magnitude := by
  by_contra hgt
  have hlt : y.magnitude < x.magnitude := Nat.lt_of_not_le hgt
  have hsize := size_strictMono hlt
  have htie : |y.toRat - q| = |x.toRat - q| :=
    le_antisymm (hy.nearest x hx.finite) (hx.nearest y hy.finite)
  have hne : y.toRat ≠ x.toRat := by
    rw [toRat_of_not_negative hxs, toRat_of_not_negative hys]
    exact hsize.ne
  -- Both are even, so a pattern between them is nearer than both.
  have hx2 := hx.even_of_tie y hy.finite hne htie
  have hy2 := hy.even_of_tie x hx.finite hne.symm htie.symm
  have hmax : x.magnitude < infinity := by simpa [isFinite] using hx.finite
  have hbetween : y.magnitude + 1 < x.magnitude := by omega
  have hz : (⟨false, y.magnitude + 1, hbetween.trans x.magnitude_lt⟩ : Binary64).isFinite = true := by
    simpa [isFinite] using hbetween.trans hmax
  have hnear := hx.nearest _ hz
  have hsum := add_eq_of_tie hne htie
  have hlow := size_strictMono (Nat.lt_succ_self y.magnitude)
  have hhigh := size_strictMono hbetween
  rw [toRat_of_not_negative hxs, toRat_of_not_negative rfl] at hnear
  rw [toRat_of_not_negative hxs, toRat_of_not_negative hys] at hsum
  simp only at hnear
  have hpos : 0 ≤ size x.magnitude - q := by linarith
  rw [abs_of_nonneg hpos, le_abs] at hnear
  rcases hnear with hnear | hnear
  · linarith
  · linarith

theorem IsNearest.unique {q : ℚ} {x y : Binary64} (hx : IsNearest q x) (hy : IsNearest q y)
    (hxs : x.negative = false) (hys : y.negative = false) : x = y := by
  have hm := Nat.le_antisymm (hx.magnitude_le hy hxs hys) (hy.magnitude_le hx hys hxs)
  obtain ⟨negative, magnitude, _⟩ := x
  obtain ⟨negative', magnitude', _⟩ := y
  cases hxs
  cases hys
  cases hm
  rfl

/-! ## The largest finite number -/

theorem size_of_units {m : Nat} (k : Nat) (h : units m = one * Nat.pow 2 k) : size m = 2 ^ k := by
  rw [size_eq, h, Nat.cast_mul, cast_pow_two, mul_div_cancel_left₀ _ cast_one_pos.ne']

/-- The numbers of one exponent lie equally far apart, up to the first one of the next exponent. -/
theorem size_pred_add (k : Nat) (hk : one = Nat.pow 2 k) (j : Nat) :
    size (Nat.pow 2 52 * (k + j) + Nat.pow 2 53 - 1) + 2 ^ j =
      size (Nat.pow 2 52 * (k + j) + Nat.pow 2 53) := by
  have h52 : Nat.pow 2 52 ≤ Nat.pow 2 53 := by decide
  have hstep := units_pred_add_step (s := k + j) (Nat.le_refl (Nat.pow 2 53)) (by decide)
    (Or.inl (by decide))
  have hunits := units_eq (s := k + j) (Nat.le_refl (Nat.pow 2 53)) (Or.inl h52)
  have hpow : Nat.pow 2 (k + j) = one * Nat.pow 2 j := by
    rw [hk, Nat.pow_eq, Nat.pow_eq, Nat.pow_eq, Nat.pow_add]
  rw [← hunits, hpow] at hstep
  rw [size_eq, size_eq, ← hstep, Nat.cast_add, Nat.cast_mul, cast_pow_two, add_div,
    mul_div_cancel_left₀ _ cast_one_pos.ne']

theorem size_infinity : size infinity = 2 ^ 1024 := by
  have h := size_of_units _ Decimal.units_infinity
  exact h

/-- The largest finite number is 2^971 below 2^1024. -/
theorem size_infinity_pred : size (infinity - 1) + 2 ^ 971 = size infinity := by
  have h := size_pred_add _ one_eq 971
  exact h

theorem size_add_eq_overflow : size (infinity - 1) + size infinity = 2 * overflow := by
  have hpred := size_infinity_pred
  have htwice : (2 : ℚ) ^ 971 = 2 * 2 ^ 970 := pow_succ' 2 970
  rw [size_infinity, htwice] at hpred
  rw [size_infinity, overflow]
  generalize (2 : ℚ) ^ 1024 = a at hpred ⊢
  generalize (2 : ℚ) ^ 970 = b at hpred ⊢
  linarith

/-- Rounding stays finite just below the middle above the largest finite number. -/
theorem Between.lt_infinity_iff {q : ℚ} {m : Nat} (h : Between q m) :
    m < infinity ↔ q < overflow := by
  have hsum := size_add_eq_overflow
  have hodd : (infinity - 1) % 2 = 1 := by decide
  have hpos : 0 < infinity := by decide
  generalize overflow = top at hsum ⊢
  generalize infinity = inf at hsum hodd hpos ⊢
  constructor
  · intro hlt
    by_contra hge
    have hm : size m ≤ size (inf - 1) := size_strictMono.monotone (by omega)
    have hm' : size (m + 1) ≤ size inf := size_strictMono.monotone (by omega)
    have hhigh := h.high
    -- The largest finite number is odd, so the middle itself is not rounded down to it.
    have hlast : m = inf - 1 := size_strictMono.injective (by linarith)
    have heven := h.even_of_high (by linarith)
    rw [hlast] at heven
    omega
  · intro hlt
    by_contra hge
    have hm : size inf ≤ size m := size_strictMono.monotone (by omega)
    have hm' : size (inf - 1) ≤ size (m - 1) := size_strictMono.monotone (by omega)
    have hlow := h.low
    linarith

/-! ## Rounding a quotient -/

theorem between_nearest (num : Nat) {den : Nat} (hd : 0 < den) :
    Between (num / den) (nearest num den) := (nearest_nearest num hd).between hd

theorem negative_of_ofRatio? {negative : Bool} {num den : Nat} {x : Binary64}
    (h : ofRatio? negative num den = some x) : x.negative = negative := by
  unfold ofRatio? at h
  simp only at h
  split at h
  · cases h
    rfl
  · cases h

theorem isNearest_of_ofRatio? {num den : Nat} {x : Binary64} (hd : 0 < den)
    (h : ofRatio? false num den = some x) : IsNearest (num / den) x := by
  have hm : x.magnitude = nearest num den := by
    unfold ofRatio? at h
    simp only at h
    split at h
    · cases h
      rfl
    · cases h
  have hbetween := between_nearest num hd
  rw [← hm] at hbetween
  exact hbetween.isNearest (isFinite_of_ofRatio? h) (negative_of_ofRatio? h)

theorem ofRatio?_eq_none_iff (negative : Bool) (num : Nat) {den : Nat} (hd : 0 < den) :
    ofRatio? negative num den = none ↔ overflow ≤ (num / den : ℚ) := by
  rw [← not_lt, ← (between_nearest num hd).lt_infinity_iff]
  unfold ofRatio?
  simp only
  split
  · rename_i hlt
    simpa using hlt
  · rename_i hge
    simpa using hge

end SqlTokens.Binary64
