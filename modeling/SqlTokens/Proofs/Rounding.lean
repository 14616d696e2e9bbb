-- What rounding answers, said without the rounding: the magnitude whose neighbours
-- are both at least as far away. There is one for every quotient, and it is a
-- matter of the quotient alone, not of how it is written.
import Mathlib.Tactic.Linarith
import Mathlib.Tactic.Ring
import SqlTokens.Decimal

namespace SqlTokens.Binary64

/-! ## Units -/

/-- Magnitudes of one exponent lie `2 ^ s` units apart. The count of 2^53 steps is the first
magnitude of the next exponent. -/
theorem units_eq {s k : Nat} (hk : k ≤ Nat.pow 2 53) (hs : Nat.pow 2 52 ≤ k ∨ s = 0) :
    units (Nat.pow 2 52 * s + k) = k * Nat.pow 2 s := by
  have h52 : Nat.pow 2 52 = 4503599627370496 := rfl
  have h53 : Nat.pow 2 53 = 9007199254740992 := rfl
  rw [h53] at hk
  unfold units
  rw [h52] at hs ⊢
  by_cases hlt : 4503599627370496 * s + k < 4503599627370496
  · have hs0 : s = 0 := by omega
    subst hs0
    rw [if_pos hlt, Nat.mul_zero, Nat.zero_add]
    exact (Nat.mul_one k).symm
  · rw [if_neg hlt]
    by_cases hk' : k < 9007199254740992
    · have hmod : 4503599627370496 + (4503599627370496 * s + k) % 4503599627370496 = k := by omega
      have hdiv : (4503599627370496 * s + k) / 4503599627370496 - 1 = s := by omega
      rw [hmod, hdiv]
    · have hk2 : k = 9007199254740992 := by omega
      have hmod : (4503599627370496 * s + k) % 4503599627370496 = 0 := by omega
      have hdiv : (4503599627370496 * s + k) / 4503599627370496 - 1 = s + 1 := by omega
      rw [hmod, hdiv, hk2, Nat.pow_eq, Nat.pow_eq, Nat.pow_succ]
      ring

/-- A magnitude is a number of steps in its exponent. -/
theorem exists_steps (m : Nat) : ∃ s k, m = Nat.pow 2 52 * s + k ∧ k < Nat.pow 2 53 ∧
    (Nat.pow 2 52 ≤ k ∨ s = 0) := by
  have h52 : Nat.pow 2 52 = 4503599627370496 := rfl
  have h53 : Nat.pow 2 53 = 9007199254740992 := rfl
  rw [h52, h53]
  by_cases h : m < 4503599627370496
  · exact ⟨0, m, by omega, by omega, Or.inr rfl⟩
  · exact ⟨m / 4503599627370496 - 1, 4503599627370496 + m % 4503599627370496, by omega, by omega,
      Or.inl (by omega)⟩

theorem units_lt_succ (m : Nat) : units m < units (m + 1) := by
  obtain ⟨s, k, rfl, hk, hs⟩ := exists_steps m
  have hs' : Nat.pow 2 52 ≤ k + 1 ∨ s = 0 := hs.imp_left (Nat.le_trans · (Nat.le_succ k))
  rw [Nat.add_assoc, units_eq (Nat.le_of_lt hk) hs, units_eq hk hs']
  exact Nat.mul_lt_mul_of_pos_right (Nat.lt_succ_self k) (Nat.pow_pos (by decide))

theorem units_strictMono : StrictMono units := strictMono_nat_of_lt_succ units_lt_succ

theorem units_mono {m n : Nat} (h : m ≤ n) : units m ≤ units n := units_strictMono.monotone h

/-! ## The nearest magnitude -/

/-- How many units make the number one. -/
@[irreducible] def one : Nat := Nat.pow 2 1074

theorem one_eq : one = Nat.pow 2 1074 := by
  unfold one
  rfl

theorem one_pos : 0 < one := by
  have hpos : ∀ n, 0 < Nat.pow 2 n := fun n => Nat.pow_pos (by decide)
  rw [one_eq]
  exact hpos 1074

/-- Of all magnitudes, `m` is nearest to `count / den` units: the quotient lies between the
points halfway to its two neighbours, and on such a point only when `m` is even. -/
structure Nearest (m count den : Nat) : Prop where
  low : (units (m - 1) + units m) * den ≤ 2 * count
  high : 2 * count ≤ (units m + units (m + 1)) * den
  even_of_low : (units (m - 1) + units m) * den = 2 * count → m % 2 = 0
  even_of_high : 2 * count = (units m + units (m + 1)) * den → m % 2 = 0

theorem Nearest.not_lt {m n count den : Nat} (hd : 0 < den) (hm : Nearest m count den)
    (hn : Nearest n count den) : ¬ m < n := by
  intro hlt
  have hle : (units m + units (m + 1)) ≤ units (n - 1) + units n :=
    Nat.add_le_add (units_mono (by omega)) (units_mono hlt)
  have hmul := Nat.mul_le_mul_right den hle
  have hsum : (units m + units (m + 1)) * den = (units (n - 1) + units n) * den :=
    Nat.le_antisymm hmul (hn.low.trans hm.high)
  -- The quotient is halfway between the two, which are neighbours, so one of them is odd.
  have hmid : 2 * count = (units m + units (m + 1)) * den :=
    Nat.le_antisymm hm.high (hsum.trans_le hn.low)
  have hm2 := hm.even_of_high hmid
  have hn2 := hn.even_of_low (hsum.symm.trans hmid.symm)
  have hnext : m + 1 < n := by omega
  have hlt' : units m + units (m + 1) < units (n - 1) + units n :=
    Nat.add_lt_add_of_le_of_lt (units_mono (by omega)) (units_strictMono hnext)
  exact absurd hsum (Nat.ne_of_lt (Nat.mul_lt_mul_of_pos_right hlt' hd))

/-- No quotient has two nearest magnitudes. -/
theorem Nearest.unique {m n count den : Nat} (hd : 0 < den) (hm : Nearest m count den)
    (hn : Nearest n count den) : m = n :=
  Nat.le_antisymm (Nat.not_lt.1 (hn.not_lt hd hm)) (Nat.not_lt.1 (hm.not_lt hd hn))

/-! ## Rounding finds it -/

theorem roundEven_bounds (count : Nat) {step : Nat} (h : 0 < step) :
    2 * count ≤ (2 * roundEven count step + 1) * step ∧
      2 * roundEven count step * step ≤ 2 * count + step := by
  have hdiv := Nat.div_add_mod count step
  unfold roundEven
  simp only
  generalize count / step = w at hdiv
  have hr := Nat.mod_lt count h
  generalize count % step = r at hdiv hr
  subst hdiv
  split
  · constructor <;> linarith
  · split
    · constructor <;> linarith
    · have hhalf : 2 * r = step := by omega
      rcases Nat.mod_two_eq_zero_or_one w with hw | hw
      · rw [hw]
        constructor <;> linarith
      · rw [hw]
        constructor <;> linarith

/-- Halfway, rounding goes to an even number. -/
theorem roundEven_even {count step : Nat} (h : 0 < step)
    (heq : 2 * count = (2 * roundEven count step + 1) * step ∨
      2 * roundEven count step * step = 2 * count + step) : roundEven count step % 2 = 0 := by
  have hdiv := Nat.div_add_mod count step
  unfold roundEven at heq ⊢
  simp only at heq ⊢
  generalize count / step = w at hdiv heq ⊢
  have hr := Nat.mod_lt count h
  generalize count % step = r at hdiv hr heq ⊢
  subst hdiv
  split at heq
  · rename_i hlt
    exfalso
    rcases heq with heq | heq <;> linarith
  · split at heq
    · exfalso
      rcases heq with heq | heq <;> linarith
    · rw [if_neg (by assumption), if_neg (by assumption)]
      omega

/-- The next magnitude is one step up; from the last magnitude of an exponent, two. -/
theorem step_le_units_succ {s k : Nat} (hk : k ≤ Nat.pow 2 53) (hs : Nat.pow 2 52 ≤ k ∨ s = 0) :
    (k + 1) * Nat.pow 2 s ≤ units (Nat.pow 2 52 * s + k + 1) := by
  have h52 : Nat.pow 2 52 = 4503599627370496 := rfl
  have h53 : Nat.pow 2 53 = 9007199254740992 := rfl
  rcases Nat.lt_or_eq_of_le hk with hlt | rfl
  · have hs' : Nat.pow 2 52 ≤ k + 1 ∨ s = 0 := hs.imp_left (Nat.le_trans · (Nat.le_succ k))
    rw [Nat.add_assoc, units_eq hlt hs']
  · have hm : Nat.pow 2 52 * s + Nat.pow 2 53 + 1 =
        Nat.pow 2 52 * (s + 1) + (Nat.pow 2 52 + 1) := by rw [h52, h53]; ring
    have hpow : Nat.pow 2 (s + 1) = Nat.pow 2 s * 2 := rfl
    rw [hm, units_eq (by rw [h52, h53]; decide) (Or.inl (Nat.le_succ _)), hpow, h52, h53]
    linarith [Nat.zero_le (Nat.pow 2 s)]

/-- The last magnitude is one step down, except from the first magnitude of an exponent. -/
theorem units_pred_add_step {s k : Nat} (hk : k ≤ Nat.pow 2 53) (hpos : 0 < k)
    (hs : Nat.pow 2 52 < k ∨ s = 0) :
    units (Nat.pow 2 52 * s + k - 1) + Nat.pow 2 s = k * Nat.pow 2 s := by
  obtain ⟨j, rfl⟩ := Nat.exists_eq_succ_of_ne_zero (Nat.ne_of_gt hpos)
  have hs' : Nat.pow 2 52 ≤ j ∨ s = 0 := hs.imp_left Nat.le_of_lt_succ
  rw [Nat.succ_eq_add_one, ← Nat.add_assoc, Nat.add_sub_cancel,
    units_eq (Nat.le_of_succ_le hk) hs', Nat.succ_mul]

/-- Rounded off to steps of `2 ^ s` units, a quotient of 53 bits gives the nearest magnitude. -/
theorem nearest_of_steps {s count den : Nat} (hd : 0 < den)
    (hhigh : count < Nat.pow 2 53 * (Nat.pow 2 s * den))
    (hlow : Nat.pow 2 52 * (Nat.pow 2 s * den) ≤ count ∨ s = 0) :
    Nearest (Nat.pow 2 52 * s + roundEven count (Nat.pow 2 s * den)) count den := by
  have h52 : Nat.pow 2 52 = 4503599627370496 := rfl
  have h53 : Nat.pow 2 53 = 9007199254740992 := rfl
  have hstep : 0 < Nat.pow 2 s * den := Nat.mul_pos (Nat.pow_pos (by decide)) hd
  obtain ⟨hup, hdown⟩ := roundEven_bounds count hstep
  have heven : _ → roundEven count (Nat.pow 2 s * den) % 2 = 0 := roundEven_even hstep
  generalize roundEven count (Nat.pow 2 s * den) = k at hup hdown heven ⊢
  have hk : k ≤ Nat.pow 2 53 := by
    rw [h53] at hhigh ⊢
    by_contra hgt
    nlinarith
  have hk' : Nat.pow 2 52 ≤ k ∨ s = 0 := by
    refine hlow.imp_left fun hlow => ?_
    rw [h52] at hlow ⊢
    by_contra hlt
    nlinarith
  have hmod : (Nat.pow 2 52 * s + k) % 2 = k % 2 := by rw [h52]; omega
  have hunits := units_eq hk hk'
  have hsucc := Nat.mul_le_mul_right den (step_le_units_succ hk hk')
  have hprev := Nat.mul_le_mul_right den (units_mono (Nat.sub_le (Nat.pow 2 52 * s + k) 1))
  rw [hunits] at hprev
  by_cases hexact : 0 < k ∧ (Nat.pow 2 52 < k ∨ s = 0)
  · have hpred := congrArg (· * den) (units_pred_add_step hk hexact.1 hexact.2)
    simp only [Nat.add_mul, Nat.mul_assoc] at hpred
    refine ⟨?_, ?_, fun heq => ?_, fun heq => ?_⟩
    · rw [hunits]; linarith
    · rw [hunits]; linarith
    · rw [hunits] at heq; rw [hmod]; exact heven (Or.inr (by linarith))
    · rw [hunits] at heq; rw [hmod]; exact heven (Or.inl (by linarith))
  · -- The first magnitude of all, or of an exponent, is even.
    have hk2 : k % 2 = 0 := by rw [h52] at hexact hk'; omega
    refine ⟨?_, ?_, fun _ => hmod.trans hk2, fun _ => hmod.trans hk2⟩
    · rw [hunits]
      rcases Nat.eq_zero_or_pos k with rfl | hpos
      · have hs : s = 0 := by rw [h52] at hk'; omega
        subst hs
        have hzero : units (Nat.pow 2 52 * 0 + 0 - 1) = 0 := rfl
        rw [hzero, Nat.zero_mul]
        exact Nat.zero_le _
      · have hcount : Nat.pow 2 52 * (Nat.pow 2 s * den) ≤ count :=
          hlow.resolve_right fun hs => hexact ⟨hpos, Or.inr hs⟩
        have hkeq : k = Nat.pow 2 52 := by rw [h52] at hexact hk' ⊢; omega
        rw [hkeq] at hprev ⊢
        linarith
    · rw [hunits]; linarith

/-- Rounding gives the nearest magnitude. -/
theorem nearest_nearest (num : Nat) {den : Nat} (hd : 0 < den) :
    Nearest (nearest num den) (one * num) den := by
  unfold nearest
  simp only
  rw [← one_eq]
  generalize one * num = count
  have hadd : ∀ s, Nat.pow 2 (52 + s) = Nat.pow 2 52 * Nat.pow 2 s := Nat.pow_add 2 52
  have hq : count < (count / den + 1) * den := Nat.lt_mul_of_div_lt (Nat.lt_succ_self _) hd
  apply nearest_of_steps hd
  · have hlog : count / den + 1 ≤ Nat.pow 2 53 * Nat.pow 2 ((count / den).log2 - 52) := by
      refine Nat.le_trans Nat.lt_log2_self ?_
      rw [Nat.pow_eq, Nat.pow_eq, ← Nat.pow_add]
      exact Nat.pow_le_pow_right (by decide) (by omega)
    rw [← Nat.mul_assoc]
    exact Nat.lt_of_lt_of_le hq (Nat.mul_le_mul_right den hlog)
  · by_cases hs : (count / den).log2 - 52 = 0
    · exact Or.inr hs
    · left
      have hne : count / den ≠ 0 := by
        intro h0
        rw [h0, Nat.log2_zero] at hs
        exact hs rfl
      have hlog := Nat.log2_self_le hne
      rw [show (count / den).log2 = 52 + ((count / den).log2 - 52) by omega] at hlog
      have hmul := Nat.mul_le_mul_right den hlog
      rw [← Nat.pow_eq, hadd, Nat.mul_assoc] at hmul
      exact hmul.trans (Nat.div_mul_le_self count den)

theorem nearest_eq_iff {num den m : Nat} (hd : 0 < den) :
    nearest num den = m ↔ Nearest m (one * num) den := by
  constructor
  · rintro rfl
    exact nearest_nearest num hd
  · exact (nearest_nearest num hd).unique hd

/-! ## One quotient, written in two ways -/

/-- Equal quotients compare alike. -/
theorem mul_le_mul_iff_of_quotient {num den num' den' : Nat} (hd : 0 < den) (hd' : 0 < den')
    (h : num * den' = num' * den) (a b : Nat) :
    (a * den ≤ b * num ↔ a * den' ≤ b * num') ∧ (b * num ≤ a * den ↔ b * num' ≤ a * den') := by
  have hnum : b * num * den' = b * num' * den := by rw [Nat.mul_assoc, h, ← Nat.mul_assoc]
  have hden : a * den * den' = a * den' * den := Nat.mul_right_comm a den den'
  constructor
  · calc a * den ≤ b * num ↔ a * den * den' ≤ b * num * den' := (Nat.mul_le_mul_right_iff hd').symm
      _ ↔ a * den' * den ≤ b * num' * den := by rw [hden, hnum]
      _ ↔ a * den' ≤ b * num' := Nat.mul_le_mul_right_iff hd
  · calc b * num ≤ a * den ↔ b * num * den' ≤ a * den * den' := (Nat.mul_le_mul_right_iff hd').symm
      _ ↔ b * num' * den ≤ a * den' * den := by rw [hden, hnum]
      _ ↔ b * num' ≤ a * den' := Nat.mul_le_mul_right_iff hd

/-- The nearest magnitude is a matter of the quotient. -/
theorem Nearest.of_quotient {m scale num den num' den' : Nat} (hd : 0 < den) (hd' : 0 < den')
    (h : num * den' = num' * den) (hn : Nearest m (scale * num) den) :
    Nearest m (scale * num') den' := by
  have hcmp := fun a => mul_le_mul_iff_of_quotient hd hd' h a (2 * scale)
  simp only [Nat.mul_assoc] at hcmp
  obtain ⟨hlow, hhigh, hel, heh⟩ := hn
  refine ⟨(hcmp _).1.1 hlow, (hcmp _).2.1 hhigh, fun heq => hel ?_, fun heq => heh ?_⟩
  · exact Nat.le_antisymm ((hcmp _).1.2 heq.le) ((hcmp _).2.2 heq.ge)
  · exact Nat.le_antisymm ((hcmp _).2.2 heq.le) ((hcmp _).1.2 heq.ge)

theorem nearest_eq_of_quotient {num den num' den' : Nat} (hd : 0 < den) (hd' : 0 < den')
    (h : num * den' = num' * den) : nearest num den = nearest num' den' := by
  have hn := nearest_nearest num hd
  have hn' := hn.of_quotient hd hd' h
  exact ((nearest_eq_iff hd').2 hn').symm

theorem ofRatio?_eq_of_quotient (negative : Bool) {num den num' den' : Nat} (hd : 0 < den)
    (hd' : 0 < den') (h : num * den' = num' * den) :
    ofRatio? negative num den = ofRatio? negative num' den' := by
  unfold ofRatio?
  simp only [nearest_eq_of_quotient hd hd' h]

theorem ofRatio?_eq_some {num den : Nat} (hd : 0 < den) {x : Binary64} (hx : x.isFinite = true)
    (h : Nearest x.magnitude (one * num) den) :
    ofRatio? x.negative num den = some x := by
  have hm : x.magnitude < infinity := by simpa [isFinite] using hx
  unfold ofRatio?
  simp only [(nearest_eq_iff hd).2 h, hm, ↓reduceDIte]

/-- Only finite numbers come out of rounding. -/
theorem isFinite_of_ofRatio? {negative : Bool} {num den : Nat} {x : Binary64}
    (h : ofRatio? negative num den = some x) : x.isFinite = true := by
  unfold ofRatio? at h
  simp only at h
  split at h
  · cases h
    simpa [isFinite]
  · cases h

end SqlTokens.Binary64

/-! ## Decimals of any size -/

namespace SqlTokens.Decimal

open Binary64 (one units infinity Nearest)

theorem den_pos (d : Decimal) : 0 < d.den := Nat.pow_pos (by decide)

theorem units_infinity : units infinity = one * Nat.pow 2 1024 := by
  have hm : infinity = Nat.pow 2 52 * 2046 + Nat.pow 2 52 := rfl
  rw [hm, Binary64.units_eq (by decide) (Or.inl (Nat.le_refl _)), Binary64.one_eq]
  decide +kernel

/-- A decimal of 10^401 or more is infinite. -/
theorem ofRatio?_of_large {d : Decimal} (negative : Bool) (h0 : d.digits ≠ 0)
    (h : 400 < d.exponent) : Binary64.ofRatio? negative d.num d.den = none := by
  have hden : d.den = 1 := by
    rw [den, show (-d.exponent).toNat = 0 by omega, Nat.pow_eq, Nat.pow_zero]
  have hbig : ∃ n, n ≤ d.exponent.toNat ∧ Nat.pow 2 1024 < Nat.pow 10 n :=
    ⟨401, by omega, by decide +kernel⟩
  obtain ⟨n, hn, hbig⟩ := hbig
  have hnum : Nat.pow 10 n ≤ d.num :=
    (Nat.pow_le_pow_right (by decide) hn).trans
      (Nat.le_mul_of_pos_left _ (Nat.pos_of_ne_zero h0))
  unfold Binary64.ofRatio?
  simp only
  rw [dif_neg]
  intro hlt
  have hhigh := (Binary64.nearest_nearest d.num d.den_pos).high
  generalize Binary64.nearest d.num d.den = m at hlt hhigh
  have hu : units m ≤ units infinity := Binary64.units_mono (Nat.le_of_lt hlt)
  have hu' : units (m + 1) ≤ units infinity := Binary64.units_mono hlt
  rw [units_infinity] at hu hu'
  rw [hden, Nat.mul_one] at hhigh
  have hle : one * d.num ≤ one * Nat.pow 2 1024 := by omega
  exact absurd (Nat.le_of_mul_le_mul_left hle Binary64.one_pos)
    (Nat.not_le_of_lt (Nat.lt_of_lt_of_le hbig hnum))

/-- A decimal below 10^-401 is zero. -/
theorem ofRatio?_of_small {d : Decimal} (negative : Bool)
    (h : d.exponent + d.digits.log2 < -401) :
    Binary64.ofRatio? negative d.num d.den = some (.zero negative) := by
  have hbig : ∃ n, n + (d.digits.log2 + 1) ≤ (-d.exponent).toNat ∧ 2 * one < Nat.pow 10 n := by
    rw [Binary64.one_eq]
    exact ⟨401, by omega, by decide +kernel⟩
  obtain ⟨n, hn, hbig⟩ := hbig
  have hdigits : d.num ≤ Nat.pow 10 (d.digits.log2 + 1) := by
    have hexp : d.exponent.toNat = 0 := by omega
    rw [num, hexp, Nat.pow_eq, Nat.pow_zero, Nat.mul_one]
    exact (Nat.le_of_lt Nat.lt_log2_self).trans (Nat.pow_le_pow_left (by decide) _)
  have hlt : 2 * (one * d.num) < d.den :=
    calc 2 * (one * d.num) = 2 * one * d.num := (Nat.mul_assoc _ _ _).symm
      _ ≤ 2 * one * Nat.pow 10 (d.digits.log2 + 1) := Nat.mul_le_mul_left _ hdigits
      _ < Nat.pow 10 n * Nat.pow 10 (d.digits.log2 + 1) :=
        Nat.mul_lt_mul_of_pos_right hbig (Nat.pow_pos (by decide))
      _ = Nat.pow 10 (n + (d.digits.log2 + 1)) := (Nat.pow_add 10 _ _).symm
      _ ≤ d.den := Nat.pow_le_pow_right (by decide) hn
  have hone : units (0 + 1) = 1 := rfl
  have hzero : units 0 = 0 := rfl
  refine Binary64.ofRatio?_eq_some (x := .zero negative) d.den_pos rfl
    ⟨?_, ?_, fun _ => rfl, fun _ => rfl⟩
  · simp [Binary64.zero, hzero]
  · simp only [Binary64.zero, hzero, hone]
    omega

/-- The tests on the size of the exponent decide nothing that rounding would not. -/
theorem toBinary64?_eq (negative : Bool) (d : Decimal) :
    d.toBinary64? negative = Binary64.ofRatio? negative d.num d.den := by
  unfold toBinary64?
  by_cases h0 : d.digits = 0
  · have hnum : d.num = 0 := by rw [num, h0, Nat.zero_mul]
    rw [if_pos h0, hnum]
    refine (Binary64.ofRatio?_eq_some (x := .zero negative) d.den_pos rfl ?_).symm
    refine ⟨?_, Nat.zero_le _, fun _ => rfl, fun _ => rfl⟩
    exact (Nat.zero_mul _).trans_le (Nat.zero_le _)
  · rw [if_neg h0]
    by_cases h1 : 400 < d.exponent
    · rw [if_pos h1, ofRatio?_of_large negative h0 h1]
    · rw [if_neg h1]
      by_cases h2 : d.exponent + d.digits.log2 < -401
      · rw [if_pos h2, ofRatio?_of_small negative h2]
      · rw [if_neg h2]

end SqlTokens.Decimal
