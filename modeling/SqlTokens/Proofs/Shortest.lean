-- The law of shortest decimals: a finite number, written in any style, is read back
-- as the same bit pattern.
import SqlTokens.Numeral
import SqlTokens.Proofs.Rounding

namespace SqlTokens

/-! ## Decimals that are read back -/

namespace Binary64

/-- The check for reading back is that no magnitude is nearer. -/
theorem readsBack_iff {m : Nat} {d : Decimal} :
    readsBack m d = true ↔ Nearest m (one * d.num) d.den := by
  have htwice : Nat.pow 2 1075 * d.num = 2 * (one * d.num) := by
    have hpow : Nat.pow 2 1075 = 2 * one := by
      rw [one_eq]
      decide +kernel
    rw [hpow, Nat.mul_assoc]
  unfold readsBack
  simp only [htwice]
  by_cases hm : m % 2 = 0
  · rw [if_pos hm, Bool.and_eq_true, decide_eq_true_eq, decide_eq_true_eq]
    exact ⟨fun h => ⟨h.1, h.2, fun _ => hm, fun _ => hm⟩, fun h => ⟨h.low, h.high⟩⟩
  · rw [if_neg hm, Bool.and_eq_true, decide_eq_true_eq, decide_eq_true_eq]
    constructor
    · rintro ⟨hlow, hhigh⟩
      exact ⟨hlow.le, hhigh.le, fun heq => absurd heq hlow.ne, fun heq => absurd heq hhigh.ne⟩
    · rintro ⟨hlow, hhigh, hel, heh⟩
      exact ⟨hlow.lt_of_ne fun heq => hm (hel heq), hhigh.lt_of_ne fun heq => hm (heh heq)⟩

/-- A hit on a grid has passed the check. -/
theorem readsBack_of_onGrid? {tie : Tie} {m : Nat} {e : Int} {d : Decimal}
    (h : onGrid? tie m e = some d) : readsBack m d = true := by
  unfold onGrid? at h
  simp only at h
  split at h
  · rename_i hbelow habove
    rw [Bool.and_eq_true] at hbelow
    split at h
    · cases h
      exact habove
    · cases h
      exact hbelow.2
  · rename_i hbelow _
    rw [Bool.and_eq_true] at hbelow
    cases h
    exact hbelow.2
  · rename_i habove
    cases h
    exact habove
  · cases h

/-- The number itself is read back as its magnitude. -/
theorem nearest_exact {m count den : Nat} (hm : 0 < m) (hd : 0 < den)
    (h : count = units m * den) : Nearest m count den := by
  have hprev : units (m - 1) < units m := units_strictMono (Nat.sub_lt hm Nat.one_pos)
  have hnext := units_lt_succ m
  have hlow : (units (m - 1) + units m) * den < 2 * count := by
    rw [h, ← Nat.mul_assoc, Nat.two_mul]
    exact Nat.mul_lt_mul_of_pos_right (Nat.add_lt_add_right hprev _) hd
  have hhigh : 2 * count < (units m + units (m + 1)) * den := by
    rw [h, ← Nat.mul_assoc, Nat.two_mul]
    exact Nat.mul_lt_mul_of_pos_right (Nat.add_lt_add_left hnext _) hd
  exact ⟨hlow.le, hhigh.le, fun heq => absurd heq hlow.ne, fun heq => absurd heq hhigh.ne⟩

/-- A unit of 2^-k is a decimal: it is 5^k times 10^-k. -/
theorem one_mul_num {k : Nat} (hk : one = Nat.pow 2 k) (u : Nat) :
    one * (⟨Nat.pow 5 k * u, -k⟩ : Decimal).num =
      u * (⟨Nat.pow 5 k * u, -k⟩ : Decimal).den := by
  have hten : Nat.pow 10 k = Nat.pow 2 k * Nat.pow 5 k := Nat.mul_pow 2 5 k
  have hone : Nat.pow 10 0 = 1 := rfl
  simp only [Decimal.num, Decimal.den, Int.neg_neg, Int.toNat_natCast, Int.toNat_neg_natCast, hten,
    hone, hk]
  ring

theorem readsBack_searchGrids (tie : Tie) {m : Nat} (hm : 0 < m) (tries : Nat) (e : Int) :
    readsBack m (searchGrids tie m tries e) = true := by
  induction tries generalizing e with
  | zero =>
    rw [readsBack_iff]
    exact nearest_exact hm (Decimal.den_pos _) (one_mul_num one_eq (units m))
  | succ tries ih =>
    rw [searchGrids]
    rcases hd : onGrid? tie m e with _ | d
    · exact ih (e - 1)
    · exact readsBack_of_onGrid? hd

/-- The shortest decimal of a finite magnitude is read back as that magnitude. -/
theorem toBinary64?_shortest (tie : Tie) {x : Binary64} (hx : x.isFinite = true) :
    (shortest tie x.magnitude).toBinary64? x.negative = some x := by
  unfold shortest
  by_cases h0 : x.magnitude = 0
  · obtain ⟨negative, magnitude, hlt⟩ := x
    cases h0
    rfl
  · rw [if_neg h0, Decimal.toBinary64?_eq]
    apply ofRatio?_eq_some (Decimal.den_pos _) hx
    rw [← readsBack_iff]
    exact readsBack_searchGrids tie (Nat.pos_of_ne_zero h0) 18 _

end Binary64

/-! ## Decimals in a style -/

theorem Decimal.toBinary64?_of_quotient (negative : Bool) {d e : Decimal}
    (h : d.num * e.den = e.num * d.den) : d.toBinary64? negative = e.toBinary64? negative := by
  rw [toBinary64?_eq, toBinary64?_eq]
  exact Binary64.ofRatio?_eq_of_quotient negative d.den_pos e.den_pos h

namespace Numeral

theorem digitsOf_ne_nil {n : Nat} : digitsOf n ≠ [] := Nat.toDigits_ne_nil

theorem digitsOf_digits {n : Nat} : ∀ c ∈ digitsOf n, c.isDigit = true :=
  fun _ hc => Nat.isDigit_of_mem_toDigits (by decide) (by decide) hc

/-- Digits of a number start with a zero only when the number is zero. -/
theorem head?_digitsOf {n : Nat} (h : (digitsOf n).head? = some '0') : n = 0 := by
  induction n using Nat.strongRecOn with
  | ind n ih =>
    rw [digitsOf] at h
    rcases Nat.lt_or_ge n 10 with hlt | hge
    · rw [Nat.toDigits_of_lt_base hlt] at h
      have hdigit : ∀ d < 10, d.digitChar = '0' → d = 0 := by decide
      exact hdigit n hlt (Option.some.inj h)
    · rw [Nat.toDigits_of_base_le (by decide) hge, List.head?_append,
        List.head?_eq_some_head Nat.toDigits_ne_nil, Option.some_or,
        ← List.head?_eq_some_head] at h
      have h0 : n / 10 = 0 := ih (n / 10) (by omega) h
      omega

theorem valueOf_append (a b : List Char) :
    valueOf (a ++ b) = 10 ^ b.length * valueOf a + valueOf b := by
  rw [valueOf, Nat.ofDigitChars_append, Nat.ofDigitChars_eq_ofDigitChars_zero]
  rfl

theorem valueOf_digitsOf (n : Nat) : valueOf (digitsOf n) = n := Nat.ofDigitChars_ten_toDigits

theorem valueOf_zeros (n : Nat) : valueOf (List.replicate n '0') = 0 := by
  rw [valueOf, Nat.ofDigitChars_replicate_zero, Nat.mul_zero]

theorem valueOf_zero : valueOf ['0'] = 0 := rfl

/-- The digits of a decimal, wherever a point splits them. -/
theorem decimal_split {negative : Bool} {whole fraction : List Char} {exponent : Option Int}
    {d : Decimal} (hvalue : valueOf (whole ++ fraction) = d.digits)
    (hexp : exponent.getD 0 - fraction.length = d.exponent) :
    (⟨negative, whole, fraction, exponent⟩ : Numeral).decimal = d := by
  rw [decimal, hvalue, hexp]

/-- Writing a decimal in a style changes its digits and its exponent, but not its value. -/
theorem quotient_ofDecimal (style : Style) (negative : Bool) (d : Decimal) :
    (ofDecimal style negative d).decimal.num * d.den =
      d.num * (ofDecimal style negative d).decimal.den := by
  have hpos : 0 < (digitsOf d.digits).length := List.length_pos_iff.2 digitsOf_ne_nil
  unfold ofDecimal
  simp only
  split
  · split
    · rename_i hexp
      -- The digits are followed by zeros, one of them perhaps behind the point.
      have hden : d.den = 1 := by
        rw [Decimal.den, show (-d.exponent).toNat = 0 by omega, Nat.pow_eq, Nat.pow_zero]
      rw [hden, Nat.mul_one]
      rcases style.wholePoint
      · simp [decimal, Decimal.num, Decimal.den, valueOf_append, valueOf_zeros, valueOf_digitsOf]
        ring
      · simp [decimal, Decimal.num, Decimal.den, valueOf_append, valueOf_zeros, valueOf_digitsOf,
          valueOf_zero]
        ring
    · split
      · rw [decimal_split (d := d)]
        · rw [List.take_append_drop, valueOf_digitsOf]
        · simp only [Option.getD_none, List.length_drop]
          omega
      · rw [decimal_split (d := d)]
        · rw [valueOf_append, valueOf_append, valueOf_zeros, valueOf_digitsOf, valueOf_zero]
          omega
        · simp only [Option.getD_none, List.length_append, List.length_replicate]
          omega
  · rw [decimal_split (d := d)]
    · rw [List.take_append_drop, valueOf_digitsOf]
    · simp only [Option.getD_some, List.length_drop]
      omega

theorem negative_ofDecimal (style : Style) (negative : Bool) (d : Decimal) :
    (ofDecimal style negative d).negative = negative := by
  unfold ofDecimal
  simp only
  split
  · split
    · rfl
    · split <;> rfl
  · rfl

/-- A finite number is read back from its text in every style. -/
theorem toBinary64?_ofBinary64 (style : Style) {x : Binary64} (hx : x.isFinite = true) :
    (ofBinary64 style x).toBinary64? = some x := by
  rw [toBinary64?, ofBinary64, negative_ofDecimal,
    Decimal.toBinary64?_of_quotient x.negative (quotient_ofDecimal style x.negative _),
    Binary64.toBinary64?_shortest style.tie hx]

end Numeral

/-! ## Numbers without leading zeros -/

/-- The digits of the number are digits, and only zero itself starts with a zero. -/
structure Numeral.IsStrict (n : Numeral) : Prop where
  whole_ne_nil : n.whole ≠ []
  whole_digits : ∀ c ∈ n.whole, c.isDigit = true
  no_leading_zero : n.whole.head? = some '0' → n.whole = ['0']
  fraction_digits : ∀ c ∈ n.fraction, c.isDigit = true

theorem Numeral.IsStrict.head?_whole_append {n : Numeral} (hn : n.IsStrict) (rest : List Char) :
    (n.whole ++ rest).head? = n.whole.head? := by
  rw [List.head?_append, List.head?_eq_some_head hn.whole_ne_nil, Option.some_or]

theorem Binary64.digits_of_onGrid? {tie : Tie} {m : Nat} {e : Int} {d : Decimal}
    (h : onGrid? tie m e = some d) : 0 < d.digits := by
  unfold onGrid? at h
  simp only at h
  split at h
  · rename_i hbelow _
    rw [Bool.and_eq_true, decide_eq_true_eq] at hbelow
    split at h
    · cases h
      exact Nat.succ_pos _
    · cases h
      exact hbelow.1
  · rename_i hbelow _
    rw [Bool.and_eq_true, decide_eq_true_eq] at hbelow
    cases h
    exact hbelow.1
  · cases h
    exact Nat.succ_pos _
  · cases h

/-- Only zero has a shortest decimal without digits. -/
theorem Binary64.digits_shortest_pos (tie : Tie) {m : Nat} (hm : m ≠ 0) :
    0 < (shortest tie m).digits := by
  have hsearch : ∀ tries e, 0 < (searchGrids tie m tries e).digits := by
    intro tries
    induction tries with
    | zero =>
      intro e
      have hunits : 0 < units m := units_strictMono (Nat.pos_of_ne_zero hm)
      have hdigits : ∀ k, 0 < Nat.pow 5 k * units m := fun k =>
        Nat.mul_pos (Nat.pow_pos (by decide)) hunits
      simp only [searchGrids, hdigits]
    | succ tries ih =>
      intro e
      rw [searchGrids]
      rcases hd : onGrid? tie m e with _ | d
      · exact ih (e - 1)
      · exact digits_of_onGrid? hd
  rw [shortest, if_neg hm]
  exact hsearch 18 _

theorem Binary64.exponent_shortest {tie : Tie} {m : Nat} (h : (shortest tie m).digits = 0) :
    (shortest tie m).exponent = 0 := by
  by_cases hm : m = 0
  · rw [shortest, if_pos hm]
  · exact absurd h (Nat.ne_of_gt (digits_shortest_pos tie hm))

namespace Numeral

theorem isStrict_ofInt (n : Int) : (ofInt n).IsStrict := by
  refine ⟨digitsOf_ne_nil, digitsOf_digits, fun h => ?_, ?_⟩
  · have h0 : n.natAbs = 0 := head?_digitsOf h
    rw [ofInt, h0]
    rfl
  · intro c hc
    cases hc

theorem zeros_digits (n : Nat) : ∀ c ∈ List.replicate n '0', c.isDigit = true := by
  intro c hc
  rw [List.eq_of_mem_replicate hc]
  rfl

theorem take_digitsOf (m : Nat) {n : Nat} (hn : 0 < n) :
    (digitsOf m).take n ≠ [] ∧ ((digitsOf m).take n).head? = (digitsOf m).head? := by
  refine ⟨fun hnil => ?_, ?_⟩
  · rcases List.take_eq_nil_iff.1 hnil with h | h
    · omega
    · exact digitsOf_ne_nil h
  · rw [List.head?_take, if_neg (by omega)]

/-- A zero is written with one digit, so a decimal in any style keeps to the grammar. -/
theorem isStrict_ofDecimal (style : Style) (negative : Bool) {d : Decimal}
    (h0 : d.digits = 0 → d.exponent = 0) : (ofDecimal style negative d).IsStrict := by
  have hhead := head?_digitsOf (n := d.digits)
  have htaken : ∀ n, ∀ c ∈ (digitsOf d.digits).take n, c.isDigit = true := fun n c hc =>
    digitsOf_digits c (List.mem_of_mem_take hc)
  have hdropped : ∀ n, ∀ c ∈ (digitsOf d.digits).drop n, c.isDigit = true := fun n c hc =>
    digitsOf_digits c (List.mem_of_mem_drop hc)
  unfold ofDecimal
  simp only
  split
  · split
    · -- All digits stand in front of the point, with zeros behind them.
      refine ⟨List.append_ne_nil_of_left_ne_nil digitsOf_ne_nil _, ?_, fun h => ?_, ?_⟩
      · intro c hc
        exact (List.mem_append.1 hc).elim (digitsOf_digits c) (zeros_digits _ c)
      · rw [List.head?_append, List.head?_eq_some_head digitsOf_ne_nil, Option.some_or,
          ← List.head?_eq_some_head] at h
        rw [hhead h, h0 (hhead h)]
        rfl
      · intro c hc
        split at hc
        · rw [List.mem_singleton.1 hc]
          rfl
        · cases hc
    · split
      · rename_i hexp hfront
        have htake := take_digitsOf d.digits (n := (d.exponent + (digitsOf d.digits).length).toNat)
          (by omega)
        refine ⟨htake.1, htaken _, fun h => ?_, hdropped _⟩
        exact absurd (h0 (hhead (htake.2 ▸ h))).ge hexp
      · refine ⟨List.cons_ne_nil _ _, zeros_digits 1, fun _ => rfl, ?_⟩
        intro c hc
        exact (List.mem_append.1 hc).elim (zeros_digits _ c) (digitsOf_digits c)
  · have htake := take_digitsOf d.digits Nat.one_pos
    refine ⟨htake.1, htaken 1, fun h => ?_, hdropped 1⟩
    rw [hhead (htake.2 ▸ h)]
    rfl

theorem isStrict_ofBinary64 (style : Style) (x : Binary64) : (ofBinary64 style x).IsStrict :=
  isStrict_ofDecimal style x.negative Binary64.exponent_shortest

end Numeral

end SqlTokens
