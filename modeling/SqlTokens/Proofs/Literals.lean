-- The laws of number literals. A literal with a fraction is rounded to the nearest
-- floating point number, or it is out of range, which its exact value decides. What a
-- literal can mean is read again from the text that shows it.
import SqlTokens.Proofs.Nearness
import SqlTokens.Proofs.Places
import SqlTokens.Proofs.Shortest
import SqlTokens.Proofs.Sight

namespace SqlTokens

open Trivia (Clear)
open Lexeme (Reads IsNumber Digit)
open Numeral (valueOf digitsOf)

/-! ## Literals with a fraction -/

/-- The number that digits spell with a point between them. -/
def valueWithPoint (whole fraction : List Char) : ℚ :=
  valueOf whole + valueOf fraction / 10 ^ fraction.length

theorem valueWithPoint_eq (whole fraction : List Char) :
    valueWithPoint whole fraction =
      (valueOf (whole ++ fraction) : ℚ) / (Nat.pow 10 fraction.length : Nat) := by
  have hpow : ((Nat.pow 10 fraction.length : Nat) : ℚ) = 10 ^ fraction.length := by
    rw [Nat.pow_eq, Nat.cast_pow, Nat.cast_ofNat]
  have hpos : (10 : ℚ) ^ fraction.length ≠ 0 := pow_ne_zero _ (by norm_num)
  rw [valueWithPoint, Numeral.valueOf_append, Nat.cast_add, Nat.cast_mul, Nat.cast_pow,
    Nat.cast_ofNat, hpow, add_div, mul_div_cancel_left₀ _ hpos]

section

variable {whole fraction rest : List Char} (hw : IsNumber whole) (hf : IsNumber fraction)
  (hr : Text.Stops Char.isDigit rest)
include hw hf hr

theorem reads_float {x : Binary64}
    (h : Binary64.ofRatio? false (valueOf (whole ++ fraction)) (Nat.pow 10 fraction.length) =
      some x) :
    Reads (whole ++ '.' :: (fraction ++ rest)) (whole ++ '.' :: fraction) (.literal .float)
      (.float x) := by
  refine .float (Lexeme.longest_isNumber.2 ⟨hw, Text.stops_cons.2 rfl⟩) ?_ h
  exact Lexeme.longest_isNumber.2 ⟨hf, hr⟩

theorem reads_floatTooLarge
    (h : Binary64.ofRatio? false (valueOf (whole ++ fraction)) (Nat.pow 10 fraction.length) =
      none) :
    Reads (whole ++ '.' :: (fraction ++ rest)) (whole ++ '.' :: fraction) .error
      (.text ("Float literal out of range: " ++ String.ofList (whole ++ '.' :: fraction))) := by
  have hreads := Reads.floatTooLarge (Lexeme.longest_isNumber.2 ⟨hw, Text.stops_cons.2 rfl⟩)
    (Lexeme.longest_isNumber.2 ⟨hf, hr⟩) h
  rwa [String.ofList_append, String.ofList_toList] at hreads

end

/-- The literal at a cursor, behind the trivia there, is read as a whole. Whether it has a value is
decided by the number that its digits spell. -/
structure Cursor.RoundsLiteral (c : Cursor) (whole fraction : List Char) : Prop where
  /-- Below the middle between the largest finite number and the next power of two, the value is
  the nearest of all finite numbers, and of two the even one. -/
  rounded : valueWithPoint whole fraction < Binary64.overflow →
    ∃ x : Binary64, x.negative = false ∧ x.IsNearest (valueWithPoint whole fraction) ∧
      (∀ y : Binary64, y.negative = false → y.IsNearest (valueWithPoint whole fraction) → y = x) ∧
      c.next = (some ⟨.literal .float, .float x, c.skipTrivia.position⟩,
        c.skipTrivia.skip (whole ++ '.' :: fraction).length)
  /-- From there on, the literal is an error. -/
  too_large : Binary64.overflow ≤ valueWithPoint whole fraction →
    c.next = (some (.error ("Float literal out of range: " ++
        String.ofList (whole ++ '.' :: fraction)) c.skipTrivia.position),
      c.skipTrivia.skip (whole ++ '.' :: fraction).length)

/-- Every literal with a fraction, of whatever length and wherever it stands, is rounded or is out
of range. -/
theorem literals_are_rounded {c : Cursor} {whole fraction rest : List Char}
    (hw : IsNumber whole) (hf : IsNumber fraction) (hr : Text.Stops Char.isDigit rest)
    (h : c.skipTrivia.rest = whole ++ '.' :: (fraction ++ rest)) :
    c.RoundsLiteral whole fraction := by
  have hden : 0 < Nat.pow 10 fraction.length := Nat.pow_pos (by decide)
  have hnone := Binary64.ofRatio?_eq_none_iff false (valueOf (whole ++ fraction)) hden
  have hnext : ∀ {kind value},
      Reads (whole ++ '.' :: (fraction ++ rest)) (whole ++ '.' :: fraction) kind value →
      c.next = (some ⟨kind, value, c.skipTrivia.position⟩,
        c.skipTrivia.skip (whole ++ '.' :: fraction).length) := by
    intro kind value hreads
    rw [← h] at hreads
    exact (Cursor.readToken_eq_iff.1 hreads).2
  rw [← valueWithPoint_eq] at hnone
  constructor
  · intro hlt
    obtain ⟨x, hx⟩ := Option.ne_none_iff_exists'.1 fun hx => not_le_of_gt hlt (hnone.1 hx)
    have hnear := Binary64.isNearest_of_ofRatio? hden hx
    have hsign := Binary64.negative_of_ofRatio? hx
    rw [← valueWithPoint_eq] at hnear
    exact ⟨x, hsign, hnear, fun y hy hyn => hyn.unique hnear hy hsign,
      hnext (reads_float hw hf hr hx)⟩
  · intro hge
    exact hnext (reads_floatTooLarge hw hf hr (hnone.2 hge))

/-- A literal behind a comment that lies in the middle of two floating point numbers, the first of
which is even. -/
theorem literals_are_rounded_to_even :
    (Cursor.ofText "/**/9007199254740993.0)".toList).RoundsLiteral
        "9007199254740993".toList "0".toList ∧
      (Cursor.ofText "/**/9007199254740993.0)".toList).next.1 =
        some ⟨.literal .float, .float (.ofBits 0x4340000000000000), ⟨1, 5, 4⟩⟩ := by
  have hw : IsNumber "9007199254740993".toList :=
    Lexeme.isNumber_of_isDigit (by decide) (List.all_eq_true.1 (by decide))
  have hf : IsNumber "0".toList :=
    Lexeme.isNumber_of_isDigit (by decide) (List.all_eq_true.1 (by decide))
  have hr : Text.Stops Char.isDigit [')'] := Text.stops_cons.2 rfl
  exact ⟨literals_are_rounded hw hf hr (by decide +kernel), by decide +kernel⟩

/-! ## Texts that are one token -/

/-- A text is one token from its first character to its last, however it is read. -/
structure IsOneToken (cs : List Char) (kind : Kind) (value : Value) : Prop where
  next_value : ∀ lx, Lexer.Opened cs lx → lx.next.value = some ⟨kind, value, ⟨1, 1, 0⟩⟩
  /-- Behind the token nothing is left, not even trivia. -/
  next_rest : ∀ lx, Lexer.Opened cs lx → lx.next.lexer.cursor.rest = []
  collect_value : ∀ lx, Lexer.Opened cs lx → lx.collect.value = [⟨kind, value, ⟨1, 1, 0⟩⟩]
  tokenize_value : ∀ lx, Lexer.Opened cs lx → lx.tokenize.value = [⟨kind, value, ⟨1, 1, 0⟩⟩]

theorem Lexeme.Reads.isOneToken {cs : List Char} {kind : Kind} {value : Value}
    (h : Reads cs cs kind value) (hc : Clear cs) : IsOneToken cs kind value := by
  have hnext : (Cursor.ofText cs).next =
      (some ⟨kind, value, .start⟩, (Cursor.ofText cs).skip cs.length) := by
    have hrest : (Cursor.ofText cs).rest = [] ++ (cs ++ []) := (List.append_nil cs).symm
    exact Cursor.next_of_reads hrest .nil (by rwa [List.append_nil]) (by rwa [List.append_nil])
  have hproduce : ∀ lx, Lexer.Opened cs lx → lx.next.value = some ⟨kind, value, .start⟩ ∧
      lx.next.lexer.cursor.rest = [] := by
    intro lx hlx
    rw [Lexer.next_of_unread hlx.ahead_eq, Lexer.produce, hlx.cursor_eq, hnext]
    exact ⟨rfl, List.drop_length⟩
  have htake : ∀ stop lx, Lexer.Opened cs lx →
      (lx.takeUntil stop).value = [⟨kind, value, .start⟩] := by
    intro stop lx hlx
    obtain ⟨hvalue, hrest⟩ := hproduce lx hlx
    have hend : lx.next.lexer.next.value = none := by
      rw [Lexer.next_of_unread (Lexer.takes_next hlx.ahead_eq).ahead_eq]
      refine Cursor.next_eq_none_iff.2 ?_
      rw [hrest]
      exact .nil
    rw [Lexer.takeUntil_of_some hvalue, Lexer.takeUntil_of_none hend]
    split <;> rfl
  exact ⟨fun lx hlx => (hproduce lx hlx).1, fun lx hlx => (hproduce lx hlx).2,
    fun lx hlx => htake _ lx hlx, fun lx hlx => htake _ lx hlx⟩

/-- A text that starts with a digit starts with no trivia. -/
theorem Trivia.clear_of_isNumber {w : List Char} (h : IsNumber w) (rest : List Char) :
    Clear (w ++ rest) := by
  obtain ⟨hne, hall⟩ := h
  obtain ⟨c, cs, rfl⟩ := List.exists_cons_of_ne_nil hne
  have hc : Digit c := hall c List.mem_cons_self
  rw [List.cons_append, clear_iff, element.eq_def]
  generalize cs ++ rest = more
  split
  · rename_i heq
    cases heq
    exact absurd hc (by decide)
  · rename_i heq
    cases heq
    exact absurd hc (by decide)
  · rw [List.takeWhile_cons, isBlank_of_digit hc]
    rfl

/-! ## Shown numbers as literals -/

/-- A shown number as a literal with a fraction: one that is shown without a point gets `.0`. -/
def withPoint (cs : List Char) : List Char := if '.' ∈ cs then cs else cs ++ ['.', '0']

/-- Shown numbers, of which whole ones may end in `.0`. -/
def shownStyle (wholePoint : Bool) : Numeral.Style := { Value.floatStyle with wholePoint }

/-- A number without a fraction differs from style to style in its last zero. -/
theorem ofDecimal_whole {d : Decimal} (h : 0 ≤ d.exponent) :
    ∃ whole, ∀ wholePoint, Numeral.ofDecimal (shownStyle wholePoint) false d =
      ⟨false, whole, if wholePoint then ['0'] else [], none⟩ := by
  refine ⟨digitsOf d.digits ++ List.replicate d.exponent.toNat '0', fun wholePoint => ?_⟩
  simp only [Numeral.ofDecimal, shownStyle, Value.floatStyle, if_pos h, if_true]
  rfl

/-- A number with a fraction is written alike in both styles. -/
theorem ofDecimal_fraction {d : Decimal} (h : ¬ 0 ≤ d.exponent) :
    ∃ whole fraction, fraction ≠ [] ∧ ∀ wholePoint,
      Numeral.ofDecimal (shownStyle wholePoint) false d = ⟨false, whole, fraction, none⟩ := by
  obtain ⟨front, hfront⟩ : ∃ front, front = d.exponent + (digitsOf d.digits).length := ⟨_, rfl⟩
  by_cases hpos : 0 < front
  · refine ⟨(digitsOf d.digits).take front.toNat, (digitsOf d.digits).drop front.toNat, ?_,
      fun wholePoint => ?_⟩
    · rw [← List.length_pos_iff, List.length_drop]
      omega
    · simp only [Numeral.ofDecimal, shownStyle, Value.floatStyle, if_neg h, ← hfront, if_pos hpos,
        if_true]
  · refine ⟨['0'], List.replicate (-front).toNat '0' ++ digitsOf d.digits,
      List.append_ne_nil_of_right_ne_nil _ Numeral.digitsOf_ne_nil, fun wholePoint => ?_⟩
    simp only [Numeral.ofDecimal, shownStyle, Value.floatStyle, if_neg h, ← hfront, if_neg hpos,
      if_true]

theorem Numeral.IsStrict.isNumber_whole {n : Numeral} (h : n.IsStrict) : IsNumber n.whole :=
  Lexeme.isNumber_of_isDigit h.whole_ne_nil h.whole_digits

theorem Numeral.IsStrict.isNumber_fraction {n : Numeral} (h : n.IsStrict) (hne : n.fraction ≠ []) :
    IsNumber n.fraction :=
  Lexeme.isNumber_of_isDigit hne h.fraction_digits

/-- With its point, a shown number is written in the style with points. -/
theorem withPoint_text {d : Decimal} (h0 : d.digits = 0 → d.exponent = 0) :
    ∃ whole fraction, IsNumber whole ∧ IsNumber fraction ∧
      Numeral.ofDecimal (shownStyle true) false d = ⟨false, whole, fraction, none⟩ ∧
      withPoint (Numeral.ofDecimal Value.floatStyle false d).text = whole ++ '.' :: fraction := by
  have hstrict := Numeral.isStrict_ofDecimal (shownStyle true) false h0
  have hshown : Value.floatStyle = shownStyle false := rfl
  rw [hshown]
  by_cases hexp : 0 ≤ d.exponent
  · obtain ⟨whole, hwhole⟩ := ofDecimal_whole hexp
    rw [hwhole] at hstrict
    have hpoint : '.' ∉ whole := fun hp => absurd (hstrict.whole_digits _ hp) (by decide)
    refine ⟨whole, ['0'], hstrict.isNumber_whole, hstrict.isNumber_fraction (List.cons_ne_nil _ _),
      hwhole true, ?_⟩
    rw [hwhole]
    simp [Numeral.text, withPoint, hpoint]
  · obtain ⟨whole, fraction, hne, hfraction⟩ := ofDecimal_fraction hexp
    rw [hfraction] at hstrict
    refine ⟨whole, fraction, hstrict.isNumber_whole, hstrict.isNumber_fraction hne,
      hfraction true, ?_⟩
    rw [hfraction]
    simp [Numeral.text, withPoint, hne]

theorem display_float {x : Binary64} (hx : x.isFinite = true) (hs : x.negative = false) :
    (Value.float x).display.toList =
      (Numeral.ofDecimal Value.floatStyle false (Binary64.shortest .up x.magnitude)).text := by
  have hlt : x.magnitude < Binary64.infinity := of_decide_eq_true hx
  have hnan : x.isNaN = false := decide_eq_false (Nat.not_lt_of_lt hlt)
  simp only [Value.display, Value.showFloat, hnan, hx, if_true, if_false, Bool.false_eq_true,
    String.toList_ofList, Numeral.ofBinary64, hs]
  rfl

/-- A finite number with a clear sign is read again, bit for bit. -/
theorem isOneToken_float {x : Binary64} (hx : x.isFinite = true) (hs : x.negative = false) :
    IsOneToken (withPoint (Value.float x).display.toList) (.literal .float) (.float x) := by
  have h0 : (Binary64.shortest .up x.magnitude).digits = 0 →
      (Binary64.shortest .up x.magnitude).exponent = 0 := Binary64.exponent_shortest
  obtain ⟨whole, fraction, hw, hf, hstyle, htext⟩ := withPoint_text h0
  have hback := Numeral.toBinary64?_ofBinary64 (shownStyle true) hx
  have hshown : Numeral.ofBinary64 (shownStyle true) x = ⟨false, whole, fraction, none⟩ := by
    rw [Numeral.ofBinary64, hs]
    exact hstyle
  rw [hshown, Numeral.toBinary64?, Decimal.toBinary64?_eq, Lexeme.num_decimal,
    Lexeme.den_decimal] at hback
  have hreads := reads_float hw hf (Text.stops_nil _) hback
  rw [List.append_nil] at hreads
  rw [display_float hx hs, htext]
  exact hreads.isOneToken (Trivia.clear_of_isNumber hw _)

/-- An integer that fits is read again. -/
theorem isOneToken_integer {i : ℤ} (h0 : 0 ≤ i) (hmax : i ≤ Numeral.maxInteger) :
    IsOneToken (Value.integer i).display.toList (.literal .integer) (.integer i) := by
  obtain ⟨n, rfl⟩ := Int.eq_ofNat_of_zero_le h0
  have hdisplay : (Value.integer n).display.toList = digitsOf n := by
    simp [Value.display, Numeral.ofInt, Numeral.text]
  have hw : IsNumber (digitsOf n) :=
    Lexeme.isNumber_of_isDigit Numeral.digitsOf_ne_nil Numeral.digitsOf_digits
  have hlongest := Lexeme.longest_isNumber.2 ⟨hw, Text.stops_nil _⟩
  have hclear := Trivia.clear_of_isNumber hw []
  rw [List.append_nil] at hlongest hclear
  have hplain : ¬ Lexeme.HasFraction (digitsOf n) (digitsOf n) := by
    rintro ⟨d, rest, heq, -⟩
    exact List.cons_ne_nil _ _ (List.self_eq_append_right.1 heq)
  have hreads := Reads.integer hlongest hplain
    (by rw [Numeral.valueOf_digitsOf]; exact Int.ofNat_le.1 hmax)
  rw [Numeral.valueOf_digitsOf] at hreads
  rw [hdisplay]
  exact hreads.isOneToken hclear

/-! ## Values of literals -/

theorem Lexeme.Reads.integer_of_kind {r w : List Char} {value : Value}
    (h : Reads r w (.literal .integer) value) :
    ∃ n : Nat, value = .integer n ∧ n ≤ Numeral.maxInteger := by
  cases h with
  | quoted hq _ => simp [quotes] at hq
  | integer _ _ hle => exact ⟨_, rfl, hle⟩

theorem Lexeme.Reads.float_of_kind {r w : List Char} {value : Value}
    (h : Reads r w (.literal .float) value) :
    ∃ x : Binary64, value = .float x ∧ x.isFinite = true ∧ x.negative = false := by
  cases h with
  | quoted hq _ => simp [quotes] at hq
  | float _ _ hx =>
    exact ⟨_, rfl, Binary64.isFinite_of_ofRatio? hx, Binary64.negative_of_ofRatio? hx⟩

/-- What a number literal can mean is read again from the text that shows it, and a literal can
mean nothing else. -/
structure LiteralsSurvivePrinting : Prop where
  /-- An integer of 127 bits is one literal when it is shown. -/
  integer : ∀ i : ℤ, 0 ≤ i → i ≤ 2 ^ 127 - 1 →
    IsOneToken (Value.integer i).display.toList (.literal .integer) (.integer i)
  /-- A finite number with a clear sign bit is one literal with the same bits when it is shown with
  a point. -/
  float : ∀ x : Binary64, x.isFinite = true → x.negative = false →
    IsOneToken (withPoint (Value.float x).display.toList) (.literal .float) (.float x)
  /-- No literal has another value. -/
  of_mem_stream : ∀ cs, ∀ t ∈ stream cs,
    (t.kind = .literal .integer → ∃ i : ℤ, t.value = .integer i ∧ 0 ≤ i ∧ i ≤ 2 ^ 127 - 1) ∧
      (t.kind = .literal .float →
        ∃ x : Binary64, t.value = .float x ∧ x.isFinite = true ∧ x.negative = false)

/-- Printing and reading keep the values of all literals. -/
theorem literals_survive_printing : LiteralsSurvivePrinting := by
  have hmax : (Numeral.maxInteger : ℤ) = 2 ^ 127 - 1 := rfl
  refine ⟨fun i h0 hle => isOneToken_integer h0 (hmax ▸ hle), fun x => isOneToken_float, ?_⟩
  intro cs t ht
  obtain ⟨w, hreads⟩ := (standsIn_of_mem_stream ht).reads
  constructor
  · intro hk
    rw [hk] at hreads
    obtain ⟨n, hn, hle⟩ := hreads.integer_of_kind
    exact ⟨n, hn, Int.natCast_nonneg n, hmax ▸ Int.ofNat_le.2 hle⟩
  · intro hk
    rw [hk] at hreads
    exact hreads.float_of_kind

/-- The largest integer, a number below one, and a number that is shown without a point. -/
theorem literals_of_three_sizes_survive_printing :
    IsOneToken "170141183460469231731687303715884105727".toList (.literal .integer)
        (.integer (2 ^ 127 - 1)) ∧
      IsOneToken "0.0000001".toList (.literal .float) (.float (.ofBits 0x3E7AD7F29ABCAF48)) ∧
      IsOneToken "100000000000000000000000.0".toList (.literal .float)
        (.float (.ofBits 0x44B52D02C7E14AF6)) := by
  have hinteger : (Value.integer (2 ^ 127 - 1)).display.toList =
      "170141183460469231731687303715884105727".toList := by decide +kernel
  have hsmall : withPoint (Value.float (.ofBits 0x3E7AD7F29ABCAF48)).display.toList =
      "0.0000001".toList := by decide +kernel
  have hwhole : withPoint (Value.float (.ofBits 0x44B52D02C7E14AF6)).display.toList =
      "100000000000000000000000.0".toList := by decide +kernel
  rw [← hinteger, ← hsmall, ← hwhole]
  exact ⟨literals_survive_printing.integer _ (by decide) (by decide),
    literals_survive_printing.float _ rfl rfl, literals_survive_printing.float _ rfl rfl⟩

end SqlTokens
