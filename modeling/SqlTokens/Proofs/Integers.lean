-- The law of literals without a fraction. Digits are read up to the last one, and their
-- value is the number that they spell, however many zeros stand in front. A number of more
-- than 127 bits is an error that shows all digits; no value wraps around.
import Mathlib.Data.List.Induction
import Mathlib.Data.Nat.Digits.Defs
import SqlTokens.Proofs.Literals

namespace SqlTokens

open Lexeme (Reads IsNumber Longest HasFraction)
open Numeral (valueOf)

/-! ## Digits in base ten -/

/-- The number that decimal digits spell: the last digit counts ones, the one before it tens. -/
def inBaseTen (digits : List Char) : Nat :=
  Nat.ofDigits 10 (digits.reverse.map fun c => c.toNat - '0'.toNat)

theorem valueOf_eq_inBaseTen (digits : List Char) : valueOf digits = inBaseTen digits := by
  induction digits using List.reverseRecOn with
  | nil => rfl
  | append_singleton digits c ih =>
    have hlast : valueOf [c] = c.toNat - '0'.toNat := by
      simp [valueOf, Nat.ofDigitChars]
    rw [Numeral.valueOf_append, ih, hlast, inBaseTen, inBaseTen, List.reverse_append,
      List.reverse_singleton, List.singleton_append, List.map_cons, Nat.ofDigits_cons]
    simp only [List.length_singleton, pow_one]
    exact Nat.add_comm _ _

/-- Zeros in front count nothing. -/
theorem inBaseTen_zeros_append (n : Nat) (digits : List Char) :
    inBaseTen (List.replicate n '0' ++ digits) = inBaseTen digits := by
  rw [← valueOf_eq_inBaseTen, ← valueOf_eq_inBaseTen, Numeral.valueOf_append, Numeral.valueOf_zeros,
    Nat.mul_zero, Nat.zero_add]

/-! ## Digits at the front of a text -/

/-- In front of `rest` stand these digits and no further one, and no point with a digit behind it
follows them. -/
structure Lexeme.IsWhole (digits rest : List Char) : Prop where
  isNumber : IsNumber digits
  stops : Text.Stops Char.isDigit rest
  no_fraction : ¬ HasFraction (digits ++ rest) digits

theorem Lexeme.IsWhole.longest {digits rest : List Char} (h : IsWhole digits rest) :
    Longest IsNumber (digits ++ rest) digits :=
  longest_isNumber.2 ⟨h.isNumber, h.stops⟩

/-- Only such digits make an integer, and only the one that they spell. -/
theorem Lexeme.Reads.isWhole {r w : List Char} {value : Value}
    (h : Reads r w (.literal .integer) value) :
    ∃ rest, r = w ++ rest ∧ IsWhole w rest ∧ value = .integer (inBaseTen w) ∧
      inBaseTen w ≤ 2 ^ 127 - 1 := by
  cases h with
  | quoted hq _ => simp [quotes] at hq
  | integer hl hf hle =>
    obtain ⟨rest, rfl⟩ := hl.front
    obtain ⟨hw, hs⟩ := longest_isNumber.1 hl
    rw [valueOf_eq_inBaseTen] at hle ⊢
    exact ⟨rest, rfl, ⟨hw, hs, hf⟩, rfl, hle⟩

namespace Cursor

variable {c : Cursor} {digits rest : List Char} (h : Lexeme.IsWhole digits rest)
  (hc : c.skipTrivia.rest = digits ++ rest)
include h hc

theorem next_of_inBaseTen_le (hle : inBaseTen digits ≤ 2 ^ 127 - 1) :
    c.next = (some ⟨.literal .integer, .integer (inBaseTen digits), c.skipTrivia.position⟩,
      c.skipTrivia.skip digits.length) := by
  rw [← valueOf_eq_inBaseTen] at hle ⊢
  have hreads := Reads.integer h.longest h.no_fraction hle
  rw [← hc] at hreads
  exact (readToken_eq_iff.1 hreads).2

theorem next_of_lt_inBaseTen (hlt : 2 ^ 127 - 1 < inBaseTen digits) :
    c.next = (some (.error ("Integer literal out of range: " ++ String.ofList digits)
      c.skipTrivia.position), c.skipTrivia.skip digits.length) := by
  rw [← valueOf_eq_inBaseTen] at hlt
  have hreads := Reads.integerTooLarge h.longest h.no_fraction hlt
  rw [← hc, String.ofList_append, String.ofList_toList] at hreads
  exact (readToken_eq_iff.1 hreads).2

/-- All digits are read and nothing behind them is, also when they are out of range. -/
theorem rest_next_of_isWhole : c.next.2.rest = rest := by
  have hskip : (c.skipTrivia.skip digits.length).rest = rest := (skip_append hc).1
  rcases Nat.lt_or_ge (2 ^ 127 - 1) (inBaseTen digits) with hlt | hle
  · rw [next_of_lt_inBaseTen h hc hlt, hskip]
  · rw [next_of_inBaseTen_le h hc hle, hskip]

end Cursor

/-! ## The law -/

/-- Literals without a fraction are exact up to the largest number of 127 bits. -/
structure IntegersAreExact : Prop where
  /-- Up to that number, digits behind the trivia at a cursor are the integer that they spell. -/
  in_range : ∀ (c : Cursor) (digits rest : List Char), Lexeme.IsWhole digits rest →
    c.skipTrivia.rest = digits ++ rest → inBaseTen digits ≤ 2 ^ 127 - 1 →
    c.next = (some ⟨.literal .integer, .integer (inBaseTen digits), c.skipTrivia.position⟩,
      c.skipTrivia.skip digits.length)
  /-- Beyond it they are an error, which shows every one of them. -/
  out_of_range : ∀ (c : Cursor) (digits rest : List Char), Lexeme.IsWhole digits rest →
    c.skipTrivia.rest = digits ++ rest → 2 ^ 127 - 1 < inBaseTen digits →
    c.next = (some (.error ("Integer literal out of range: " ++ String.ofList digits)
      c.skipTrivia.position), c.skipTrivia.skip digits.length)
  /-- Either way the next token is looked for right behind the last digit. -/
  rest_eq : ∀ (c : Cursor) (digits rest : List Char), Lexeme.IsWhole digits rest →
    c.skipTrivia.rest = digits ++ rest → c.next.2.rest = rest
  /-- Zeros in front change nothing about what digits spell, and so nothing about their range. -/
  zeros : ∀ (n : Nat) (digits : List Char),
    inBaseTen (List.replicate n '0' ++ digits) = inBaseTen digits
  /-- An integer of a text is never anything else than what the digits at its place spell. -/
  only : ∀ (cs : List Char) (t : Token), t ∈ stream cs → t.kind = .literal .integer →
    ∃ digits rest, cs.drop t.position.offset = digits ++ rest ∧ Lexeme.IsWhole digits rest ∧
      t.value = .integer (inBaseTen digits) ∧ inBaseTen digits ≤ 2 ^ 127 - 1

theorem integers_are_exact : IntegersAreExact := by
  refine ⟨?_, ?_, ?_, inBaseTen_zeros_append, ?_⟩
  · intro c digits rest h hc hle
    exact Cursor.next_of_inBaseTen_le h hc hle
  · intro c digits rest h hc hlt
    exact Cursor.next_of_lt_inBaseTen h hc hlt
  · intro c digits rest h hc
    exact Cursor.rest_next_of_isWhole h hc
  · intro cs t ht hk
    obtain ⟨w, hreads⟩ := (standsIn_of_mem_stream ht).reads
    rw [hk] at hreads
    obtain ⟨rest, hr, hw, hvalue, hle⟩ := hreads.isWhole
    exact ⟨w, rest, hr, hw, hvalue, hle⟩

/-- The largest integer with zeros in front of it and a point behind it, and the next number with a
letter behind it. -/
theorem integers_at_the_limit_are_exact :
    (Cursor.ofText "\n00170141183460469231731687303715884105727.".toList).next.1 =
        some ⟨.literal .integer, .integer (2 ^ 127 - 1), ⟨2, 1, 1⟩⟩ ∧
      (Cursor.ofText "0170141183460469231731687303715884105728e".toList).next.1 =
        some (.error "Integer literal out of range: 0170141183460469231731687303715884105728"
          .start) := by
  have hdigits : ∀ w : List Char, w ≠ [] → w.all Char.isDigit = true → IsNumber w :=
    fun w hne hall => Lexeme.isNumber_of_isDigit hne (List.all_eq_true.1 hall)
  have hpoint : Lexeme.IsWhole "00170141183460469231731687303715884105727".toList ['.'] := by
    refine ⟨hdigits _ (by decide) (by decide), Text.stops_cons.2 rfl, ?_⟩
    rintro ⟨d, rest, heq, -⟩
    cases List.append_cancel_left heq
  have hletter : Lexeme.IsWhole "0170141183460469231731687303715884105728".toList ['e'] := by
    refine ⟨hdigits _ (by decide) (by decide), Text.stops_cons.2 rfl, ?_⟩
    rintro ⟨d, rest, heq, -⟩
    cases List.append_cancel_left heq
  constructor
  · rw [integers_are_exact.in_range _ _ _ hpoint (by decide +kernel) (by decide +kernel)]
    decide +kernel
  · rw [integers_are_exact.out_of_range _ _ _ hletter (by decide +kernel) (by decide +kernel)]
    decide +kernel

end SqlTokens
