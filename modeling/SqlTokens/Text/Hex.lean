-- Numbers written in base 16, as the escapes of quoted texts use them.

namespace SqlTokens.Text

/-- What a digit of base 16 or less counts, in either letter case. -/
def digitValue? (c : Char) : Option Nat :=
  if '0' ≤ c ∧ c ≤ '9' then some (c.toNat - '0'.toNat)
  else if 'a' ≤ c ∧ c ≤ 'f' then some (c.toNat - 'a'.toNat + 10)
  else if 'A' ≤ c ∧ c ≤ 'F' then some (c.toNat - 'A'.toNat + 10)
  else none

/-- The number that digits of base 16 denote; none when one of them is no such digit. -/
def hexValue? (cs : List Char) : Option Nat :=
  cs.foldl (fun n c => n.bind fun n => (digitValue? c).map (16 * n + ·)) (some 0)

/-- The character with a code point written in base 16. Surrogates and numbers above
U+10FFFF name no character. -/
def hexChar? (cs : List Char) : Option Char :=
  (hexValue? cs).bind fun n => if n.isValidChar then some (Char.ofNat n) else none

/-- The last four digits of a number in base 16, letters in lower case. -/
def hex4 (n : Nat) : List Char :=
  [n / 4096 % 16, n / 256 % 16, n / 16 % 16, n % 16].map Nat.digitChar

/-! ## Digits that are read back -/

theorem digitValue?_digitChar : ∀ d < 16, digitValue? d.digitChar = some d := by decide

theorem digitValue?_toUpper : ∀ d < 16, digitValue? d.digitChar.toUpper = some d := by decide

/-- Four digits, in whichever letter case, are enough for 16 bits. -/
theorem hexValue?_map_hex4 {f : Char → Char} (hf : ∀ d < 16, digitValue? (f d.digitChar) = some d)
    {n : Nat} (h : n < 65536) : hexValue? ((hex4 n).map f) = some n := by
  have hdigit : ∀ k, digitValue? (f (k % 16).digitChar) = some (k % 16) := fun k =>
    hf _ (Nat.mod_lt k (by decide))
  simp only [hex4, hexValue?, List.map_cons, List.map_nil, List.foldl_cons, List.foldl_nil, hdigit,
    Option.bind_some, Option.map_some]
  congr 1
  omega

theorem hexValue?_hex4 {n : Nat} (h : n < 65536) : hexValue? (hex4 n) = some n := by
  rw [← List.map_id (hex4 n)]
  exact hexValue?_map_hex4 digitValue?_digitChar h

end SqlTokens.Text
