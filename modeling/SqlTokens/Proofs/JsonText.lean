-- The law of printed JSON: a value is read back from its text, whatever stands in
-- its strings and however deep it is nested.
import SqlTokens.Json.Printer
import SqlTokens.Json.Reader
import SqlTokens.Proofs.Search
import SqlTokens.Proofs.Shortest

namespace SqlTokens.Json

open Text (Stops stops_nil stops_cons takeWhile_append_of_stops dropWhile_append_of_stops)

mutual

/-- All numbers in a value are strictly written. -/
def IsStrict : Json → Prop
  | .number n => n.IsStrict
  | .array items => ItemsAreStrict items
  | .object members => MembersAreStrict members
  | _ => True

/-- All numbers in the values are strictly written. -/
def ItemsAreStrict : List Json → Prop
  | [] => True
  | j :: js => j.IsStrict ∧ ItemsAreStrict js

/-- All numbers in the values of the members are strictly written. -/
def MembersAreStrict : List (Option (List Char) × Json) → Prop
  | [] => True
  | (_, j) :: ms => j.IsStrict ∧ MembersAreStrict ms

end

/-! ## Strings -/

/-- A letter behind a backslash is read as the character that it stands for. -/
theorem pieces?_unescape {e c : Char} (h : unescape? e = some c) (rest : List Char) :
    pieces? ('\\' :: e :: rest) = (pieces? rest).map fun p => (.char c :: p.1, p.2) := by
  have hu : e ≠ 'u' := by
    rintro rfl
    cases h
  rw [pieces?.eq_def]
  split
  · rename_i heq
    cases heq
  · rename_i heq
    cases heq
    exact absurd rfl hu
  · rename_i heq
    cases heq
    rw [h]
    rcases pieces? rest with _ | p <;> rfl
  · rename_i hne heq
    cases heq
    exact absurd rfl (hne e rest rfl)
  · rename_i heq
    cases heq

/-- A character that needs no escape is read as itself. -/
theorem pieces?_plain {c : Char} (hctl : 0x20 ≤ c.toNat) (hquote : c ≠ '"') (hback : c ≠ '\\')
    (rest : List Char) :
    pieces? (c :: rest) = (pieces? rest).map fun p => (.char c :: p.1, p.2) := by
  rw [pieces?.eq_def]
  split
  · rename_i heq
    cases heq
    exact absurd rfl hquote
  · rename_i heq
    cases heq
    exact absurd rfl hback
  · rename_i heq
    cases heq
    exact absurd rfl hback
  · rename_i heq
    cases heq
    rw [guard, if_pos ⟨hctl, hback⟩]
    rcases pieces? rest with _ | p <;> rfl
  · rename_i heq
    cases heq

/-- What is written for a character is read as that character. -/
theorem pieces?_escape (c : Char) (rest : List Char) :
    pieces? (escape c ++ rest) = (pieces? rest).map fun p => (.char c :: p.1, p.2) := by
  unfold escape
  split
  case h_8 hquote hback _ _ _ _ _ =>
    split
    case isTrue hctl =>
      have hvalue : Text.hexValue? (Text.hex4 c.toNat) = some c.toNat :=
        Text.hexValue?_hex4 (by omega)
      have hpiece : pieceOf c.toNat = .char c := by
        rw [pieceOf, if_neg (by omega), Char.ofNat_toNat]
      obtain ⟨a, b, d, e, hhex⟩ : ∃ a b d e, Text.hex4 c.toNat = [a, b, d, e] := ⟨_, _, _, _, rfl⟩
      rw [hhex] at hvalue ⊢
      simp only [List.cons_append, List.nil_append, pieces?, hvalue]
      rcases pieces? rest with _ | p
      · rfl
      · simp [hpiece]
    case isFalse hctl => exact pieces?_plain (by omega) hquote hback rest
  all_goals exact pieces?_unescape rfl rest

theorem pieces?_flatMap_escape (cs rest : List Char) :
    pieces? (cs.flatMap escape ++ '"' :: rest) = some (cs.map .char, rest) := by
  induction cs with
  | nil => rfl
  | cons c cs ih => rw [List.flatMap_cons, List.append_assoc, pieces?_escape, ih]; rfl

theorem join?_map_char (cs : List Char) : join? (cs.map .char) = some cs := by
  induction cs with
  | nil => rfl
  | cons c cs ih => rw [List.map_cons, join?, ih]; rfl

theorem quote_eq (s : Option (List Char)) : quote s = '"' :: (quote s).tail := by
  cases s <;> rfl

/-- A string is read back from what stands behind its first quote. -/
theorem string?_quote (s : Option (List Char)) (rest : List Char) :
    string? ((quote s).tail ++ rest) = some (s, rest) := by
  rcases s with _ | cs
  · have hhex : Text.hexValue? ['d', '8', '0', '0'] = some 0xD800 := by decide
    have htail : (quote none).tail = ['\\', 'u', 'd', '8', '0', '0', '"'] := by decide
    have hpiece : pieceOf 0xD800 = .half 0xD800 := by decide
    rw [htail]
    simp only [List.cons_append, List.nil_append, string?, pieces?, hhex, Option.bind_eq_bind,
      Option.bind_some, hpiece]
    rfl
  · have htail : (quote (some cs)).tail = cs.flatMap escape ++ ['"'] := rfl
    rw [htail, List.append_assoc, List.singleton_append, string?, pieces?_flatMap_escape]
    simp only [Option.map_some, join?_map_char]

/-! ## Numbers -/

/-- A character with which a number could go on. -/
def isNumberPart (c : Char) : Bool := c.isDigit || c == '.' || c == 'e' || c == 'E'

theorem isDigit_of_stops {rest : List Char} (hr : Stops isNumberPart rest) :
    Stops Char.isDigit rest := by
  intro c hc
  have h := hr c hc
  rw [isNumberPart, Bool.or_eq_false_iff, Bool.or_eq_false_iff, Bool.or_eq_false_iff] at h
  exact h.1.1.1

/-- A fraction is read back in front of a text that is no part of it. -/
theorem fraction?_append {fraction rest : List Char} (hd : ∀ c ∈ fraction, c.isDigit = true)
    (hr : Stops Char.isDigit rest) (hdot : rest.head? ≠ some '.') :
    fraction? ((if fraction.isEmpty then [] else '.' :: fraction) ++ rest) =
      some (fraction, rest) := by
  rcases fraction with _ | ⟨c, cs⟩
  · rw [List.isEmpty_nil, if_pos rfl, List.nil_append, fraction?.eq_def]
    split
    · exact absurd rfl hdot
    · rfl
  · rw [List.isEmpty_cons, if_neg Bool.false_ne_true, List.cons_append, fraction?]
    simp only [takeWhile_append_of_stops hd hr, dropWhile_append_of_stops hd hr]
    rfl

theorem exponentDigits?_digitsOf (negative : Bool) (n : Nat) {rest : List Char}
    (hr : Stops Char.isDigit rest) :
    exponentDigits? negative (Numeral.digitsOf n ++ rest) =
      some (some (if negative then -(n : Int) else n), rest) := by
  have hne : (Numeral.digitsOf n).isEmpty = false := by
    rw [List.isEmpty_eq_false_iff]
    exact Numeral.digitsOf_ne_nil
  unfold exponentDigits?
  simp only [takeWhile_append_of_stops Numeral.digitsOf_digits hr,
    dropWhile_append_of_stops Numeral.digitsOf_digits hr, hne, Numeral.valueOf_digitsOf]
  rfl

/-- An exponent is read back in front of a text that is no part of it. -/
theorem exponent?_append (exponent : Option Int) {rest : List Char}
    (hr : Stops isNumberPart rest) :
    exponent? ((exponent.map Numeral.exponentText).getD [] ++ rest) = some (exponent, rest) := by
  have hdigits := isDigit_of_stops hr
  rcases exponent with _ | e
  · rw [Option.map_none, Option.getD_none, List.nil_append, exponent?.eq_def]
    split
    · rename_i c cs
      rw [if_neg]
      have h := stops_cons.1 hr
      rintro (rfl | rfl) <;> cases h
    · rfl
  · rw [Option.map_some, Option.getD_some, Numeral.exponentText]
    by_cases hneg : e < 0
    · rw [if_pos hneg, List.cons_append, List.cons_append, exponent?, if_pos (Or.inl rfl)]
      rw [exponentDigits?_digitsOf true e.natAbs hdigits, if_pos rfl]
      congr 3
      omega
    · rw [if_neg hneg, List.cons_append, List.cons_append, exponent?, if_pos (Or.inl rfl)]
      rw [exponentDigits?_digitsOf false e.natAbs hdigits, if_neg Bool.false_ne_true]
      congr 3
      omega

/-- An exponent starts with its letter. -/
theorem head?_exponent_append (exponent : Option Int) (rest : List Char) :
    ((exponent.map Numeral.exponentText).getD [] ++ rest).head? = some 'e' ∨
      ((exponent.map Numeral.exponentText).getD [] ++ rest) = rest := by
  rcases exponent with _ | e
  · exact Or.inr rfl
  · exact Or.inl rfl

/-- Only zero itself starts with a zero, so the digits in front of the point are read up to
their end. -/
theorem unsigned?_append {n : Numeral} (hn : n.IsStrict) {rest : List Char}
    (hr : Stops isNumberPart rest) :
    unsigned? n.negative (n.whole ++ ((if n.fraction.isEmpty then [] else '.' :: n.fraction) ++
      ((n.exponent.map Numeral.exponentText).getD [] ++ rest))) = some (n, rest) := by
  have hexp := exponent?_append n.exponent hr
  have hbehind : ∀ c ∈ ((n.exponent.map Numeral.exponentText).getD [] ++ rest).head?,
      c.isDigit = false ∧ c ≠ '.' := by
    rcases head?_exponent_append n.exponent rest with h | h
    · rw [h]
      rintro c ⟨⟩
      decide
    · rw [h]
      intro c hc
      refine ⟨isDigit_of_stops hr c hc, ?_⟩
      rintro rfl
      cases hr _ hc
  generalize (n.exponent.map Numeral.exponentText).getD [] ++ rest = behind at hexp hbehind ⊢
  have hfrac := fraction?_append hn.fraction_digits (fun c hc => (hbehind c hc).1)
    fun h => (hbehind _ h).2 rfl
  have hstop : Stops Char.isDigit
      ((if n.fraction.isEmpty then [] else '.' :: n.fraction) ++ behind) := by
    rcases n.fraction with _ | ⟨c, cs⟩
    · exact fun c hc => (hbehind c hc).1
    · exact stops_cons.2 rfl
  generalize (if n.fraction.isEmpty then [] else '.' :: n.fraction) ++ behind = tail
    at hfrac hstop ⊢
  have hne : n.whole.isEmpty = false := List.isEmpty_eq_false_iff.2 hn.whole_ne_nil
  unfold unsigned?
  extract_lets whole
  have hwhole : whole = n.whole := by
    simp only [whole]
    split
    · rename_i more heq
      refine (hn.no_leading_zero ?_).symm
      have hhead := congrArg List.head? heq
      rwa [hn.head?_whole_append] at hhead
    · exact takeWhile_append_of_stops hn.whole_digits hstop
  rw [hwhole, hne]
  simp only [List.drop_left, hfrac, Option.bind_eq_bind, Option.bind_some, hexp]
  rfl

/-- A number is read back in front of a text that is no part of it. -/
theorem number?_text {n : Numeral} (hn : n.IsStrict) {rest : List Char}
    (hr : Stops isNumberPart rest) : number? (n.text ++ rest) = some (n, rest) := by
  have hread := unsigned?_append hn hr
  rw [Numeral.text]
  simp only [List.append_assoc]
  rcases hneg : n.negative
  · rw [hneg] at hread
    rw [if_neg Bool.false_ne_true, List.nil_append, number?.eq_def]
    split
    · rename_i more heq
      have hhead := congrArg List.head? heq
      rw [hn.head?_whole_append] at hhead
      cases hn.whole_digits '-' (List.mem_of_head? hhead)
    · exact hread
  · rw [hneg] at hread
    rw [if_pos rfl, List.singleton_append, number?]
    exact hread

/-! ## Values -/

/-- A number starts with its sign or with a digit. -/
theorem exists_text_eq_cons {n : Numeral} (hn : n.IsStrict) :
    ∃ c cs, n.text = c :: cs ∧ (c = '-' ∨ c.isDigit = true) := by
  obtain ⟨c, cs, hw⟩ := List.exists_cons_of_ne_nil hn.whole_ne_nil
  have hc : c.isDigit = true := hn.whole_digits c (hw ▸ List.mem_cons_self)
  rw [Numeral.text, hw]
  rcases n.negative
  · exact ⟨c, _, rfl, Or.inr hc⟩
  · exact ⟨'-', _, rfl, Or.inl rfl⟩

/-- A sign or a digit starts nothing but a number. -/
theorem value?_number {c : Char} (hc : c = '-' ∨ c.isDigit = true) (n : Nat) (cs : List Char) :
    value? (n + 1) (c :: cs) = (number? (c :: cs)).map fun p => (.number p.1, p.2) := by
  rw [value?.eq_def]
  split
  case h_8 => rfl
  all_goals
    rename_i heq
    cases heq
  all_goals
    rcases hc with hc | hc
    · cases hc
    · cases hc

/-- No printed value starts with a blank or a bracket that closes. -/
theorem exists_print_eq_cons {j : Json} (hj : j.IsStrict) :
    ∃ c cs, j.print = c :: cs ∧ isBlank c = false ∧ c ≠ ']' := by
  cases j with
  | null => exact ⟨'n', _, by rw [print], by decide⟩
  | boolean b => cases b <;> exact ⟨_, _, by rw [print], by decide⟩
  | number n =>
    obtain ⟨c, cs, hcs, hc⟩ := exists_text_eq_cons hj
    rw [print]
    refine ⟨c, cs, hcs, ?_, ?_⟩
    · rw [isBlank, Bool.eq_false_iff]
      intro hb
      simp only [Bool.or_eq_true, beq_iff_eq] at hb
      rcases hb with ((rfl | rfl) | rfl) | rfl
      all_goals
        rcases hc with hc | hc
        · cases hc
        · cases hc
    · rintro rfl
      rcases hc with hc | hc
      · cases hc
      · cases hc
  | string s => exact ⟨'"', _, by rw [print]; exact quote_eq s, by decide⟩
  | array items => exact ⟨'[', _, by rw [print]; rfl, by decide⟩
  | object members => exact ⟨'\x7b', _, by rw [print]; rfl, by decide⟩

theorem skipBlanks_cons {c : Char} (h : isBlank c = false) (cs : List Char) :
    skipBlanks (c :: cs) = c :: cs := by
  rw [skipBlanks, List.dropWhile_cons, h]
  rfl

theorem skipBlanks_print {j : Json} (hj : j.IsStrict) (rest : List Char) :
    skipBlanks (j.print ++ rest) = j.print ++ rest := by
  obtain ⟨c, cs, hcs, hblank, -⟩ := exists_print_eq_cons hj
  rw [hcs]
  exact skipBlanks_cons hblank (cs ++ rest)

theorem length_print_pos {j : Json} (hj : j.IsStrict) : 0 < j.print.length := by
  obtain ⟨c, cs, hcs, -, -⟩ := exists_print_eq_cons hj
  rw [hcs]
  exact Nat.succ_pos _

/-! ## One step of the reader for each way to go on -/

theorem value?_array {n : Nat} {cs rest : List Char} {js : List Json}
    (hskip : skipBlanks cs = cs) (hclose : cs.head? ≠ some ']')
    (h : items? n cs = some (js, rest)) : value? (n + 1) ('[' :: cs) = some (.array js, rest) := by
  rw [value?, hskip]
  split
  · exact absurd rfl hclose
  · rw [h]
    rfl

theorem value?_object {n : Nat} {cs rest : List Char} {ms : List (Option (List Char) × Json)}
    (hskip : skipBlanks cs = cs) (hclose : cs.head? ≠ some '\x7d')
    (h : members? n cs = some (ms, rest)) :
    value? (n + 1) ('\x7b' :: cs) = some (.object ms, rest) := by
  rw [value?, hskip]
  split
  · exact absurd rfl hclose
  · rw [h]
    rfl

theorem items?_last {n : Nat} {cs rest : List Char} {j : Json}
    (h : value? n cs = some (j, ']' :: rest)) : items? (n + 1) cs = some ([j], rest) := by
  have hskip : skipBlanks (']' :: rest) = ']' :: rest := skipBlanks_cons (by decide) rest
  simp only [items?, h, Option.bind_eq_bind, Option.bind_some, hskip]

theorem items?_cons {n : Nat} {cs more rest : List Char} {j : Json} {js : List Json}
    (h : value? n cs = some (j, ',' :: more)) (hskip : skipBlanks more = more)
    (hmore : items? n more = some (js, rest)) : items? (n + 1) cs = some (j :: js, rest) := by
  have hcomma : skipBlanks (',' :: more) = ',' :: more := skipBlanks_cons (by decide) more
  simp only [items?, h, Option.bind_eq_bind, Option.bind_some, hcomma, hskip, hmore,
    Option.map_some]

theorem members?_last {n : Nat} {cs more rest : List Char} {s : Option (List Char)} {j : Json}
    (hs : string? cs = some (s, ':' :: more)) (hskip : skipBlanks more = more)
    (h : value? n more = some (j, '\x7d' :: rest)) :
    members? (n + 1) ('"' :: cs) = some ([(s, j)], rest) := by
  have hcolon : skipBlanks (':' :: more) = ':' :: more := skipBlanks_cons (by decide) more
  have hbrace : skipBlanks ('\x7d' :: rest) = '\x7d' :: rest := skipBlanks_cons (by decide) rest
  simp only [members?, hs, Option.bind_eq_bind, Option.bind_some, hcolon, hskip, h, hbrace]

theorem members?_cons {n : Nat} {cs more others rest : List Char} {s : Option (List Char)}
    {j : Json} {ms : List (Option (List Char) × Json)}
    (hs : string? cs = some (s, ':' :: more)) (hskip : skipBlanks more = more)
    (h : value? n more = some (j, ',' :: others)) (hothers : skipBlanks others = others)
    (hms : members? n others = some (ms, rest)) :
    members? (n + 1) ('"' :: cs) = some ((s, j) :: ms, rest) := by
  have hcolon : skipBlanks (':' :: more) = ':' :: more := skipBlanks_cons (by decide) more
  have hcomma : skipBlanks (',' :: others) = ',' :: others := skipBlanks_cons (by decide) others
  simp only [members?, hs, Option.bind_eq_bind, Option.bind_some, hcolon, hskip, h, hcomma,
    hothers, hms, Option.map_some]

/-! ## Whole values -/

theorem print_array (items : List Json) :
    (Json.array items).print = '[' :: (printItems items ++ [']']) := by
  rw [print]
  rfl

theorem print_object (members : List (Option (List Char) × Json)) :
    (Json.object members).print = '\x7b' :: (printMembers members ++ ['\x7d']) := by
  rw [print]
  rfl

theorem printItems_cons_cons (j k : Json) (js : List Json) :
    printItems (j :: k :: js) = j.print ++ ',' :: printItems (k :: js) := by
  rw [printItems]
  exact List.cons_ne_nil k js

theorem printMembers_singleton (s : Option (List Char)) (j : Json) :
    printMembers [(s, j)] = '"' :: ((quote s).tail ++ ':' :: j.print) := by
  rw [printMembers, ← List.cons_append, ← quote_eq]

theorem printMembers_cons_cons (s : Option (List Char)) (j : Json)
    (m : Option (List Char) × Json) (ms : List (Option (List Char) × Json)) :
    printMembers ((s, j) :: m :: ms) =
      '"' :: ((quote s).tail ++ ':' :: (j.print ++ ',' :: printMembers (m :: ms))) := by
  rw [printMembers, ← List.cons_append, ← quote_eq, List.append_assoc, List.cons_append]
  exact List.cons_ne_nil m ms

theorem exists_printItems_eq_cons {j : Json} (hj : j.IsStrict) (js : List Json) :
    ∃ c cs, printItems (j :: js) = c :: cs ∧ isBlank c = false ∧ c ≠ ']' := by
  obtain ⟨c, cs, hcs, hc⟩ := exists_print_eq_cons hj
  cases js with
  | nil => exact ⟨c, cs, by rw [printItems, hcs], hc⟩
  | cons k js => exact ⟨c, _, by rw [printItems_cons_cons, hcs]; rfl, hc⟩

theorem exists_printMembers_eq_cons (m : Option (List Char) × Json)
    (ms : List (Option (List Char) × Json)) :
    ∃ cs, printMembers (m :: ms) = '"' :: cs := by
  obtain ⟨s, j⟩ := m
  cases ms with
  | nil => exact ⟨_, printMembers_singleton s j⟩
  | cons m ms => exact ⟨_, printMembers_cons_cons s j m ms⟩

theorem skipBlanks_printItems {j : Json} (hj : j.IsStrict) (js : List Json) (rest : List Char) :
    skipBlanks (printItems (j :: js) ++ rest) = printItems (j :: js) ++ rest := by
  obtain ⟨c, cs, hcs, hblank, -⟩ := exists_printItems_eq_cons hj js
  rw [hcs]
  exact skipBlanks_cons hblank (cs ++ rest)

theorem skipBlanks_printMembers (m : Option (List Char) × Json)
    (ms : List (Option (List Char) × Json)) (rest : List Char) :
    skipBlanks (printMembers (m :: ms) ++ rest) = printMembers (m :: ms) ++ rest := by
  obtain ⟨cs, hcs⟩ := exists_printMembers_eq_cons m ms
  rw [hcs]
  exact skipBlanks_cons (by decide) (cs ++ rest)

theorem stops_isNumberPart {c : Char} (hc : c ∈ [',', ']', '\x7d']) (cs : List Char) :
    Stops isNumberPart (c :: cs) := by
  simp only [List.mem_cons, List.not_mem_nil, or_false] at hc
  rcases hc with rfl | rfl | rfl
  all_goals exact stops_cons.2 rfl

mutual

/-- A value is read back in front of a text that is no part of it. -/
theorem value?_print : ∀ {j : Json}, j.IsStrict → ∀ {n : Nat}, 2 * j.print.length ≤ n + 1 →
    ∀ {rest : List Char}, Stops isNumberPart rest →
      value? (n + 1) (j.print ++ rest) = some (j, rest)
  | .null, _, n, _, rest, _ => by simp [print, value?]
  | .boolean b, _, n, _, rest, _ => by cases b <;> simp [print, value?]
  | .number m, hj, n, _, rest, hr => by
    have hread := number?_text hj hr
    obtain ⟨c, cs, hcs, hc⟩ := exists_text_eq_cons hj
    rw [print]
    rw [hcs, List.cons_append] at hread ⊢
    rw [value?_number hc, hread]
    rfl
  | .string s, _, n, _, rest, _ => by
    rw [print, quote_eq, List.cons_append, value?, string?_quote]
    rfl
  | .array [], _, n, _, rest, _ => by
    have hclose : skipBlanks (']' :: rest) = ']' :: rest := skipBlanks_cons (by decide) rest
    rw [print_array, printItems, List.cons_append, List.nil_append, List.singleton_append, value?,
      hclose]
    rfl
  | .array (j :: js), hj, n, hn, rest, _ => by
    rw [IsStrict] at hj
    rw [print_array] at hn
    simp only [List.length_cons, List.length_append, List.length_nil] at hn
    rw [print_array, List.cons_append, List.append_assoc]
    obtain ⟨m, rfl⟩ : ∃ m, n = m + 1 := ⟨n - 1, by omega⟩
    refine value?_array (skipBlanks_printItems hj.1 js _) ?_ ?_
    · obtain ⟨c, cs, hcs, -, hc⟩ := exists_printItems_eq_cons hj.1 js
      rw [hcs, List.cons_append, List.head?_cons]
      exact fun h => hc (Option.some.inj h)
    · exact items?_printItems (List.cons_ne_nil j js) hj (by omega)
  | .object [], _, n, _, rest, _ => by
    have hclose : skipBlanks ('\x7d' :: rest) = '\x7d' :: rest := skipBlanks_cons (by decide) rest
    rw [print_object, printMembers, List.cons_append, List.nil_append, List.singleton_append,
      value?, hclose]
    rfl
  | .object (m :: ms), hj, n, hn, rest, _ => by
    rw [IsStrict] at hj
    rw [print_object] at hn
    simp only [List.length_cons, List.length_append, List.length_nil] at hn
    rw [print_object, List.cons_append, List.append_assoc]
    obtain ⟨k, rfl⟩ : ∃ k, n = k + 1 := ⟨n - 1, by omega⟩
    refine value?_object (skipBlanks_printMembers m ms _) ?_ ?_
    · obtain ⟨cs, hcs⟩ := exists_printMembers_eq_cons m ms
      rw [hcs, List.cons_append, List.head?_cons]
      decide
    · exact members?_printMembers (List.cons_ne_nil m ms) hj (by omega)

/-- Values with commas between them are read back up to their bracket. -/
theorem items?_printItems : ∀ {js : List Json}, js ≠ [] → ItemsAreStrict js → ∀ {n : Nat},
    2 * (printItems js).length ≤ n → ∀ {rest : List Char},
    items? (n + 1) (printItems js ++ ']' :: rest) = some (js, rest)
  | [], h, _, _, _, _ => absurd rfl h
  | [j], _, hjs, n, hn, rest => by
    rw [ItemsAreStrict] at hjs
    rw [printItems] at hn ⊢
    have hpos := length_print_pos hjs.1
    obtain ⟨m, rfl⟩ : ∃ m, n = m + 1 := ⟨n - 1, by omega⟩
    exact items?_last (value?_print hjs.1 hn (stops_isNumberPart (by decide) rest))
  | j :: k :: js, _, hjs, n, hn, rest => by
    rw [ItemsAreStrict] at hjs
    have hk := hjs.2
    rw [ItemsAreStrict] at hk
    rw [printItems_cons_cons] at hn ⊢
    simp only [List.length_cons, List.length_append] at hn
    rw [List.append_assoc, List.cons_append]
    have hpos := length_print_pos hjs.1
    obtain ⟨m, rfl⟩ : ∃ m, n = m + 1 := ⟨n - 1, by omega⟩
    exact items?_cons (value?_print hjs.1 (by omega) (stops_isNumberPart (by decide) _))
      (skipBlanks_printItems hk.1 js _) (items?_printItems (List.cons_ne_nil k js) hjs.2 (by omega))

/-- Members with commas between them are read back up to their brace. -/
theorem members?_printMembers : ∀ {ms : List (Option (List Char) × Json)}, ms ≠ [] →
    MembersAreStrict ms → ∀ {n : Nat}, 2 * (printMembers ms).length ≤ n →
    ∀ {rest : List Char}, members? (n + 1) (printMembers ms ++ '\x7d' :: rest) = some (ms, rest)
  | [], h, _, _, _, _ => absurd rfl h
  | [(s, j)], _, hms, n, hn, rest => by
    rw [MembersAreStrict] at hms
    rw [printMembers_singleton] at hn ⊢
    simp only [List.length_cons, List.length_append] at hn
    rw [List.cons_append, List.append_assoc, List.cons_append]
    obtain ⟨m, rfl⟩ : ∃ m, n = m + 1 := ⟨n - 1, by omega⟩
    exact members?_last (string?_quote s _) (skipBlanks_print hms.1 _)
      (value?_print hms.1 (by omega) (stops_isNumberPart (by decide) rest))
  | (s, j) :: m :: ms, _, hms, n, hn, rest => by
    rw [MembersAreStrict] at hms
    rw [printMembers_cons_cons] at hn ⊢
    simp only [List.length_cons, List.length_append] at hn
    rw [List.cons_append, List.append_assoc, List.cons_append, List.append_assoc, List.cons_append]
    obtain ⟨k, rfl⟩ : ∃ k, n = k + 1 := ⟨n - 1, by omega⟩
    exact members?_cons (string?_quote s _) (skipBlanks_print hms.1 _)
      (value?_print hms.1 (by omega) (stops_isNumberPart (by decide) _))
      (skipBlanks_printMembers m ms _)
      (members?_printMembers (List.cons_ne_nil m ms) hms.2 (by omega))

end

/-- Every value is read back from its text. -/
theorem read?_print {j : Json} (hj : j.IsStrict) : read? j.print = some j := by
  have hread := value?_print hj (Nat.le_succ _) (stops_nil isNumberPart)
  have hskip := skipBlanks_print hj []
  rw [List.append_nil] at hread hskip
  rw [read?, hskip, hread]
  rfl

end SqlTokens.Json
