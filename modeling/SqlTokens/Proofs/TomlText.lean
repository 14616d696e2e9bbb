-- The law of quoted texts: whichever of the five forms is taken, the text is read
-- back from it, with every quote, backslash, newline and control character.
import SqlTokens.Proofs.Search
import SqlTokens.Toml.Printer
import SqlTokens.Toml.Quoted

namespace SqlTokens.Toml

/-! ## Characters -/

theorem isPlain_iff {c : Char} :
    isPlain c = true ↔ c = '\t' ∨ 0x20 ≤ c.toNat ∧ c ≠ '\x7f' := by
  simp [isPlain]

/-- A character that needs no escape stands for itself, unless it is a newline. -/
theorem isPlain_of_not_isControl {c : Char} (h : isControl c = false) (hn : c ≠ '\n') :
    isPlain c = true := by
  rw [isPlain_iff]
  by_cases ht : c = '\t'
  · exact Or.inl ht
  · right
    simp only [isControl, Bool.or_eq_false_iff, Bool.and_eq_false_iff, decide_eq_false_iff_not,
      bne_eq_false_iff_eq, beq_eq_false_iff_ne] at h
    obtain ⟨(hlow | hline) | hline, hdel⟩ := h
    · exact ⟨by omega, hdel⟩
    · exact absurd hline ht
    · exact absurd hline hn

theorem codePoint?_hex4 {c : Char} (h : c.toNat < 65536) (rest : List Char) :
    codePoint? 4 ((Text.hex4 c.toNat).map Char.toUpper ++ rest) = some (c, rest) := by
  have hvalue := Text.hexValue?_map_hex4 Text.digitValue?_toUpper h
  have hlen : ((Text.hex4 c.toNat).map Char.toUpper).length = 4 := rfl
  generalize (Text.hex4 c.toNat).map Char.toUpper = digits at hvalue hlen ⊢
  have hchar : Text.hexChar? digits = some c := by
    have hvalid : c.toNat.isValidChar := c.valid
    rw [Text.hexChar?, hvalue, Option.bind_some, if_pos hvalid, Char.ofNat_toNat]
  have htake : (digits ++ rest).take 4 = digits := by rw [← hlen, List.take_left]
  have hdrop : (digits ++ rest).drop 4 = rest := by rw [← hlen, List.drop_left]
  rw [codePoint?, if_pos (by rw [List.length_append]; omega), htake, hdrop, hchar, Option.map_some]

/-- A character is written as an escape that names it, or as itself. -/
theorem escape_cases (c : Char) :
    (∃ body, escape c = '\\' :: body ∧ ∀ rest, escape? (body ++ rest) = some (c, rest)) ∨
      escape c = [c] ∧ isPlain c = true ∧ c ≠ '"' ∧ c ≠ '\\' ∧ c ≠ '\r' := by
  unfold escape
  split
  case h_8 _ _ hnewline _ hreturn hquote hback =>
    split
    case isTrue hctl =>
      left
      have hlt : c.toNat < 65536 := by
        simp only [isControl, Bool.or_eq_true, Bool.and_eq_true, decide_eq_true_eq,
          beq_iff_eq] at hctl
        rcases hctl with ⟨⟨hlow, -⟩, -⟩ | rfl
        · omega
        · decide
      exact ⟨_, rfl, fun rest => codePoint?_hex4 hlt rest⟩
    case isFalse hctl =>
      right
      have hctl' : isControl c = false := Bool.eq_false_iff.2 hctl
      exact ⟨rfl, isPlain_of_not_isControl hctl' hnewline, hquote, hback, hreturn⟩
  all_goals exact Or.inl ⟨_, rfl, fun _ => rfl⟩

/-! ## One line -/

theorem basic?_close (rest : List Char) : basic? ('"' :: rest) = some ([], rest) := by
  rw [basic?]

theorem basic?_escaped {c : Char} {more rest : List Char} (h : escape? more = some (c, rest)) :
    basic? ('\\' :: more) = (basic? rest).map fun p => (c :: p.1, p.2) := by
  rw [basic?]
  split
  · rename_i d other hd
    cases h.symm.trans hd
    rfl
  · rename_i hnone
    cases h.symm.trans hnone

theorem basic?_plain {c : Char} (hc : isPlain c = true) (hquote : c ≠ '"') (hback : c ≠ '\\')
    (rest : List Char) :
    basic? (c :: rest) = (basic? rest).map fun p => (c :: p.1, p.2) := by
  rw [basic?]
  · rw [if_pos hc]
  · exact hquote
  · exact hback

theorem basic?_escape (c : Char) (rest : List Char) :
    basic? (escape c ++ rest) = (basic? rest).map fun p => (c :: p.1, p.2) := by
  rcases escape_cases c with ⟨body, heq, hread⟩ | ⟨heq, hplain, hquote, hback, -⟩
  · rw [heq, List.cons_append, basic?_escaped (hread rest)]
  · rw [heq, List.singleton_append, basic?_plain hplain hquote hback]

theorem basic?_flatMap_escape (cs rest : List Char) :
    basic? (cs.flatMap escape ++ '"' :: rest) = some (cs, rest) := by
  induction cs with
  | nil => exact basic?_close rest
  | cons c cs ih => rw [List.flatMap_cons, List.append_assoc, basic?_escape, ih, Option.map_some]

theorem literal?_append {cs : List Char} (hplain : ∀ c ∈ cs, isPlain c = true) (hq : '\'' ∉ cs)
    (rest : List Char) : literal? (cs ++ '\'' :: rest) = some (cs, rest) := by
  induction cs with
  | nil => rfl
  | cons c cs ih =>
    rw [List.mem_cons, not_or] at hq
    have hc : isPlain c = true := hplain c List.mem_cons_self
    rw [List.cons_append, literal?, if_pos hc,
      ih (fun d hd => hplain d (List.mem_cons_of_mem c hd)) hq.2, Option.map_some]
    exact fun heq => hq.1 heq.symm

/-! ## Quotes in a row -/

/-- The first three of the quotes in a row are as good as the last three. -/
theorem replicate_append_three (q : Char) (n : Nat) (rest : List Char) :
    List.replicate n q ++ q :: q :: q :: rest = q :: q :: q :: (List.replicate n q ++ rest) := by
  induction n with
  | zero => rfl
  | succ n ih => rw [List.replicate_succ, List.cons_append, ih, List.cons_append]

/-- Up to two quotes in front of the closing ones belong to the text. -/
theorem closing_replicate {q : Char} {n : Nat} (hn : n ≤ 2) {rest : List Char}
    (hr : rest.head? ≠ some q) :
    closing q (List.replicate n q ++ rest) = (List.replicate n q, rest) := by
  have hfront : ∀ c cs, rest = c :: cs → c ≠ q := by
    rintro c cs rfl rfl
    exact hr rfl
  obtain rfl | rfl | rfl : n = 0 ∨ n = 1 ∨ n = 2 := by omega
  · rcases rest with _ | ⟨a, _ | ⟨b, rest⟩⟩
    · rfl
    · simp [closing, hfront a [] rfl]
    · simp [closing, hfront a (b :: rest) rfl]
  · rcases rest with _ | ⟨a, rest⟩
    · simp [closing]
    · simp [closing, hfront a rest rfl]
  · simp [closing]

section Flush

variable {read : List Char → Option (List Char × List Char)} {q : Char}

/-- A reader that takes a quote for itself unless three stand in a row takes one or two quotes
in front of another character for themselves. -/
theorem read_replicate
    (hquote : ∀ cs, ¬ [q, q] <+: cs → read (q :: cs) = (read cs).map fun p => (q :: p.1, p.2))
    {n : Nat} (hn : n ≤ 2) {c : Char} (hc : c ≠ q) (cs : List Char) :
    read (List.replicate n q ++ c :: cs) =
      (read (c :: cs)).map fun p => (List.replicate n q ++ p.1, p.2) := by
  have hone : ¬ [q, q] <+: c :: cs := by
    intro h
    exact hc (List.cons_prefix_cons.1 h).1.symm
  have htwo : ¬ [q, q] <+: q :: c :: cs := by
    intro h
    exact hc (List.cons_prefix_cons.1 (List.cons_prefix_cons.1 h).2).1.symm
  obtain rfl | rfl | rfl : n = 0 ∨ n = 1 ∨ n = 2 := by omega
  · rcases h : read (c :: cs) with _ | p <;> simp [h]
  · have h1 := hquote _ hone
    rcases h : read (c :: cs) with _ | p <;> simp [h, h1]
  · have h1 := hquote _ hone
    have h2 := hquote _ htwo
    rcases h : read (c :: cs) with _ | p <;> simp [h, h1, h2, List.replicate]

end Flush

/-! ## Several lines with escapes -/

theorem longBasic?_close {n : Nat} (hn : n ≤ 2) {rest : List Char}
    (hr : rest.head? ≠ some '"') :
    longBasic? (List.replicate n '"' ++ '"' :: '"' :: '"' :: rest) =
      some (List.replicate n '"', rest) := by
  rw [replicate_append_three, longBasic?, closing_replicate hn hr]

theorem longBasic?_escaped {c : Char} {more rest : List Char} (h : escape? more = some (c, rest)) :
    longBasic? ('\\' :: more) = (longBasic? rest).map fun p => (c :: p.1, p.2) := by
  rw [longBasic?]
  split
  · rename_i d other hd
    cases h.symm.trans hd
    rfl
  · rename_i hnone
    cases h.symm.trans hnone

theorem longBasic?_plain {c : Char} (hc : isPlain c = true ∨ c = '\n') (hback : c ≠ '\\')
    (hreturn : c ≠ '\r') {rest : List Char} (hquote : c = '"' → ¬ ['"', '"'] <+: rest) :
    longBasic? (c :: rest) = (longBasic? rest).map fun p => (c :: p.1, p.2) := by
  have hok : (isPlain c || c == '\n') = true := by simpa using hc
  rw [longBasic?]
  · rw [if_pos hok]
  · rintro more rfl rfl
    exact hquote rfl ⟨more, rfl⟩
  · exact hback
  · rintro more rfl
    exact absurd rfl hreturn

theorem longBasic?_quote (cs : List Char) (h : ¬ ['"', '"'] <+: cs) :
    longBasic? ('"' :: cs) = (longBasic? cs).map fun p => ('"' :: p.1, p.2) :=
  longBasic?_plain (Or.inl (by decide)) (by decide) (by decide) fun _ => h

theorem escapeLong_cons {n : Nat} {c : Char} (hquote : c ≠ '"') (hnewline : c ≠ '\n')
    (cs : List Char) : escapeLong n (c :: cs) = escape c ++ escapeLong 0 cs := by
  rw [escapeLong]
  · exact hquote
  · exact hnewline

/-- The quotes that have been written in a row stand in front of what is still to be written;
there are never more than two of them. -/
theorem longBasic?_escapeLong {rest : List Char} (hr : rest.head? ≠ some '"') (cs : List Char)
    {n : Nat} (hn : n ≤ 2) :
    longBasic? (List.replicate n '"' ++ (escapeLong n cs ++ '"' :: '"' :: '"' :: rest)) =
      some (List.replicate n '"' ++ cs, rest) := by
  induction cs generalizing n with
  | nil => rw [escapeLong, List.nil_append, List.append_nil, longBasic?_close hn hr]
  | cons c cs ih =>
    have hnext := ih (Nat.zero_le 2)
    rw [List.replicate_zero, List.nil_append, List.nil_append] at hnext
    by_cases hquote : c = '"'
    · subst hquote
      rw [escapeLong]
      by_cases hthird : n = 2
      · have hescape : ∀ more, escape? ('"' :: more) = some ('"', more) := fun _ => rfl
        rw [if_pos hthird, List.cons_append, List.cons_append,
          read_replicate longBasic?_quote hn (by decide), longBasic?_escaped (hescape _), hnext]
        rfl
      · have hmore := ih (n := n + 1) (by omega)
        rw [List.replicate_succ', List.append_assoc, List.append_assoc] at hmore
        rw [if_neg hthird]
        exact hmore
    · by_cases hnewline : c = '\n'
      · subst hnewline
        rw [escapeLong, List.cons_append, read_replicate longBasic?_quote hn hquote,
          longBasic?_plain (Or.inr rfl) (by decide) (by decide) (fun h => absurd h hquote), hnext]
        rfl
      · rw [escapeLong_cons hquote hnewline]
        rcases escape_cases c with ⟨body, heq, hread⟩ | ⟨heq, hplain, -, hback, hreturn⟩
        · rw [heq, List.append_assoc, List.cons_append,
            read_replicate longBasic?_quote hn (by decide), longBasic?_escaped (hread _), hnext]
          rfl
        · rw [heq, List.append_assoc, List.singleton_append,
            read_replicate longBasic?_quote hn hquote,
            longBasic?_plain (Or.inl hplain) hback hreturn (fun h => absurd h hquote), hnext]
          rfl

/-! ## Several lines as they are -/

theorem longLiteral?_close {n : Nat} (hn : n ≤ 2) {rest : List Char}
    (hr : rest.head? ≠ some '\'') :
    longLiteral? (List.replicate n '\'' ++ '\'' :: '\'' :: '\'' :: rest) =
      some (List.replicate n '\'', rest) := by
  rw [replicate_append_three, longLiteral?, closing_replicate hn hr]

theorem longLiteral?_plain {c : Char} (hc : isPlain c = true ∨ c = '\n') (hreturn : c ≠ '\r')
    {rest : List Char} (hquote : c = '\'' → ¬ ['\'', '\''] <+: rest) :
    longLiteral? (c :: rest) = (longLiteral? rest).map fun p => (c :: p.1, p.2) := by
  have hok : (isPlain c || c == '\n') = true := by simpa using hc
  rw [longLiteral?]
  · rw [if_pos hok]
  · rintro more rfl rfl
    exact hquote rfl ⟨more, rfl⟩
  · rintro more rfl
    exact absurd rfl hreturn

theorem longLiteral?_quote (cs : List Char) (h : ¬ ['\'', '\''] <+: cs) :
    longLiteral? ('\'' :: cs) = (longLiteral? cs).map fun p => ('\'' :: p.1, p.2) :=
  longLiteral?_plain (Or.inl (by decide)) (by decide) fun _ => h

/-- The quotes in a row that have been passed stand in front of what is still to be passed; there
are never more than two of them. -/
theorem longLiteral?_append {rest : List Char} (hr : rest.head? ≠ some '\'') (cs : List Char)
    (hplain : ∀ c ∈ cs, (isPlain c = true ∨ c = '\n') ∧ c ≠ '\r') {n : Nat} (hn : n ≤ 2)
    (hthree : ¬ ['\'', '\'', '\''] <:+: List.replicate n '\'' ++ cs) :
    longLiteral? (List.replicate n '\'' ++ (cs ++ '\'' :: '\'' :: '\'' :: rest)) =
      some (List.replicate n '\'' ++ cs, rest) := by
  induction cs generalizing n with
  | nil => rw [List.nil_append, List.append_nil, longLiteral?_close hn hr]
  | cons c cs ih =>
    obtain ⟨hc, hreturn⟩ := hplain c List.mem_cons_self
    have hcs := fun d hd => hplain d (List.mem_cons_of_mem c hd)
    by_cases hquote : c = '\''
    · subst hquote
      have hone : List.replicate n '\'' ++ '\'' :: cs = List.replicate (n + 1) '\'' ++ cs := by
        rw [List.replicate_succ', List.append_assoc, List.singleton_append]
      have hlt : n ≠ 2 := by
        rintro rfl
        exact hthree ⟨[], cs, rfl⟩
      rw [hone] at hthree
      have hmore := ih hcs (n := n + 1) (by omega) hthree
      rw [List.replicate_succ', List.append_assoc, List.append_assoc] at hmore
      exact hmore
    · have hnext := ih hcs (Nat.zero_le 2) fun h =>
        hthree (h.trans ((List.suffix_cons c cs).trans (List.suffix_append _ _)).isInfix)
      rw [List.replicate_zero, List.nil_append, List.nil_append] at hnext
      rw [List.cons_append, read_replicate longLiteral?_quote hn hquote,
        longLiteral?_plain hc hreturn (fun h => absurd h hquote), hnext]
      rfl

/-! ## Any form -/

/-- What is written for a character starts with no quote and with no end of a line. -/
theorem exists_escape_eq_cons (c : Char) :
    ∃ d tail, escape c = d :: tail ∧ d ≠ '"' ∧ d ≠ '\r' ∧ (c ≠ '\n' → d ≠ '\n') := by
  rcases escape_cases c with ⟨body, heq, -⟩ | ⟨heq, -, hquote, -, hreturn⟩
  · exact ⟨'\\', body, heq, by decide, by decide, fun _ => by decide⟩
  · exact ⟨c, [], heq, hquote, hreturn, id⟩

theorem quoted?_basic (cs : List Char) {rest : List Char} (hr : rest.head? ≠ some '"') :
    quoted? (basic cs ++ rest) = some (cs, rest) := by
  have hthree : ∀ more, cs.flatMap escape ++ '"' :: rest ≠ '"' :: '"' :: more := by
    intro more heq
    rcases cs with _ | ⟨c, cs⟩
    · rw [List.flatMap_nil, List.nil_append, List.cons.injEq] at heq
      exact hr (by rw [heq.2]; rfl)
    · obtain ⟨d, tail, hd, hquote, -⟩ := exists_escape_eq_cons c
      rw [List.flatMap_cons, hd, List.cons_append, List.cons_append, List.cons.injEq] at heq
      exact hquote heq.1
  have hform : basic cs ++ rest = '"' :: (cs.flatMap escape ++ '"' :: rest) := by simp [basic]
  rw [hform, quoted?]
  · exact basic?_flatMap_escape cs rest
  · exact hthree

theorem quoted?_literal {cs : List Char} (hplain : ∀ c ∈ cs, isPlain c = true) (hq : '\'' ∉ cs)
    {rest : List Char} (hr : rest.head? ≠ some '\'') :
    quoted? (literal cs ++ rest) = some (cs, rest) := by
  have hthree : ∀ more, cs ++ '\'' :: rest ≠ '\'' :: '\'' :: more := by
    intro more heq
    rcases cs with _ | ⟨c, cs⟩
    · rw [List.nil_append, List.cons.injEq] at heq
      exact hr (by rw [heq.2]; rfl)
    · rw [List.cons_append, List.cons.injEq] at heq
      exact hq (heq.1 ▸ List.mem_cons_self)
  have hform : literal cs ++ rest = '\'' :: (cs ++ '\'' :: rest) := by simp [literal]
  rw [hform, quoted?]
  · exact literal?_append hplain hq rest
  · exact hthree

/-- The newline behind three quotes is there to be dropped; without one, the text has none at its
front. -/
theorem dropNewline_lead {cs more : List Char}
    (h : '\n' ∉ cs → ∃ c tail, more = c :: tail ∧ c ≠ '\n' ∧ c ≠ '\r') :
    dropNewline (lead cs ++ more) = more := by
  unfold lead
  by_cases hn : '\n' ∈ cs
  · rw [if_pos hn]
    rfl
  · obtain ⟨c, tail, rfl, hnewline, hreturn⟩ := h hn
    rw [if_neg hn, List.nil_append, dropNewline]
    · rintro cs heq
      exact hnewline (List.cons.inj heq).1
    · rintro cs heq
      exact hreturn (List.cons.inj heq).1

theorem quoted?_longBasic (cs : List Char) {rest : List Char} (hr : rest.head? ≠ some '"') :
    quoted? (longBasic cs ++ rest) = some (cs, rest) := by
  have hread := longBasic?_escapeLong hr cs (Nat.zero_le 2)
  rw [List.replicate_zero, List.nil_append, List.nil_append] at hread
  have hdrop : dropNewline (lead cs ++ (escapeLong 0 cs ++ '"' :: '"' :: '"' :: rest)) =
      escapeLong 0 cs ++ '"' :: '"' :: '"' :: rest := by
    refine dropNewline_lead fun hn => ?_
    rcases cs with _ | ⟨c, cs⟩
    · exact ⟨'"', _, rfl, by decide, by decide⟩
    · rw [List.mem_cons, not_or] at hn
      have hnewline : c ≠ '\n' := fun h => hn.1 h.symm
      by_cases hquote : c = '"'
      · subst hquote
        exact ⟨'"', _, rfl, by decide, by decide⟩
      · obtain ⟨d, tail, hd, -, hreturn, hline⟩ := exists_escape_eq_cons c
        rw [escapeLong_cons hquote hnewline, hd]
        exact ⟨d, _, rfl, hline hnewline, hreturn⟩
  have hform : longBasic cs ++ rest =
      '"' :: '"' :: '"' :: (lead cs ++ (escapeLong 0 cs ++ '"' :: '"' :: '"' :: rest)) := by
    simp [longBasic]
  rw [hform, quoted?, hdrop, hread]

theorem quoted?_longLiteral {cs : List Char}
    (hplain : ∀ c ∈ cs, (isPlain c = true ∨ c = '\n') ∧ c ≠ '\r')
    (hthree : ¬ ['\'', '\'', '\''] <:+: cs) {rest : List Char} (hr : rest.head? ≠ some '\'') :
    quoted? (longLiteral cs ++ rest) = some (cs, rest) := by
  have hread := longLiteral?_append hr cs hplain (Nat.zero_le 2) hthree
  rw [List.replicate_zero, List.nil_append, List.nil_append] at hread
  have hdrop : dropNewline (lead cs ++ (cs ++ '\'' :: '\'' :: '\'' :: rest)) =
      cs ++ '\'' :: '\'' :: '\'' :: rest := by
    refine dropNewline_lead fun hn => ?_
    rcases cs with _ | ⟨c, cs⟩
    · exact ⟨'\'', _, rfl, by decide, by decide⟩
    · rw [List.mem_cons, not_or] at hn
      exact ⟨c, _, rfl, fun h => hn.1 h.symm, (hplain c List.mem_cons_self).2⟩
  have hform : longLiteral cs ++ rest =
      '\'' :: '\'' :: '\'' :: (lead cs ++ (cs ++ '\'' :: '\'' :: '\'' :: rest)) := by
    simp [longLiteral]
  rw [hform, quoted?, hdrop, hread]

/-- Every text is read back from the form that is taken for it. -/
theorem quoted?_quote (cs : List Char) {rest : List Char} (hdouble : rest.head? ≠ some '"')
    (hsingle : rest.head? ≠ some '\'') : quoted? (quote cs ++ rest) = some (cs, rest) := by
  have hcontrol : cs.any isControl = false → ∀ c ∈ cs, isControl c = false := by
    intro h c hc
    exact Bool.eq_false_iff.2 (List.any_eq_false.1 h c hc)
  unfold quote
  simp only
  split
  · exact quoted?_basic cs hdouble
  · split
    · rename_i h
      simp only [Bool.and_eq_true, Bool.not_eq_true', List.contains_eq_mem,
        decide_eq_false_iff_not] at h
      obtain ⟨⟨hany, hnewline⟩, hquote⟩ := h
      refine quoted?_literal (fun c hc => ?_) hquote hsingle
      exact isPlain_of_not_isControl (hcontrol hany c hc) fun heq => hnewline (heq ▸ hc)
    · split
      · exact quoted?_longBasic cs hdouble
      · split
        · rename_i h
          simp only [Bool.and_eq_true, Bool.not_eq_true', hasThree, Option.isSome_eq_false_iff,
            Option.isNone_iff_eq_none] at h
          obtain ⟨hany, hthree⟩ := h
          rw [Text.find?_eq_none_iff (List.cons_ne_nil _ _)] at hthree
          refine quoted?_longLiteral (fun c hc => ?_) hthree hsingle
          have hc' := hcontrol hany c hc
          refine ⟨?_, ?_⟩
          · by_cases hnewline : c = '\n'
            · exact Or.inr hnewline
            · exact Or.inl (isPlain_of_not_isControl hc' hnewline)
          · rintro rfl
            cases hc'
        · split
          · exact quoted?_longBasic cs hdouble
          · exact quoted?_basic cs hdouble

end SqlTokens.Toml
