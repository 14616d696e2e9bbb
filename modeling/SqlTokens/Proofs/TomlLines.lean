-- The law of documents in lines: headers, keys with values on one line, and empty lines
-- are read as the tables that they list, when no table and no key comes twice.
import Mathlib.Data.List.Forall2
import SqlTokens.Proofs.Shortest
import SqlTokens.Proofs.TomlText
import SqlTokens.Toml.Reader

namespace SqlTokens.Toml

open Text (Stops stops_nil stops_cons takeWhile_append_of_stops dropWhile_append_of_stops)

/-! ## Values on one line -/

/-- The text is a value that ends with its line. -/
structure Spells (text : List Char) (v : Value) : Prop where
  front : ∃ c cs, text = c :: cs ∧ c ≠ ' ' ∧ c ≠ '\t'
  read : ∀ n depth rest, value? (n + 1) depth (text ++ '\n' :: rest) = some (v, '\n' :: rest)

/-- A value without a bracket at its front is quoted, or it is not. -/
theorem value?_of_not_bracket {c : Char} (hsquare : c ≠ '[') (hbrace : c ≠ '\x7b') (n depth : Nat)
    (cs : List Char) :
    value? (n + 1) depth (c :: cs) =
      ((quoted? (c :: cs)).map fun p => (.string p.1, p.2)).or (scalar? (c :: cs)) := by
  rw [value?]
  · intro d more _ hcs
    exact hsquare (List.cons.inj hcs).1
  · intro d more _ hcs
    exact hbrace (List.cons.inj hcs).1

theorem quoted?_eq_none {c : Char} (hdouble : c ≠ '"') (hsingle : c ≠ '\'') (cs : List Char) :
    quoted? (c :: cs) = none := by
  rw [quoted?.eq_def]
  split
  · rename_i heq
    exact absurd (List.cons.inj heq).1 hdouble
  · rename_i heq
    exact absurd (List.cons.inj heq).1 hsingle
  · rename_i heq
    exact absurd (List.cons.inj heq).1 hdouble
  · rename_i heq
    exact absurd (List.cons.inj heq).1 hsingle
  · rfl

/-- Every text is spelled by its quoted form. -/
theorem spells_quote (text : List Char) : Spells (quote text) (.string text) := by
  have hfront : ∃ c cs, quote text = c :: cs ∧ (c = '"' ∨ c = '\'') := by
    unfold quote
    simp only
    split_ifs
    · exact ⟨'"', _, rfl, Or.inl rfl⟩
    · exact ⟨'\'', _, rfl, Or.inr rfl⟩
    · exact ⟨'"', _, rfl, Or.inl rfl⟩
    · exact ⟨'\'', _, rfl, Or.inr rfl⟩
    · exact ⟨'"', _, rfl, Or.inl rfl⟩
    · exact ⟨'"', _, rfl, Or.inl rfl⟩
  obtain ⟨c, cs, hcs, hc⟩ := hfront
  have hother : c ≠ ' ' ∧ c ≠ '\t' ∧ c ≠ '[' ∧ c ≠ '\x7b' := by
    rcases hc with rfl | rfl
    · decide
    · decide
  refine ⟨⟨c, cs, hcs, hother.1, hother.2.1⟩, fun n depth rest => ?_⟩
  have hdouble : ('\n' :: rest).head? ≠ some '"' := by
    rw [List.head?_cons]
    decide
  have hsingle : ('\n' :: rest).head? ≠ some '\'' := by
    rw [List.head?_cons]
    decide
  have hread := quoted?_quote text hdouble hsingle
  rw [hcs, List.cons_append] at hread ⊢
  rw [value?_of_not_bracket hother.2.2.1 hother.2.2.2, hread]
  rfl

/-- A word without quotes and marks is read up to the end of its line. -/
theorem scalar?_word {word : List Char} (hbare : ∀ c ∈ word, isBare c = true) {v : Value}
    (hv : scalarOf? word = some v) (rest : List Char) :
    scalar? (word ++ '\n' :: rest) = some (v, '\n' :: rest) := by
  have hstop : Stops isBare ('\n' :: rest) := stops_cons.2 (by decide)
  have hsplit : splitScalar (word ++ '\n' :: rest) = (word, '\n' :: rest) := by
    rw [splitScalar, takeWhile_append_of_stops hbare hstop, dropWhile_append_of_stops hbare hstop]
    rfl
  rw [scalar?, hsplit]
  simp only [hv, Option.map_some]

theorem spells_word {c : Char} {cs : List Char} (hall : (c :: cs).all isBare = true)
    (hquote : c ≠ '"' ∧ c ≠ '\'') {v : Value} (hv : scalarOf? (c :: cs) = some v) :
    Spells (c :: cs) v := by
  have hbare : ∀ d ∈ c :: cs, isBare d = true := List.all_eq_true.1 hall
  have hc : isBare c = true := hbare c List.mem_cons_self
  have hne : ∀ d, isBare d = false → c ≠ d := by
    rintro d hd rfl
    rw [hc] at hd
    cases hd
  refine ⟨⟨c, cs, rfl, hne ' ' (by decide), hne '\t' (by decide)⟩, fun n depth rest => ?_⟩
  rw [List.cons_append, value?_of_not_bracket (hne '[' (by decide)) (hne '\x7b' (by decide)),
    quoted?_eq_none hquote.1 hquote.2, Option.map_none, Option.none_or, ← List.cons_append,
    scalar?_word hbare hv]

theorem spells_boolean (b : Bool) : Spells (toString b).toList (.boolean b) := by
  cases b with
  | false =>
    have hword : (toString false).toList = ['f', 'a', 'l', 's', 'e'] := by decide
    rw [hword]
    exact spells_word (by decide) (by decide) rfl
  | true =>
    have hword : (toString true).toList = ['t', 'r', 'u', 'e'] := by decide
    rw [hword]
    exact spells_word (by decide) (by decide) rfl

/-! ## Digits -/

section Digits

variable {cs : List Char} (hdigits : ∀ c ∈ cs, c.isDigit = true)
include hdigits

/-- A date has a hyphen, a time has a colon. -/
theorem isMoment_of_digits : isMoment cs = false := by
  have hdate : afterDate? cs = none := by
    unfold afterDate?
    split
    · cases hdigits '-' (by simp)
    · rfl
  have htime : afterTime? cs = none := by
    unfold afterTime?
    split
    · cases hdigits ':' (by simp)
    · rfl
  rw [isMoment, hdate, htime]
  rfl

theorem ungroup?_of_digits (hne : cs ≠ []) : ungroup? Char.isDigit cs = some cs := by
  induction cs with
  | nil => exact absurd rfl hne
  | cons c cs ih =>
    have hc : c.isDigit = true := hdigits c List.mem_cons_self
    have hcs : ∀ d ∈ cs, d.isDigit = true := fun d hd => hdigits d (List.mem_cons_of_mem c hd)
    rcases cs with _ | ⟨d, cs⟩
    · rw [ungroup?, if_pos hc]
    · have hd : d ≠ '_' := by
        rintro rfl
        cases hcs '_' List.mem_cons_self
      rw [ungroup?, if_pos hc, ih hcs (List.cons_ne_nil d cs), Option.map_some]
      · intro h
        cases h
      · intro more heq
        exact hd (List.cons.inj heq).1

end Digits

theorem wholeDigits?_digitsOf (n : Nat) :
    wholeDigits? (Numeral.digitsOf n) = some (Numeral.digitsOf n) := by
  have hzero := Numeral.head?_digitsOf (n := n)
  rw [wholeDigits?, ungroup?_of_digits Numeral.digitsOf_digits Numeral.digitsOf_ne_nil]
  split
  · rename_i heq
    exact heq.symm
  · rename_i more hmore heq
    rw [Option.some.inj heq] at hzero
    have h0 := hzero rfl
    subst h0
    cases heq
    exact absurd rfl hmore
  · rfl

theorem integer?_digitsOf (n : Nat) : integer? (Numeral.digitsOf n) = some (n : Int) := by
  have hdigits := Numeral.digitsOf_digits (n := n)
  have hwhole := wholeDigits?_digitsOf n
  have hvalue := Numeral.valueOf_digitsOf n
  generalize Numeral.digitsOf n = cs at hdigits hwhole hvalue
  have hsign : splitSign cs = (false, cs) := by
    unfold splitSign
    split
    · cases hdigits '+' List.mem_cons_self
    · cases hdigits '-' List.mem_cons_self
    · rfl
  unfold integer?
  split
  · cases hdigits 'x' (by simp)
  · cases hdigits 'o' (by simp)
  · cases hdigits 'b' (by simp)
  · simp only [hsign, hwhole, hvalue, Option.bind_eq_bind, Option.bind_some]
    rfl

theorem spells_integer (n : Nat) : Spells (Numeral.digitsOf n) (.integer (some n)) := by
  have hdigits := Numeral.digitsOf_digits (n := n)
  have hinteger := integer?_digitsOf n
  obtain ⟨c, cs, hcs⟩ := List.exists_cons_of_ne_nil (Numeral.digitsOf_ne_nil (n := n))
  rw [hcs] at hdigits hinteger ⊢
  have hne : ∀ d ∈ c :: cs, ∀ e, e.isDigit = false → d ≠ e := by
    rintro d hd e he rfl
    rw [hdigits d hd] at he
    cases he
  have hc := hne c List.mem_cons_self
  refine spells_word ?_ ⟨hc '"' (by decide), hc '\'' (by decide)⟩ ?_
  · rw [List.all_eq_true]
    intro d hd
    have hd' := hne d hd
    simp [isBare, hd' '=' (by decide), hd' ',' (by decide), hd' '[' (by decide),
      hd' ']' (by decide), hd' '\x7b' (by decide), hd' '\x7d' (by decide), hd' '#' (by decide),
      hd' ' ' (by decide), hd' '\t' (by decide), hd' '\r' (by decide), hd' '\n' (by decide)]
  · have htrue : c :: cs ≠ ['t', 'r', 'u', 'e'] := fun h => hc 't' (by decide) (List.cons.inj h).1
    have hfalse : c :: cs ≠ ['f', 'a', 'l', 's', 'e'] := fun h =>
      hc 'f' (by decide) (List.cons.inj h).1
    have hform : isInteger (c :: cs) = true := by
      simp [isInteger, hinteger]
    rw [scalarOf?, if_neg htrue, if_neg hfalse, isMoment_of_digits hdigits,
      if_neg Bool.false_ne_true, if_pos hform, hinteger]

/-! ## Lines -/

/-- What a line says is read up to its end. An empty line says nothing. -/
def Says (line : List Char) : Option Statement → Prop
  | none => line = []
  | some s => ∀ rest, lineEnd? (line ++ '\n' :: rest) = none ∧
      statement? (skipBlanks (line ++ '\n' :: rest)) = some (s, '\n' :: rest)

theorem skipBlanks_cons {c : Char} (hspace : c ≠ ' ') (htab : c ≠ '\t') (cs : List Char) :
    skipBlanks (c :: cs) = c :: cs := by
  rw [skipBlanks, List.dropWhile_cons, if_neg]
  simp [hspace, htab]

theorem lineEnd?_newline (rest : List Char) : lineEnd? ('\n' :: rest) = some rest := rfl

/-- Where a line goes on, it does not end. -/
theorem lineEnd?_eq_none {c : Char} (hc : c ∉ [' ', '\t', '#', '\n', '\r']) (cs : List Char) :
    lineEnd? (c :: cs) = none := by
  simp only [List.mem_cons, List.not_mem_nil, or_false, not_or] at hc
  obtain ⟨hspace, htab, hmark, hnewline, hreturn⟩ := hc
  rw [lineEnd?, skipBlanks_cons hspace htab]
  split
  · rename_i heq
    exact absurd (List.cons.inj heq).1 hmark
  · rw [newline?.eq_def]
    split
    · rename_i heq
      cases heq
    · rename_i heq
      exact absurd (List.cons.inj heq).1 hnewline
    · rename_i heq
      exact absurd (List.cons.inj heq).1 hreturn
    · rfl

section Key

variable {key : List Char} (hkey : ∀ c ∈ key, isKeyPart c = true) (hne : key ≠ [])
include hkey hne

theorem exists_key_eq_cons : ∃ c cs, key = c :: cs ∧ c ∉ [' ', '\t', '#', '\n', '\r'] ∧
    c ∉ ['[', '"', '\''] := by
  obtain ⟨c, cs, rfl⟩ := List.exists_cons_of_ne_nil hne
  have hc : isKeyPart c = true := hkey c List.mem_cons_self
  refine ⟨c, cs, rfl, fun hmem => ?_, fun hmem => ?_⟩
  · simp only [List.mem_cons, List.not_mem_nil, or_false] at hmem
    rcases hmem with rfl | rfl | rfl | rfl | rfl
    all_goals cases hc
  · simp only [List.mem_cons, List.not_mem_nil, or_false] at hmem
    rcases hmem with rfl | rfl | rfl
    all_goals cases hc

theorem skipBlanks_key (rest : List Char) : skipBlanks (key ++ rest) = key ++ rest := by
  obtain ⟨c, cs, rfl, hc, -⟩ := exists_key_eq_cons hkey hne
  simp only [List.mem_cons, List.not_mem_nil, or_false, not_or] at hc
  exact skipBlanks_cons hc.1 hc.2.1 (cs ++ rest)

/-- A key without quotes and dots is a whole path. -/
theorem path?_key (rest : List Char) (hstop : Stops isKeyPart rest)
    (hdot : (skipBlanks rest).head? ≠ some '.') :
    path? maxParts (key ++ rest) = some (([], key), skipBlanks rest) := by
  have hread : key? (key ++ rest) = some (key, rest) := by
    have hempty : key.isEmpty = false := List.isEmpty_eq_false_iff.2 hne
    have htake := takeWhile_append_of_stops hkey hstop
    have hdrop := dropWhile_append_of_stops hkey hstop
    obtain ⟨c, cs, rfl, -, hc⟩ := exists_key_eq_cons hkey hne
    simp only [List.mem_cons, List.not_mem_nil, or_false, not_or] at hc
    rw [key?.eq_def]
    split
    · rename_i heq
      exact absurd (List.cons.inj heq).1 hc.2.1
    · rename_i heq
      exact absurd (List.cons.inj heq).1 hc.2.2
    · simp only [htake, hdrop, hempty]
      rfl
  have hparts : maxParts = 79 + 1 := rfl
  rw [hparts, path?]
  simp only [hread, Option.bind_eq_bind, Option.bind_some]
  split
  · rename_i heq
    rw [heq] at hdot
    exact absurd rfl hdot
  · rfl

/-- A key, the sign behind it, and a value. -/
theorem says_pair {text : List Char} {v : Value} (hv : Spells text v) :
    Says (key ++ ' ' :: '=' :: ' ' :: text) (some (.pair ⟨[], key, v⟩)) := by
  intro rest
  obtain ⟨d, ds, hfront, hspace, htab⟩ := hv.front
  have hvalue : skipBlanks (' ' :: (text ++ '\n' :: rest)) = text ++ '\n' :: rest := by
    rw [hfront, List.cons_append]
    exact skipBlanks_cons hspace htab _
  have hline : lineKey? (key ++ ' ' :: '=' :: ' ' :: (text ++ '\n' :: rest)) =
      some (([], key), text ++ '\n' :: rest) := by
    have hsign : skipBlanks (' ' :: '=' :: ' ' :: (text ++ '\n' :: rest)) =
        '=' :: ' ' :: (text ++ '\n' :: rest) := rfl
    have hpath := path?_key hkey hne (' ' :: '=' :: ' ' :: (text ++ '\n' :: rest))
      (stops_cons.2 (by decide)) (by rw [hsign, List.head?_cons]; decide)
    rw [lineKey?, hpath, hsign]
    simp only [Option.bind_eq_bind, Option.bind_some, hvalue]
    rfl
  have hpair : pair? (key ++ ' ' :: '=' :: ' ' :: (text ++ '\n' :: rest)) =
      some (⟨[], key, v⟩, '\n' :: rest) := by
    rw [pair?, hline]
    simp only [Option.bind_eq_bind, Option.bind_some, hv.read]
    rfl
  simp only [List.append_assoc, List.cons_append]
  rw [skipBlanks_key hkey hne]
  obtain ⟨c, cs, rfl, hc, hother⟩ := exists_key_eq_cons hkey hne
  simp only [List.mem_cons, List.not_mem_nil, or_false, not_or] at hother
  rw [List.cons_append] at hpair ⊢
  refine ⟨lineEnd?_eq_none hc _, ?_⟩
  rw [statement?]
  · rw [hpair]
    rfl
  · intro more heq
    exact hother.1 (List.cons.inj heq).1

/-- A key in brackets. -/
theorem says_header : Says ('[' :: (key ++ [']'])) (some (.header ⟨[], key, false⟩)) := by
  intro rest
  have hclose : skipBlanks (']' :: '\n' :: rest) = ']' :: '\n' :: rest := rfl
  have hpath := path?_key hkey hne (']' :: '\n' :: rest) (stops_cons.2 (by decide))
    (by rw [hclose, List.head?_cons]; decide)
  have hheader : header? ('[' :: (key ++ ']' :: '\n' :: rest)) =
      some (⟨[], key, false⟩, '\n' :: rest) := by
    rw [header?]
    · simp only [skipBlanks_key hkey hne, hpath, hclose, Option.bind_eq_bind, Option.bind_some]
      rfl
    · obtain ⟨c, cs, rfl, -, hc⟩ := exists_key_eq_cons hkey hne
      intro more heq
      exact hc (by rw [(List.cons.inj heq).1]; decide)
  simp only [List.append_assoc, List.cons_append, List.nil_append]
  refine ⟨lineEnd?_eq_none (by decide) _, ?_⟩
  rw [skipBlanks_cons (by decide) (by decide), statement?, hheader]
  rfl

end Key

/-- Lines are read one after the other. -/
theorem statements?_lines {lines : List (List Char)} {ss : List (Option Statement)}
    (h : List.Forall₂ Says lines ss) {n : Nat} (hn : (lines.flatMap (· ++ ['\n'])).length ≤ n) :
    statements? n (lines.flatMap (· ++ ['\n'])) = some (ss.filterMap id) := by
  induction h generalizing n with
  | nil => rw [List.flatMap_nil, statements?, List.filterMap_nil]
  | @cons line s lines ss hline _ ih =>
    rw [List.flatMap_cons, List.append_assoc, List.singleton_append] at hn ⊢
    generalize lines.flatMap (· ++ ['\n']) = rest at ih hn ⊢
    rw [List.length_append, List.length_cons] at hn
    obtain ⟨n, rfl⟩ : ∃ m, n = m + 1 := ⟨n - 1, by omega⟩
    have hmore : statements? n rest = some (ss.filterMap id) := ih (by omega)
    have hne : line ++ '\n' :: rest ≠ [] := by simp
    rw [statements?]
    · cases s with
      | none =>
        have hempty : line = [] := hline
        subst hempty
        rw [List.nil_append, lineEnd?_newline]
        exact hmore
      | some s =>
        obtain ⟨hend, hread⟩ := hline rest
        rw [hend]
        simp only [hread, Option.bind_eq_bind, Option.bind_some, lineEnd?_newline, hmore]
        rfl
    · exact hne

/-! ## Tables -/

namespace Table

theorem get?_eq_none {o : Origin} {entries : List (Key × Value)} {key : Key}
    (h : key ∉ entries.map Prod.fst) : get? ⟨o, entries⟩ key = none := by
  rw [get?, List.lookup_eq_none_iff]
  intro e he
  rw [bne_iff_ne]
  rintro rfl
  exact h (List.mem_map_of_mem he)

/-- What adds one entry with a new key, adds many of them in their order. -/
theorem foldlM_new {α : Type} {step : Table → α → Option Table} {entry : α → Key × Value}
    {o : Origin} {as : List α}
    (hstep : ∀ a ∈ as, ∀ entries : List (Key × Value), (entry a).1 ∉ entries.map Prod.fst →
      step ⟨o, entries⟩ a = some ⟨o, entries ++ [entry a]⟩)
    {entries : List (Key × Value)} (hkeys : ((entries ++ as.map entry).map Prod.fst).Nodup) :
    as.foldlM step ⟨o, entries⟩ = some ⟨o, entries ++ as.map entry⟩ := by
  induction as generalizing entries with
  | nil => rw [List.map_nil, List.append_nil]; rfl
  | cons a as ih =>
    have hnew : (entry a).1 ∉ entries.map Prod.fst := by
      rw [List.map_append, List.nodup_append] at hkeys
      exact fun hmem => hkeys.2.2 _ hmem _ (by simp) rfl
    have hmore : entries ++ (a :: as).map entry = entries ++ [entry a] ++ as.map entry := by simp
    rw [hmore] at hkeys ⊢
    rw [List.foldlM_cons, hstep a List.mem_cons_self entries hnew]
    exact ih (fun b hb => hstep b (List.mem_cons_of_mem a hb)) hkeys

/-- A key that is not there yet goes to the end. -/
theorem insert_new {o : Origin} (ho : o ≠ .dotted) {entries : List (Key × Value)} {key : Key}
    (hnew : key ∉ entries.map Prod.fst) (v : Value) :
    insert ⟨o, entries⟩ ⟨[], key, v⟩ = some ⟨o, entries ++ [(key, v)]⟩ := by
  have hdotted : ¬ (List.isEmpty ([] : List Key) = decide (o = .dotted)) := by simp [ho]
  have hnone : get? ⟨o, entries⟩ key = none := get?_eq_none hnew
  rw [insert, within, if_neg hdotted, add, update, hnone, Option.map_some, set, hnone]
  rfl

/-- Keys that do not come twice fill an empty table. -/
theorem fill_new {o : Origin} (ho : o ≠ .dotted) {pairs : List (Key × Value)}
    (hkeys : (pairs.map Prod.fst).Nodup) :
    fill ⟨o, []⟩ (pairs.map fun e => ⟨[], e.1, e.2⟩) = some ⟨o, pairs⟩ := by
  have hfill : pairs.foldlM (fun t e => insert t ⟨[], e.1, e.2⟩) ⟨o, []⟩ =
      some ⟨o, [] ++ pairs.map id⟩ :=
    foldlM_new (fun e _ _ hnew => insert_new ho hnew e.2) (by rwa [List.map_id, List.nil_append])
  rw [fill, List.foldlM_map, hfill, List.map_id, List.nil_append]

/-- A header that is not there yet opens a new table. -/
theorem addSection_new {entries pairs : List (Key × Value)} {key : Key}
    (hnew : key ∉ entries.map Prod.fst) (hkeys : (pairs.map Prod.fst).Nodup) :
    addSection ⟨.header, entries⟩ ⟨some ⟨[], key, false⟩, pairs.map fun e => ⟨[], e.1, e.2⟩⟩ =
      some ⟨.header, entries ++ [(key, .table .header pairs)]⟩ := by
  have hnone : get? ⟨.header, entries⟩ key = none := get?_eq_none hnew
  rw [addSection]
  simp only [within, update, hnone]
  rw [fill_new (by decide) hkeys, Option.map_some, Option.map_some, set, hnone]
  rfl

end Table

/-! ## Documents -/

/-- Tables with their entries, in the order of a document. -/
abbrev Listing := List (Key × List (Key × Value))

namespace Listing

/-- What the lines of the document say. -/
def statements (doc : Listing) : List Statement :=
  doc.flatMap fun t => .header ⟨[], t.1, false⟩ :: t.2.map fun e => .pair ⟨[], e.1, e.2⟩

/-- The whole document as one table. -/
def table (doc : Listing) : Table := ⟨.header, doc.map fun t => (t.1, .table .header t.2)⟩

theorem sections_pairs (pairs : List (Key × Value)) (more : List Statement) :
    sections (pairs.map (fun e => .pair ⟨[], e.1, e.2⟩) ++ more) =
      (pairs.map (fun e => ⟨[], e.1, e.2⟩) ++ (sections more).1, (sections more).2) := by
  induction pairs with
  | nil => rfl
  | cons e pairs ih => rw [List.map_cons, List.cons_append, sections, ih]; rfl

theorem sections_statements (doc : Listing) :
    sections (statements doc) =
      ([], doc.map fun t => ⟨some ⟨[], t.1, false⟩, t.2.map fun e => ⟨[], e.1, e.2⟩⟩) := by
  induction doc with
  | nil => rfl
  | cons t doc ih =>
    rw [statements] at ih
    rw [statements, List.flatMap_cons, List.cons_append, sections, sections_pairs, ih,
      List.append_nil, List.map_cons]

theorem ofSections_listing {doc : Listing} (htables : (doc.map Prod.fst).Nodup)
    (hkeys : ∀ t ∈ doc, (t.2.map Prod.fst).Nodup) :
    Table.ofSections (⟨none, []⟩ ::
      doc.map fun t => ⟨some ⟨[], t.1, false⟩, t.2.map fun e => ⟨[], e.1, e.2⟩⟩) =
      some (table doc) := by
  have hadd : doc.foldlM (fun r t => Table.addSection r
      ⟨some ⟨[], t.1, false⟩, t.2.map fun e => ⟨[], e.1, e.2⟩⟩) ⟨.header, []⟩ =
      some ⟨.header, [] ++ doc.map fun t => (t.1, Value.table .header t.2)⟩ :=
    Table.foldlM_new (fun t ht _ hnew => Table.addSection_new hnew (hkeys t ht)) (by
      rw [List.nil_append, List.map_map]
      exact htables)
  have hnone : Table.addSection ⟨.header, []⟩ ⟨none, []⟩ = some ⟨.header, []⟩ := rfl
  rw [Table.ofSections, List.foldlM_cons, hnone, Option.bind_eq_bind, Option.bind_some,
    List.foldlM_map]
  exact hadd

/-- Lines that list tables and entries, none of them twice, are read as these tables. -/
theorem read?_lines {doc : Listing} (htables : (doc.map Prod.fst).Nodup)
    (hkeys : ∀ t ∈ doc, (t.2.map Prod.fst).Nodup) {lines : List (List Char)}
    {ss : List (Option Statement)} (hlines : List.Forall₂ Says lines ss)
    (hdoc : ss.filterMap id = statements doc)
    (hmark : (lines.flatMap (· ++ ['\n'])).head? ≠ some '\ufeff') :
    read? (lines.flatMap (· ++ ['\n'])) = some (table doc) := by
  have hread := statements?_lines hlines (Nat.le_refl _)
  rw [hdoc] at hread
  generalize lines.flatMap (· ++ ['\n']) = cs at hmark hread ⊢
  rw [read?]
  · simp only [hread, Option.bind_eq_bind, Option.bind_some, sections_statements,
      ofSections_listing htables hkeys]
  · rintro more rfl
    exact hmark rfl

end Listing

end SqlTokens.Toml
