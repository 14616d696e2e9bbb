-- The law of letter case: two texts that differ only in the case of letters have the same
-- tokens at the same places. What differs between two tokens is the case of the letters in
-- an identifier or in a string, and nothing else.
import Mathlib.Data.List.Forall2
import SqlTokens.Proofs.Calls
import SqlTokens.Proofs.Sight

namespace SqlTokens

open Trivia (Gap Clear Element isBlank)
open Lexeme (Reads Longest IsWord IsNumber isWordPart quotes longOperators operators delimiters)

/-! ## Texts that differ in case -/

/-- The texts are the same but for the case of letters. Only the letters A to Z have a case. -/
def SameLetters (a b : List Char) : Prop := a.map Char.toUpper = b.map Char.toUpper

/-- A value with the letters of its text in upper case. -/
def Value.upper : Value → Value
  | .text s => .text (String.ofList (s.toList.map Char.toUpper))
  | v => v

/-- The values differ in case at most, and not at all outside of identifiers and strings. -/
structure SameValue (kind : Kind) (v v' : Value) : Prop where
  upper_eq : v.upper = v'.upper
  value_eq : kind ≠ .identifier → kind ≠ .literal .string → v = v'

/-- The tokens are of one kind and stand at one place, and their values differ in case at most. -/
structure Token.SameShape (t t' : Token) : Prop where
  kind_eq : t.kind = t'.kind
  position_eq : t.position = t'.position
  value : SameValue t.kind t.value t'.value

theorem SameValue.refl (kind : Kind) (v : Value) : SameValue kind v v := ⟨rfl, fun _ _ => rfl⟩

theorem SameLetters.ofText {a b : List Char} (h : SameLetters a b) {kind : Kind}
    (hk : kind = .identifier ∨ kind = .literal .string) :
    SameValue kind (.text (String.ofList a)) (.text (String.ofList b)) := by
  refine ⟨?_, ?_⟩
  · unfold SameLetters at h
    simp only [Value.upper, String.toList_ofList, h]
  · intro hi hs
    rcases hk with rfl | rfl
    · exact absurd rfl hi
    · exact absurd rfl hs

/-! ## One character -/

theorem val_toUpper_of_lower {c : Char} (h : 'a' ≤ c ∧ c ≤ 'z') :
    c.toUpper.val = c.val + ('A'.val - 'a'.val) := by
  rw [show c.toUpper = _ from dif_pos h]

theorem toUpper_of_not_lower {c : Char} (h : ¬ ('a' ≤ c ∧ c ≤ 'z')) : c.toUpper = c := dif_neg h

theorem isAlpha_toUpper_of_lower {c : Char} (h : 'a' ≤ c ∧ c ≤ 'z') : c.toUpper.isAlpha = true := by
  have hval := val_toUpper_of_lower h
  rw [Lexeme.isAlpha_iff]
  simp only [Char.le_def] at *
  grind

/-- Characters that differ in case are letters. -/
theorem eq_or_isAlpha_of_toUpper_eq {c d : Char} (h : c.toUpper = d.toUpper) :
    c = d ∨ c.isAlpha = true ∧ d.isAlpha = true := by
  by_cases hc : 'a' ≤ c ∧ c ≤ 'z'
  · have hca := isAlpha_toUpper_of_lower hc
    by_cases hd : 'a' ≤ d ∧ d ≤ 'z'
    · left
      have hval := congrArg Char.val h
      rw [val_toUpper_of_lower hc, val_toUpper_of_lower hd] at hval
      exact Char.ext (by simpa using hval)
    · right
      rw [h, toUpper_of_not_lower hd] at hca
      exact ⟨Lexeme.isAlpha_iff.2 (Or.inr hc), hca⟩
  · rw [toUpper_of_not_lower hc] at h
    by_cases hd : 'a' ≤ d ∧ d ≤ 'z'
    · right
      rw [h]
      exact ⟨isAlpha_toUpper_of_lower hd, Lexeme.isAlpha_iff.2 (Or.inr hd)⟩
    · left
      rwa [toUpper_of_not_lower hd] at h

theorem eq_of_toUpper_eq {c d : Char} (h : c.toUpper = d.toUpper) (hc : c.isAlpha = false) :
    c = d := by
  rcases eq_or_isAlpha_of_toUpper_eq h with heq | ⟨ha, -⟩
  · exact heq
  · rw [hc] at ha
    cases ha

/-- What is the same for all letters does not depend on their case. -/
theorem apply_eq_of_toUpper_eq {α : Type} {f : Char → α} {x : α}
    (hf : ∀ c, c.isAlpha = true → f c = x) {c d : Char} (h : c.toUpper = d.toUpper) :
    f c = f d := by
  rcases eq_or_isAlpha_of_toUpper_eq h with rfl | ⟨hc, hd⟩
  · rfl
  · rw [hf c hc, hf d hd]

theorem isWordStart_of_isAlpha {c : Char} (h : c.isAlpha = true) :
    Lexeme.isWordStart c = true := by
  rw [Lexeme.isWordStart, h, Bool.true_or]

theorem isWordPart_of_isAlpha {c : Char} (h : c.isAlpha = true) : isWordPart c = true :=
  Lexeme.isWordPart_of_isWordStart (isWordStart_of_isAlpha h)

theorem isDigit_of_isAlpha {c : Char} (h : c.isAlpha = true) : c.isDigit = false := by
  rw [← Bool.not_eq_true, Lexeme.isDigit_iff]
  intro hd
  rw [isAlpha_of_digit hd] at h
  cases h

theorem isAlpha_of_isBlank {c : Char} (h : isBlank c = true) : c.isAlpha = false := by
  rcases eq_of_isBlank h with rfl | rfl | rfl | rfl <;> rfl

theorem Position.step_eq_of_toUpper_eq (p : Position) {c d : Char} (h : c.toUpper = d.toUpper) :
    p.step c = p.step d := by
  apply apply_eq_of_toUpper_eq (x := ⟨p.line, p.column + 1, p.offset + 1⟩) _ h
  intro c hc
  rw [step, if_neg]
  rintro rfl
  cases hc

/-! ## Parts of a text -/

namespace SameLetters

theorem symm {a b : List Char} (h : SameLetters a b) : SameLetters b a := Eq.symm h

theorem append {a a' b b' : List Char} (ha : SameLetters a a') (hb : SameLetters b b') :
    SameLetters (a ++ b) (a' ++ b') := by
  unfold SameLetters at *
  rw [List.map_append, List.map_append, ha, hb]

theorem exists_append {a b r : List Char} (h : SameLetters (a ++ b) r) :
    ∃ a' b', r = a' ++ b' ∧ SameLetters a a' ∧ SameLetters b b' := by
  unfold SameLetters at *
  rw [List.map_append, eq_comm, List.map_eq_append_iff] at h
  obtain ⟨a', b', hr, ha, hb⟩ := h
  exact ⟨a', b', hr, ha.symm, hb.symm⟩

theorem exists_cons {c : Char} {cs r : List Char} (h : SameLetters (c :: cs) r) :
    ∃ c' cs', r = c' :: cs' ∧ c.toUpper = c'.toUpper ∧ SameLetters cs cs' := by
  unfold SameLetters at *
  rw [List.map_cons, eq_comm, List.map_eq_cons_iff] at h
  obtain ⟨c', cs', hr, hc, hcs⟩ := h
  exact ⟨c', cs', hr, hc.symm, hcs.symm⟩

theorem exists_cons_of_isAlpha {c : Char} {cs r : List Char} (h : SameLetters (c :: cs) r)
    (hc : c.isAlpha = false) : ∃ cs', r = c :: cs' ∧ SameLetters cs cs' := by
  obtain ⟨c', cs', rfl, hcc, hcs⟩ := h.exists_cons
  obtain rfl := eq_of_toUpper_eq hcc hc
  exact ⟨cs', rfl, hcs⟩

theorem eq_nil {r : List Char} (h : SameLetters [] r) : r = [] := by
  unfold SameLetters at h
  simpa using h.symm

/-- Texts without letters have no case. -/
theorem eq_of_isAlpha {a b : List Char} (h : SameLetters a b)
    (ha : ∀ c ∈ a, c.isAlpha = false) : a = b := by
  induction a generalizing b with
  | nil => exact h.eq_nil.symm
  | cons c a ih =>
    rw [List.forall_mem_cons] at ha
    obtain ⟨b', rfl, hb⟩ := h.exists_cons_of_isAlpha ha.1
    rw [ih hb ha.2]

theorem exists_mem {a b : List Char} (h : SameLetters a b) {d : Char} (hd : d ∈ b) :
    ∃ c ∈ a, c.toUpper = d.toUpper := by
  have hmem : d.toUpper ∈ b.map Char.toUpper := List.mem_map_of_mem hd
  rw [← h] at hmem
  exact List.mem_map.1 hmem

theorem not_mem {a b : List Char} (h : SameLetters a b) {c : Char} (hc : c.isAlpha = false)
    (hn : c ∉ a) : c ∉ b := by
  intro hb
  obtain ⟨d, hd, heq⟩ := h.exists_mem hb
  rw [eq_of_toUpper_eq heq.symm hc] at hn
  exact hn hd

theorem isPrefix {a b s : List Char} (h : SameLetters a b) (hs : ∀ c ∈ s, c.isAlpha = false)
    (hp : s <+: a) : s <+: b := by
  obtain ⟨t, rfl⟩ := hp
  obtain ⟨s', t', rfl, hss, -⟩ := h.exists_append
  rw [hss.eq_of_isAlpha hs]
  exact List.prefix_append _ _

theorem isInfix {a b s : List Char} (h : SameLetters a b) (hs : ∀ c ∈ s, c.isAlpha = false)
    (hi : s <:+: a) : s <:+: b := by
  obtain ⟨front, rest, rfl⟩ := hi
  rw [List.append_assoc] at h
  obtain ⟨front', r, rfl, -, hr⟩ := h.exists_append
  obtain ⟨t, rfl⟩ := hr.isPrefix hs (List.prefix_append _ _)
  exact ⟨front', t, by rw [List.append_assoc]⟩

theorem stops {a b : List Char} (h : SameLetters a b) {p : Char → Bool} {x : Bool}
    (hp : ∀ c, c.isAlpha = true → p c = x) (hs : Text.Stops p a) : Text.Stops p b := by
  cases b with
  | nil => exact Text.stops_nil p
  | cons d b =>
    obtain ⟨c, a, rfl, hdc, -⟩ := h.symm.exists_cons
    rw [Text.stops_cons] at hs ⊢
    rwa [apply_eq_of_toUpper_eq hp hdc]

theorem past_eq (p : Position) {a b : List Char} (h : SameLetters a b) : p.past a = p.past b := by
  induction a generalizing p b with
  | nil => rw [h.eq_nil]
  | cons c a ih =>
    obtain ⟨d, b, rfl, hcd, hab⟩ := h.exists_cons
    rw [Position.past_cons, Position.past_cons, p.step_eq_of_toUpper_eq hcd, ih _ hab]

/-- No scanner sees the case of what stands behind a lexeme. -/
theorem seenBefore {a b : List Char} (h : SameLetters a b) : SeenBefore a b := by
  refine ⟨?_, ?_, ?_⟩
  · exact h.stops fun _ => isWordPart_of_isAlpha
  · exact h.stops fun _ => isDigit_of_isAlpha
  · exact fun s hs => h.symm.isPrefix fun c hc => (hs c hc).2

theorem isWord {w w' : List Char} (h : SameLetters w w') (hw : IsWord w) : IsWord w' := by
  obtain ⟨c, cs, rfl, hc, hcs⟩ := hw
  obtain ⟨c', cs', rfl, hcc, hcs'⟩ := h.exists_cons
  refine ⟨c', cs', rfl, ?_, ?_⟩
  · rw [← Lexeme.isWordStart_iff] at hc ⊢
    rwa [← apply_eq_of_toUpper_eq (fun c => isWordStart_of_isAlpha) hcc]
  · intro d hd
    obtain ⟨x, hx, hxd⟩ := hcs'.exists_mem hd
    have hpart := hcs x hx
    rw [← Lexeme.isWordPart_iff] at hpart ⊢
    rwa [← apply_eq_of_toUpper_eq (fun c => isWordPart_of_isAlpha) hxd]

end SameLetters

/-! ## Gaps -/

theorem Trivia.Element.sameLetters {e rest e' rest' : List Char} (h : Element e rest)
    (he : SameLetters e e') (hr : SameLetters rest rest') : Element e' rest' := by
  cases h with
  | @blank c _ hc =>
    obtain ⟨cs, rfl, hcs⟩ := he.exists_cons_of_isAlpha (isAlpha_of_isBlank hc)
    rw [hcs.eq_nil]
    exact .blank hc
  | @line body _ hn hend =>
    obtain ⟨cs, rfl, hcs⟩ := he.exists_cons_of_isAlpha rfl
    obtain ⟨body', rfl, hbody⟩ := hcs.exists_cons_of_isAlpha rfl
    refine .line (hbody.not_mem rfl hn) ?_
    rcases hend with rfl | hend
    · exact Or.inl hr.eq_nil
    · obtain ⟨more, rfl⟩ := List.head?_eq_some_iff.1 hend
      obtain ⟨more', rfl, -⟩ := hr.exists_cons_of_isAlpha rfl
      exact Or.inr rfl
  | @block body _ hc =>
    obtain ⟨r, rfl, hr'⟩ := he.exists_cons_of_isAlpha rfl
    obtain ⟨r', rfl, hr''⟩ := hr'.exists_cons_of_isAlpha rfl
    obtain ⟨body', close, rfl, hbody, hclose⟩ := hr''.exists_append
    have hmarks : ∀ c ∈ ['*', '/'], c.isAlpha = false := by simp
    rw [← hclose.eq_of_isAlpha hmarks]
    exact .block fun hi => hc (hbody.symm.isInfix hmarks hi)

theorem Trivia.Gap.sameLetters {g rest g' rest' : List Char} (h : Gap g rest)
    (hg : SameLetters g g') (hr : SameLetters rest rest') : Gap g' rest' := by
  induction h generalizing g' rest' with
  | nil =>
    rw [hg.eq_nil]
    exact .nil
  | cons he _ ih =>
    obtain ⟨e', g', rfl, hee, hgg⟩ := hg.exists_append
    exact .cons (he.sameLetters hee (hgg.append hr)) (ih hgg hr)

theorem Trivia.Clear.sameLetters {cs cs' : List Char} (h : Clear cs) (hs : SameLetters cs cs') :
    Clear cs' := by
  rintro e' rest' rfl he'
  obtain ⟨e, rest, rfl, he, hr⟩ := hs.symm.exists_append
  exact h e rest rfl (he'.sameLetters he hr)

/-! ## Lexemes -/

theorem isAlpha_of_not_letter {c : Char} (h : ¬ Lexeme.Letter c) : c.isAlpha = false := by
  rw [← Bool.not_eq_true]
  exact fun hc => h (Lexeme.isWordStart_iff.1 (isWordStart_of_isAlpha hc))

theorem isAlpha_of_mem_quotes {q : Char} (h : q ∈ quotes.map (·.1)) : q.isAlpha = false := by
  have hquotes : ∀ entry ∈ quotes, entry.1.isAlpha = false := by decide
  obtain ⟨entry, hmem, rfl⟩ := List.mem_map.1 h
  exact hquotes entry hmem

theorem isAlpha_of_isNumber {w : List Char} (h : IsNumber w) : ∀ c ∈ w, c.isAlpha = false :=
  fun c hc => isAlpha_of_digit (h.2 c hc)

theorem isAlpha_of_fraction {a b : List Char} (ha : IsNumber a) (hb : IsNumber b) :
    ∀ c ∈ a ++ '.' :: b, c.isAlpha = false := by
  intro c hc
  rw [List.mem_append, List.mem_cons] at hc
  rcases hc with hc | rfl | hc
  · exact isAlpha_of_isNumber ha c hc
  · rfl
  · exact isAlpha_of_isNumber hb c hc

/-- What stands in quotes becomes a word or a text, whose letters may be in another case. -/
theorem eq_identifier_or_string_of_mem_quotes {q : Char} {kind : Kind} (h : (q, kind) ∈ quotes) :
    kind = .identifier ∨ kind = .literal .string := by
  have hquotes : ∀ entry ∈ quotes, entry.2 = .identifier ∨ entry.2 = .literal .string := by decide
  exact hquotes _ h

theorem Lexeme.Reads.quoted_sameLetters {q : Char} {kind : Kind} {s w rest : List Char}
    (hq : (q, kind) ∈ quotes) (hn : q ∉ s) (hs : SameLetters (q :: (s ++ [q])) w) :
    ∃ value, Reads (w ++ rest) w kind value ∧
      SameValue kind (.text (String.ofList s)) value := by
  have ha := isAlpha_of_mem_quotes (List.mem_map_of_mem (f := (·.1)) hq)
  obtain ⟨v, rfl, hv⟩ := hs.exists_cons_of_isAlpha ha
  obtain ⟨s', close, rfl, hs', hclose⟩ := hv.exists_append
  obtain ⟨more, rfl, hnil⟩ := hclose.exists_cons_of_isAlpha ha
  obtain rfl := hnil.eq_nil
  have htext : q :: (s' ++ [q]) ++ rest = q :: (s' ++ q :: rest) := by simp
  rw [htext]
  exact ⟨_, .quoted hq (hs'.not_mem ha hn),
    hs'.ofText (eq_identifier_or_string_of_mem_quotes hq)⟩

/-- A lexeme in another case is a lexeme of the same kind. Only words and quoted texts have
letters in them. -/
theorem Lexeme.Reads.exists_sameValue {w w' rest : List Char} {kind : Kind} {value : Value}
    (h : Reads (w ++ rest) w kind value) (hs : SameLetters w w') :
    ∃ value', Reads (w' ++ rest) w' kind value' ∧ SameValue kind value value' := by
  have hword : Longest IsWord (w ++ rest) w → Longest IsWord (w' ++ rest) w' := fun hl =>
    longest_isWord.2 ⟨hs.isWord hl.has_shape, (longest_isWord.1 hl).2⟩
  have hupper : w.map Char.toUpper = w'.map Char.toUpper := hs
  -- Without letters the lexeme is the same, and so is its value.
  have hsame : (∀ c ∈ w, c.isAlpha = false) →
      ∃ value', Reads (w' ++ rest) w' kind value' ∧ SameValue kind value value' := by
    intro hw
    rw [← hs.eq_of_isAlpha hw]
    exact ⟨value, h, .refl kind value⟩
  generalize hr : w ++ rest = r at h
  cases h with
  | keyword hl hk =>
    subst hr
    rw [hupper] at hk ⊢
    exact ⟨_, .keyword (hword hl) hk, .refl _ _⟩
  | identifier hl hk =>
    subst hr
    rw [hupper] at hk
    exact ⟨_, .identifier (hword hl) hk, hs.ofText (Or.inl rfl)⟩
  | quoted hq hn => exact quoted_sameLetters hq hn hs
  | integer hl _ _ => exact hsame (isAlpha_of_isNumber hl.has_shape)
  | integerTooLarge hl _ _ => exact hsame (isAlpha_of_isNumber hl.has_shape)
  | float ha hb _ => exact hsame (isAlpha_of_fraction ha.has_shape hb.has_shape)
  | floatTooLarge ha hb _ => exact hsame (isAlpha_of_fraction ha.has_shape hb.has_shape)
  | longOperator hmem _ =>
    have hmarks : ∀ entry ∈ longOperators, entry.1.all (!·.isAlpha) = true := by decide
    exact hsame (by simpa using hmarks _ hmem)
  | operator hmem _ =>
    have hmarks : ∀ entry ∈ operators, entry.1.isAlpha = false := by decide
    exact hsame (List.forall_mem_singleton.2 (hmarks _ hmem))
  | delimiter hmem =>
    have hmarks : ∀ entry ∈ delimiters, entry.1.isAlpha = false := by decide
    exact hsame (List.forall_mem_singleton.2 (hmarks _ hmem))
  | unexpected ha => exact hsame (List.forall_mem_singleton.2 (isAlpha_of_not_letter ha.not_letter))

theorem Lexeme.Reads.sameLetters {w rest w' rest' : List Char} {kind : Kind} {value : Value}
    (h : Reads (w ++ rest) w kind value) (hw : SameLetters w w') (hr : SameLetters rest rest') :
    ∃ value', Reads (w' ++ rest') w' kind value' ∧ SameValue kind value value' := by
  have hrest : Reads (w ++ rest') w kind value := by
    apply h.seenBefore hr.seenBefore
    intro q hq _ _ hn
    exact hr.not_mem (isAlpha_of_mem_quotes hq) hn
  exact hrest.exists_sameValue hw

/-! ## Whole texts -/

/-- The cut of a text is also the cut of the text in another case. -/
theorem Cut.sameLetters {p : Position} {cs cs' : List Char} {ps : List Piece} (h : Cut p cs ps)
    (hs : SameLetters cs cs') :
    ∃ ps', Cut p cs' ps' ∧
      List.Forall₂ Token.SameShape (ps.map (·.token)) (ps'.map (·.token)) := by
  induction h generalizing cs' with
  | done hg => exact ⟨[], .done (hg.sameLetters hs rfl), .nil⟩
  | @piece p g w rest kind value ps hg hc hw _ ih =>
    obtain ⟨g', r, rfl, hgg, hr⟩ := hs.exists_append
    obtain ⟨w', rest', rfl, hww, hrest⟩ := hr.exists_append
    obtain ⟨value', hw', hvalue⟩ := hw.sameLetters hww hrest
    obtain ⟨ps', hcut, hshapes⟩ := ih hrest
    rw [(hgg.append hww).past_eq p] at hcut
    refine ⟨_, .piece (hg.sameLetters hgg hr) (hc.sameLetters hr) hw' hcut, .cons ?_ hshapes⟩
    exact ⟨rfl, hgg.past_eq p, hvalue⟩

theorem forall₂_sameShape_stream {cs cs' : List Char} (h : SameLetters cs cs') :
    List.Forall₂ Token.SameShape (stream cs) (stream cs') := by
  obtain ⟨ps', hcut, hshapes⟩ := (pieces_eq_iff.1 (rfl : pieces cs = _)).sameLetters h
  rw [← map_token_pieces, ← map_token_pieces, pieces_eq_iff.2 hcut]
  exact hshapes

/-! ## The laws -/

/-- Two texts that differ only in the case of letters have tokens of the same kinds at the same
places. Their values are the same in upper case, and outside of identifiers and strings they are
the same as they stand. -/
theorem the_case_of_letters_does_not_matter {cs cs' : List Char} {lx lx' : Lexer}
    (h : SameLetters cs cs') (ho : lx.Opened cs) (ho' : lx'.Opened cs') :
    List.Forall₂ Token.SameShape lx.collect.value lx'.collect.value := by
  rw [Lexer.collect_value ho.ahead_eq, Lexer.collect_value ho'.ahead_eq, ho.cursor_eq,
    ho'.cursor_eq]
  exact forall₂_sameShape_stream h

/-- A keyword, a quoted name, a string with a letter that has no case here, an error, and a
comment. -/
theorem the_case_of_letters_in_a_line_does_not_matter :
    SameLetters "fRom \"aB\" 'ſX' é --q".toList "From \"Ab\" 'ſx' é --Q".toList ∧
      Lexer.withSettings "From \"Ab\" 'ſx' é --Q".toList { maxInputLength := some 20 } =
        .ok ⟨.ofText "From \"Ab\" 'ſx' é --Q".toList, { maxInputLength := some 20 }, .unread⟩ ∧
      List.Forall₂ Token.SameShape (Lexer.ofText "fRom \"aB\" 'ſX' é --q".toList).collect.value
        (Lexer.mk (.ofText "From \"Ab\" 'ſx' é --Q".toList) { maxInputLength := some 20 }
          .unread).collect.value := by
  have hletters : SameLetters "fRom \"aB\" 'ſX' é --q".toList "From \"Ab\" 'ſx' é --Q".toList := by
    unfold SameLetters
    decide
  refine ⟨hletters, rfl, ?_⟩
  exact the_case_of_letters_does_not_matter hletters .ofText
    (.withSettings (s := { maxInputLength := some 20 }) rfl)

end SqlTokens
