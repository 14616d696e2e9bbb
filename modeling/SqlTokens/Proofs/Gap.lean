-- The gaps between tokens. A gap is a series of blanks and comments, and where
-- it ends, no blank or comment starts. `split` finds the only such gap.
import SqlTokens.Proofs.Search
import SqlTokens.Trivia

namespace SqlTokens.Trivia

/-! ## Blanks and comments -/

/-- A blank or a comment in front of the rest of a text. A line comment ends where its line
or the text ends, a block comment at its first close mark. -/
inductive Element : List Char → List Char → Prop
  | blank {c : Char} {rest : List Char} : isBlank c = true → Element [c] rest
  | line {body rest : List Char} :
      '\n' ∉ body → (rest = [] ∨ rest.head? = some '\n') → Element ('-' :: '-' :: body) rest
  | block {body rest : List Char} :
      ¬ ['*', '/'] <:+: body → Element ('/' :: '*' :: (body ++ ['*', '/'])) rest

/-- Blanks and comments, one behind the other, in front of the rest of a text. -/
inductive Gap : List Char → List Char → Prop
  | nil {rest : List Char} : Gap [] rest
  | cons {e g rest : List Char} : Element e (g ++ rest) → Gap g rest → Gap (e ++ g) rest

/-- No blank and no comment starts the text. -/
def Clear (cs : List Char) : Prop := ∀ e rest, e ++ rest = cs → ¬ Element e rest

theorem Gap.single {e rest : List Char} (h : Element e rest) : Gap e rest := by
  have hg : Gap (e ++ []) rest := Gap.cons (by simpa using h) Gap.nil
  simpa using hg

theorem Gap.append {a b rest : List Char} (ha : Gap a (b ++ rest)) (hb : Gap b rest) :
    Gap (a ++ b) rest := by
  generalize hr : b ++ rest = r at ha
  induction ha with
  | nil => exact hb
  | cons he _ ih =>
    subst hr
    rw [List.append_assoc]
    exact Gap.cons (by simpa using he) (ih rfl)

theorem Element.ne_nil {e rest : List Char} (h : Element e rest) : e ≠ [] := by
  cases h <;> simp

/-! ## The close mark of a block comment -/

/-- No close mark starts inside a text that holds none and has one behind it. -/
theorem not_close_prefix {a rest : List Char} (h : ¬ ['*', '/'] <:+: a) (ha : a ≠ []) :
    ¬ ['*', '/'] <+: a ++ '*' :: '/' :: rest := by
  rintro ⟨t, ht⟩
  match a, ha with
  | [_], _ => simp at ht
  | _ :: _ :: a, _ =>
    simp only [List.cons_append, List.nil_append, List.cons.injEq] at ht
    obtain ⟨rfl, rfl, -⟩ := ht
    exact h ⟨[], a, rfl⟩

theorem find?_close {body : List Char} (h : ¬ ['*', '/'] <:+: body) (rest : List Char) :
    Text.find? ['*', '/'] (body ++ '*' :: '/' :: rest) = some body.length := by
  rw [Text.find?_eq_some_iff (by simp)]
  refine ⟨by simp, ?_⟩
  intro m hm
  rw [List.drop_append_of_le_length (Nat.le_of_lt hm)]
  apply not_close_prefix
  · exact fun hi => h (hi.trans (List.drop_suffix m body).isInfix)
  · simpa using hm

theorem eq_append_of_find?_close {cs : List Char} {n : Nat}
    (h : Text.find? ['*', '/'] cs = some n) :
    cs = cs.take n ++ '*' :: '/' :: cs.drop (n + 2) ∧ ¬ ['*', '/'] <:+: cs.take n := by
  refine ⟨?_, ?_⟩
  · exact Text.eq_append_of_find? h
  · rintro ⟨a, b, hab⟩
    have hlen := congrArg List.length hab
    simp only [List.length_append, List.length_cons, List.length_nil, List.length_take] at hlen
    refine Text.not_prefix_of_lt_find? h a.length (by omega) ?_
    have hcs : cs = a ++ (['*', '/'] ++ (b ++ cs.drop n)) := by
      rw [← List.append_assoc, ← List.append_assoc, hab, List.take_append_drop]
    refine ⟨b ++ cs.drop n, ?_⟩
    conv => rhs; rw [hcs, List.drop_left]

/-! ## The element at the front of a text -/

theorem element_line (body : List Char) :
    element ('-' :: '-' :: body) = 2 + (body.takeWhile (· != '\n')).length := rfl

theorem element_block (body : List Char) :
    element ('/' :: '*' :: body) = ((Text.find? ['*', '/'] body).map (· + 4)).getD 0 := rfl

theorem element_of_blank {c : Char} (h : isBlank c = true) (cs : List Char) :
    element (c :: cs) = 1 + (cs.takeWhile isBlank).length := by
  have hm : c ≠ '-' := by rintro rfl; simp [isBlank] at h
  have hs : c ≠ '/' := by rintro rfl; simp [isBlank] at h
  unfold element
  split
  · rename_i heq; exact absurd (List.cons.inj heq).1 hm
  · rename_i heq; exact absurd (List.cons.inj heq).1 hs
  · rw [List.takeWhile_cons, if_pos h, List.length_cons, Nat.add_comm]

/-- A comment at the front of a text is taken as a whole. -/
theorem element_of_comment {e rest : List Char} (h : Element e rest)
    (hb : ¬ ∃ c, e = [c] ∧ isBlank c = true) : element (e ++ rest) = e.length := by
  cases h with
  | blank hc => exact absurd ⟨_, rfl, hc⟩ hb
  | @line body _ hn hr =>
    have hw : (body ++ rest).takeWhile (· != '\n') = body := by
      apply Text.takeWhile_append_of_stops
      · intro c hc
        have : c ≠ '\n' := fun hcn => hn (hcn ▸ hc)
        simpa using this
      · intro c hc
        rcases hr with rfl | hr
        · cases hc
        · rw [hr] at hc; cases hc; rfl
    rw [List.cons_append, List.cons_append, element_line, hw, List.length_cons, List.length_cons]
    omega
  | @block body _ hc =>
    have hf := find?_close hc rest
    have he : '/' :: '*' :: (body ++ ['*', '/']) ++ rest =
        '/' :: '*' :: (body ++ '*' :: '/' :: rest) := by simp
    rw [he, element_block, hf]
    simp

theorem element_pos {e rest : List Char} (h : Element e rest) : 0 < element (e ++ rest) := by
  by_cases hb : ∃ c, e = [c] ∧ isBlank c = true
  · obtain ⟨c, rfl, hc⟩ := hb
    rw [List.singleton_append, element_of_blank hc]
    omega
  · rw [element_of_comment h hb]
    exact List.length_pos_iff.2 h.ne_nil

theorem gap_of_blanks {g : List Char} (h : ∀ c ∈ g, isBlank c = true) (rest : List Char) :
    Gap g rest := by
  induction g with
  | nil => exact Gap.nil
  | cons c g ih =>
    rw [List.forall_mem_cons] at h
    exact Gap.cons (e := [c]) (Element.blank h.1) (ih h.2)

/-- A line comment goes on to the end of its line. -/
theorem element_of_line (body : List Char) :
    Element ('-' :: '-' :: body.takeWhile (· != '\n')) (body.dropWhile (· != '\n')) := by
  apply Element.line
  · intro hn
    simpa using Text.of_mem_takeWhile hn
  · rcases hd : body.dropWhile (· != '\n') with _ | ⟨c, cs⟩
    · exact Or.inl rfl
    · have hs := Text.stops_dropWhile (· != '\n') body
      rw [hd, Text.stops_cons] at hs
      right
      simpa using hs

/-- What is taken as one element is a gap. -/
theorem exists_gap_element (cs : List Char) :
    ∃ e rest, cs = e ++ rest ∧ e.length = element cs ∧ Gap e rest := by
  unfold element
  split
  · rename_i body
    refine ⟨'-' :: '-' :: body.takeWhile (· != '\n'), body.dropWhile (· != '\n'), ?_, ?_,
      Gap.single (element_of_line body)⟩
    · simp
    · simp only [List.length_cons]; omega
  · rename_i body
    rcases hf : Text.find? ['*', '/'] body with _ | n
    · exact ⟨[], _, rfl, rfl, Gap.nil⟩
    · obtain ⟨hb, hc⟩ := eq_append_of_find?_close hf
      refine ⟨'/' :: '*' :: (body.take n ++ ['*', '/']), body.drop (n + 2), ?_, ?_, ?_⟩
      · simpa using hb
      · simp [Text.find?_le _ _ _ hf]
      · exact Gap.single (Element.block hc)
  · refine ⟨cs.takeWhile isBlank, cs.dropWhile isBlank, List.takeWhile_append_dropWhile.symm, rfl,
      gap_of_blanks ?_ _⟩
    exact fun c hc => Text.of_mem_takeWhile hc

/-- Only where nothing is skipped does no blank or comment start. -/
theorem clear_iff {cs : List Char} : Clear cs ↔ element cs = 0 := by
  constructor
  · intro h
    obtain ⟨e, rest, rfl, hlen, hg⟩ := exists_gap_element cs
    cases hg with
    | nil => exact hlen.symm
    | @cons e g _ he _ => exact absurd he (h e (g ++ rest) (by simp))
  · rintro h e rest rfl he
    exact absurd (element_pos he) (by omega)

/-! ## The trivia in front of a text -/

theorem split_of_pos {cs : List Char} (h : 0 < element cs) :
    split cs = (cs.take (element cs) ++ (split (cs.drop (element cs))).1,
      (split (cs.drop (element cs))).2) := by
  rw [split, dif_pos h]

theorem split_of_clear {cs : List Char} (h : Clear cs) : split cs = ([], cs) := by
  rw [split, dif_neg (by rw [clear_iff.1 h]; omega)]

/-- A run of blanks is skipped at once, and so blank by blank. -/
theorem split_cons_blank {c : Char} (h : isBlank c = true) (cs : List Char) :
    split (c :: cs) = (c :: (split cs).1, (split cs).2) := by
  have hpos : 0 < element (c :: cs) := by rw [element_of_blank h]; omega
  rw [split_of_pos hpos, element_of_blank h, Nat.add_comm, List.take_succ_cons,
    List.drop_succ_cons]
  cases cs with
  | nil => simp
  | cons d ds =>
    by_cases hd : isBlank d = true
    · have hpos' : 0 < element (d :: ds) := by rw [element_of_blank hd]; omega
      have hel : ((d :: ds).takeWhile isBlank).length = element (d :: ds) := by
        rw [element_of_blank hd, List.takeWhile_cons, if_pos hd, List.length_cons, Nat.add_comm]
      rw [hel, split_of_pos hpos']
      rfl
    · simp [hd]

/-- What stands behind an element is skipped as if it stood alone. -/
theorem split_element {e rest : List Char} (h : Element e rest) :
    split (e ++ rest) = (e ++ (split rest).1, (split rest).2) := by
  by_cases hb : ∃ c, e = [c] ∧ isBlank c = true
  · obtain ⟨c, rfl, hc⟩ := hb
    exact split_cons_blank hc rest
  · rw [split_of_pos (element_pos h), element_of_comment h hb, List.take_left, List.drop_left]

theorem split_gap {g rest : List Char} (h : Gap g rest) :
    split (g ++ rest) = (g ++ (split rest).1, (split rest).2) := by
  induction h with
  | nil => rfl
  | cons he _ ih => rw [List.append_assoc, split_element he, ih, List.append_assoc]

theorem gap_split (cs : List Char) : Gap (split cs).1 (split cs).2 := by
  fun_induction split cs with
  | case1 cs h next ih =>
    apply Gap.append _ ih
    rw [split_append]
    obtain ⟨e, rest, rfl, hlen, hg⟩ := exists_gap_element cs
    rw [← hlen, List.take_left, List.drop_left]
    exact hg
  | case2 cs h => exact Gap.nil

theorem clear_split (cs : List Char) : Clear (split cs).2 := by
  fun_induction split cs with
  | case1 cs h next ih => exact ih
  | case2 cs h => exact clear_iff.2 (Nat.eq_zero_of_not_pos h)

/-- The gap in front of a text, with no trivia behind it, is the only one. -/
theorem split_eq_iff {cs g rest : List Char} :
    split cs = (g, rest) ↔ cs = g ++ rest ∧ Gap g rest ∧ Clear rest := by
  constructor
  · intro h
    have hg := gap_split cs
    have hc := clear_split cs
    have ha := split_append cs
    rw [h] at hg hc ha
    exact ⟨ha.symm, hg, hc⟩
  · rintro ⟨rfl, hg, hc⟩
    rw [split_gap hg, split_of_clear hc, List.append_nil]

end SqlTokens.Trivia
