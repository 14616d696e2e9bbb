-- What searching a text answers, said without the search. A pattern is found at the
-- least place at which it stands. A run of characters ends where the next one is
-- of another sort.
import SqlTokens.Text.Find

namespace SqlTokens.Text

/-! ## The first occurrence -/

theorem find?_cons (pat : List Char) (c : Char) (cs : List Char) :
    find? pat (c :: cs) = if pat.isPrefixOf (c :: cs) then some 0 else (find? pat cs).map (· + 1) :=
  rfl

theorem prefix_of_find? {pat cs : List Char} {n : Nat} (h : find? pat cs = some n) :
    pat <+: cs.drop n := by
  induction cs generalizing n with
  | nil =>
    simp only [find?] at h
    split at h
    · rename_i he
      rw [List.isEmpty_iff.1 he]
      exact List.nil_prefix
    · cases h
  | cons c cs ih =>
    rw [find?_cons] at h
    split at h
    · rename_i hp
      cases h
      exact List.isPrefixOf_iff_prefix.1 hp
    · obtain ⟨m, hm, rfl⟩ := Option.map_eq_some_iff.1 h
      exact ih hm

theorem not_prefix_of_lt_find? {pat cs : List Char} {n : Nat} (h : find? pat cs = some n) :
    ∀ m < n, ¬ pat <+: cs.drop m := by
  induction cs generalizing n with
  | nil =>
    simp only [find?] at h
    split at h
    · cases h
      intro m hm
      exact absurd hm (Nat.not_lt_zero m)
    · cases h
  | cons c cs ih =>
    rw [find?_cons] at h
    split at h
    · cases h
      intro m hm
      exact absurd hm (Nat.not_lt_zero m)
    · rename_i hp
      obtain ⟨k, hk, rfl⟩ := Option.map_eq_some_iff.1 h
      intro m hm
      cases m with
      | zero => exact fun hpre => hp (List.isPrefixOf_iff_prefix.2 hpre)
      | succ m => exact ih hk m (Nat.lt_of_succ_lt_succ hm)

theorem find?_eq_none_iff {pat cs : List Char} (h : pat ≠ []) :
    find? pat cs = none ↔ ¬ pat <:+: cs := by
  induction cs with
  | nil => simp [find?, h]
  | cons c cs ih =>
    rw [find?_cons, List.infix_cons_iff]
    by_cases hp : pat <+: c :: cs
    · simp [hp]
    · have hq : pat.isPrefixOf (c :: cs) = false := by
        rw [← Bool.not_eq_true, List.isPrefixOf_iff_prefix]; exact hp
      simp [hp, hq, ih]

/-- The answer is the least place at which the pattern stands. -/
theorem find?_eq_some_iff {pat cs : List Char} {n : Nat} (h : pat ≠ []) :
    find? pat cs = some n ↔ pat <+: cs.drop n ∧ ∀ m < n, ¬ pat <+: cs.drop m := by
  constructor
  · intro hf
    exact ⟨prefix_of_find? hf, not_prefix_of_lt_find? hf⟩
  · rintro ⟨hn, hlt⟩
    rcases hf : find? pat cs with _ | k
    · exact absurd (hn.isInfix.trans (List.drop_suffix n cs).isInfix) ((find?_eq_none_iff h).1 hf)
    · have hk := prefix_of_find? hf
      have hkn : ¬ k < n := fun hlt' => hlt k hlt' hk
      have hnk : ¬ n < k := fun hlt' => not_prefix_of_lt_find? hf n hlt' hn
      rw [Nat.le_antisymm (Nat.not_lt.1 hnk) (Nat.not_lt.1 hkn)]

theorem eq_append_of_find? {pat cs : List Char} {n : Nat} (h : find? pat cs = some n) :
    cs = cs.take n ++ (pat ++ cs.drop (n + pat.length)) := by
  obtain ⟨t, ht⟩ := prefix_of_find? h
  have hd : cs.drop (n + pat.length) = t := by
    rw [← List.drop_drop, ← ht, List.drop_left]
  rw [hd, ht, List.take_append_drop]

/-! ## Marks that end a text -/

/-- A single character ends the text in front of its first occurrence. -/
theorem find?_singleton_append {q : Char} {s : List Char} (h : q ∉ s) (rest : List Char) :
    find? [q] (s ++ q :: rest) = some s.length := by
  induction s with
  | nil => simp [find?_cons]
  | cons c s ih =>
    rw [List.mem_cons, not_or] at h
    rw [List.cons_append, find?_cons, ih h.2]
    simp [h.1]

/-- The first occurrence of a single character parts the text. -/
theorem exists_append_of_find?_singleton {q : Char} {cs : List Char} {n : Nat}
    (h : find? [q] cs = some n) : ∃ s rest, cs = s ++ q :: rest ∧ q ∉ s ∧ s.length = n := by
  have hmem : q ∈ cs := by
    rw [eq_append_of_find? h]
    simp
  obtain ⟨s, rest, rfl, hs⟩ := List.eq_append_cons_of_mem hmem
  rw [find?_singleton_append hs] at h
  exact ⟨s, rest, rfl, hs, Option.some.inj h⟩

theorem find?_singleton_eq_none {q : Char} {cs : List Char} (h : q ∉ cs) : find? [q] cs = none := by
  rw [find?_eq_none_iff (List.cons_ne_nil q [])]
  exact fun hi => h (hi.subset (List.mem_singleton.2 rfl))

/-! ## Runs of characters -/

/-- The text does not start with a character of the sort. -/
def Stops (p : Char → Bool) (rest : List Char) : Prop := ∀ c ∈ rest.head?, p c = false

theorem stops_nil (p : Char → Bool) : Stops p [] := by
  intro c hc
  cases hc

theorem stops_cons {p : Char → Bool} {c : Char} {cs : List Char} :
    Stops p (c :: cs) ↔ p c = false := by
  simp [Stops]

theorem stops_dropWhile (p : Char → Bool) (cs : List Char) : Stops p (cs.dropWhile p) := by
  intro c hc
  have h := List.head?_dropWhile_not p cs
  rw [Option.mem_def.1 hc] at h
  exact h

theorem of_mem_takeWhile {p : Char → Bool} {cs : List Char} {c : Char} (h : c ∈ cs.takeWhile p) :
    p c = true :=
  List.all_eq_true.1 (List.all_takeWhile (l := cs)) c h

theorem takeWhile_append_of_stops {p : Char → Bool} {a rest : List Char}
    (ha : ∀ c ∈ a, p c = true) (hr : Stops p rest) : (a ++ rest).takeWhile p = a := by
  rw [List.takeWhile_append_of_pos ha]
  cases rest with
  | nil => simp
  | cons c rest => simp [stops_cons.1 hr]

theorem dropWhile_append_of_stops {p : Char → Bool} {a rest : List Char}
    (ha : ∀ c ∈ a, p c = true) (hr : Stops p rest) : (a ++ rest).dropWhile p = rest := by
  rw [List.dropWhile_append_of_pos ha]
  cases rest with
  | nil => rfl
  | cons c rest => simp [stops_cons.1 hr]

end SqlTokens.Text
