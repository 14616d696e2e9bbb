-- The grammar of lexemes: which front of a text is the next lexeme, and what token
-- it makes. The rules say this without a scanner, and the scanner follows them.
import SqlTokens.Proofs.Search
import SqlTokens.Stream

namespace SqlTokens.Lexeme

/-! ## Classes of characters and of texts -/

/-- A letter from A to Z in either case, or an underscore. -/
def Letter (c : Char) : Prop := ('a' ≤ c ∧ c ≤ 'z') ∨ ('A' ≤ c ∧ c ≤ 'Z') ∨ c = '_'

/-- A digit from 0 to 9. -/
def Digit (c : Char) : Prop := '0' ≤ c ∧ c ≤ '9'

/-- A letter with letters and digits behind it. -/
def IsWord (w : List Char) : Prop :=
  ∃ c cs, w = c :: cs ∧ Letter c ∧ ∀ x ∈ cs, Letter x ∨ Digit x

instance (c : Char) : Decidable (Letter c) :=
  inferInstanceAs (Decidable (('a' ≤ c ∧ c ≤ 'z') ∨ ('A' ≤ c ∧ c ≤ 'Z') ∨ c = '_'))

instance (c : Char) : Decidable (Digit c) := inferInstanceAs (Decidable ('0' ≤ c ∧ c ≤ '9'))

/-- One digit or more. -/
def IsNumber (w : List Char) : Prop := w ≠ [] ∧ ∀ x ∈ w, Digit x

/-- Of all fronts of a text that have a shape, the longest. -/
structure Longest (shape : List Char → Prop) (r w : List Char) : Prop where
  front : w <+: r
  has_shape : shape w
  longest : ∀ v, v <+: r → shape v → v.length ≤ w.length

/-- A point and a digit follow the front of a text. -/
def HasFraction (r w : List Char) : Prop := ∃ d rest, r = w ++ '.' :: d :: rest ∧ Digit d

/-! ## Marks -/

/-- The quotes, with the kind of what stands between two of them. -/
def quotes : List (Char × Kind) := [('"', .identifier), ('\'', .literal .string)]

/-- The operators of two characters. -/
def longOperators : List (List Char × Operator) :=
  [(['<', '='], .lessEqual), (['>', '='], .greaterEqual), (['<', '>'], .notEqual),
   (['!', '='], .notEqual)]

/-- The operators of one character. -/
def operators : List (Char × Operator) :=
  [('=', .equal), ('<', .less), ('>', .greater), ('+', .plus), ('-', .minus), ('*', .multiply),
   ('/', .divide)]

def delimiters : List (Char × Delimiter) :=
  [('(', .leftParen), (')', .rightParen), (',', .comma), (';', .semicolon), ('.', .dot)]

/-- Nothing else starts with the character: it is no letter, digit, operator or delimiter, no
operator of two characters starts with it here, and if it is a quote, it has no partner. -/
structure Alone (c : Char) (rest : List Char) : Prop where
  not_letter : ¬ Letter c
  not_digit : ¬ Digit c
  no_partner : ∀ kind, (c, kind) ∈ quotes → c ∉ rest
  no_longOperator : ∀ s sign, (s, sign) ∈ longOperators → ¬ s <+: c :: rest
  no_operator : ∀ sign, (c, sign) ∉ operators
  no_delimiter : ∀ mark, (c, mark) ∉ delimiters

/-! ## The rules -/

/-- In a text `r` the next lexeme is `w`, and it makes a token of this kind and value. -/
inductive Reads : List Char → List Char → Kind → Value → Prop
  | keyword {r w : List Char} {word : Keyword} :
      Longest IsWord r w → (String.ofList (w.map Char.toUpper), word) ∈ Keyword.table →
      Reads r w (.keyword word) (.text (String.ofList (w.map Char.toUpper)))
  | identifier {r w : List Char} :
      Longest IsWord r w →
      (∀ word, (String.ofList (w.map Char.toUpper), word) ∉ Keyword.table) →
      Reads r w .identifier (.text (String.ofList w))
  | quoted {q : Char} {kind : Kind} {s rest : List Char} :
      (q, kind) ∈ quotes → q ∉ s →
      Reads (q :: (s ++ q :: rest)) (q :: (s ++ [q])) kind (.text (String.ofList s))
  | integer {r w : List Char} :
      Longest IsNumber r w → ¬ HasFraction r w → Numeral.valueOf w ≤ Numeral.maxInteger →
      Reads r w (.literal .integer) (.integer (Numeral.valueOf w))
  | integerTooLarge {r w : List Char} :
      Longest IsNumber r w → ¬ HasFraction r w → Numeral.maxInteger < Numeral.valueOf w →
      Reads r w .error (.text (String.ofList ("Integer literal out of range: ".toList ++ w)))
  | float {a b rest : List Char} {x : Binary64} :
      Longest IsNumber (a ++ '.' :: rest) a → Longest IsNumber rest b →
      Binary64.ofRatio? false (Numeral.valueOf (a ++ b)) (Nat.pow 10 b.length) = some x →
      Reads (a ++ '.' :: rest) (a ++ '.' :: b) (.literal .float) (.float x)
  | floatTooLarge {a b rest : List Char} :
      Longest IsNumber (a ++ '.' :: rest) a → Longest IsNumber rest b →
      Binary64.ofRatio? false (Numeral.valueOf (a ++ b)) (Nat.pow 10 b.length) = none →
      Reads (a ++ '.' :: rest) (a ++ '.' :: b) .error
        (.text (String.ofList ("Float literal out of range: ".toList ++ (a ++ '.' :: b))))
  | longOperator {r s : List Char} {sign : Operator} :
      (s, sign) ∈ longOperators → s <+: r →
      Reads r s (.operator sign) (.text (String.ofList s))
  | operator {c : Char} {rest : List Char} {sign : Operator} :
      (c, sign) ∈ operators → (∀ s sign, (s, sign) ∈ longOperators → ¬ s <+: c :: rest) →
      Reads (c :: rest) [c] (.operator sign) (.text (String.ofList [c]))
  | delimiter {c : Char} {rest : List Char} {mark : Delimiter} :
      (c, mark) ∈ delimiters →
      Reads (c :: rest) [c] (.delimiter mark) (.text (String.ofList [c]))
  | unexpected {c : Char} {rest : List Char} :
      Alone c rest →
      Reads (c :: rest) [c] .error
        (.text (String.ofList ("Unexpected character: '".toList ++ [c, '\''])))

/-! ## Classes as the scanner tests them -/

theorem isDigit_iff {c : Char} : c.isDigit = true ↔ Digit c := by
  simp only [Digit, Char.isDigit, Char.le_def, Bool.and_eq_true, decide_eq_true_eq, ge_iff_le]

theorem isAlpha_iff {c : Char} :
    c.isAlpha = true ↔ ('A' ≤ c ∧ c ≤ 'Z') ∨ ('a' ≤ c ∧ c ≤ 'z') := by
  have hupper : c.isUpper = true ↔ 'A' ≤ c ∧ c ≤ 'Z' := decide_eq_true_iff
  have hlower : c.isLower = true ↔ 'a' ≤ c ∧ c ≤ 'z' := by
    rw [show c.isLower = (decide ('a' ≤ c) && decide (c ≤ 'z')) from rfl, Bool.and_eq_true,
      decide_eq_true_eq, decide_eq_true_eq]
  have halpha : c.isAlpha = (c.isUpper || c.isLower) := rfl
  rw [halpha, Bool.or_eq_true, hupper, hlower]

theorem isWordStart_iff {c : Char} : isWordStart c = true ↔ Letter c := by
  rw [isWordStart, Bool.or_eq_true, beq_iff_eq, isAlpha_iff, Letter, or_assoc, or_left_comm]

theorem isWordPart_iff {c : Char} : isWordPart c = true ↔ Letter c ∨ Digit c := by
  rw [← isWordStart_iff, ← isDigit_iff]
  simp only [isWordStart, isWordPart, Char.isAlphanum, Bool.or_eq_true, or_right_comm]

/-- A shape that is a matter of single characters is longest where the next character is of
another sort. -/
theorem longest_iff {shape : List Char → Prop} {p : Char → Bool}
    (hall : ∀ v, shape v → ∀ c ∈ v, p c = true)
    (hext : ∀ v c, shape v → p c = true → shape (v ++ [c])) {w rest : List Char} :
    Longest shape (w ++ rest) w ↔ shape w ∧ Text.Stops p rest := by
  constructor
  · intro h
    refine ⟨h.has_shape, ?_⟩
    cases rest with
    | nil => exact Text.stops_nil p
    | cons c rest =>
      rw [Text.stops_cons, ← Bool.not_eq_true]
      intro hc
      have hlen := h.longest (w ++ [c]) ⟨rest, by simp⟩ (hext w c h.has_shape hc)
      rw [List.length_append, List.length_singleton] at hlen
      omega
  · rintro ⟨hw, hs⟩
    refine ⟨List.prefix_append w rest, hw, ?_⟩
    intro v hv hshape
    have htake : v <+: (w ++ rest).takeWhile p := by
      obtain ⟨t, ht⟩ := hv
      rw [← ht, List.takeWhile_append_of_pos (hall v hshape)]
      exact List.prefix_append _ _
    rw [Text.takeWhile_append_of_stops (hall w hw) hs] at htake
    exact htake.length_le

theorem isWordPart_of_isWord {w : List Char} (h : IsWord w) : ∀ c ∈ w, isWordPart c = true := by
  obtain ⟨c, cs, rfl, hc, hcs⟩ := h
  intro x hx
  rw [isWordPart_iff]
  rcases List.mem_cons.1 hx with rfl | hx
  · exact Or.inl hc
  · exact hcs x hx

theorem longest_isWord {w rest : List Char} :
    Longest IsWord (w ++ rest) w ↔ IsWord w ∧ Text.Stops isWordPart rest := by
  apply longest_iff fun v => isWordPart_of_isWord
  rintro v x ⟨c, cs, rfl, hc, hcs⟩ hx
  refine ⟨c, cs ++ [x], rfl, hc, ?_⟩
  intro y hy
  rcases List.mem_append.1 hy with hy | hy
  · exact hcs y hy
  · rw [List.mem_singleton.1 hy]
    exact isWordPart_iff.1 hx

theorem isDigit_of_isNumber {w : List Char} (h : IsNumber w) : ∀ c ∈ w, c.isDigit = true :=
  fun c hc => isDigit_iff.2 (h.2 c hc)

theorem isNumber_of_isDigit {w : List Char} (hne : w ≠ []) (h : ∀ c ∈ w, c.isDigit = true) :
    IsNumber w :=
  ⟨hne, fun c hc => isDigit_iff.1 (h c hc)⟩

theorem longest_isNumber {w rest : List Char} :
    Longest IsNumber (w ++ rest) w ↔ IsNumber w ∧ Text.Stops Char.isDigit rest := by
  apply longest_iff fun v => isDigit_of_isNumber
  rintro v c ⟨_, hv⟩ hc
  refine ⟨by simp, ?_⟩
  intro y hy
  rcases List.mem_append.1 hy with hy | hy
  · exact hv y hy
  · rw [List.mem_singleton.1 hy]
    exact isDigit_iff.1 hc

theorem longest_takeWhile_isWord {c : Char} (h : Letter c) (cs : List Char) :
    Longest IsWord (c :: cs) ((c :: cs).takeWhile isWordPart) := by
  have hw : IsWord ((c :: cs).takeWhile isWordPart) := by
    refine ⟨c, cs.takeWhile isWordPart, ?_, h, ?_⟩
    · rw [List.takeWhile_cons, if_pos (isWordPart_iff.2 (Or.inl h))]
    · exact fun x hx => isWordPart_iff.1 (Text.of_mem_takeWhile hx)
  have hl := longest_isWord.2 ⟨hw, Text.stops_dropWhile isWordPart (c :: cs)⟩
  rwa [List.takeWhile_append_dropWhile] at hl

theorem longest_takeWhile_isNumber {c : Char} (h : Digit c) (cs : List Char) :
    Longest IsNumber (c :: cs) ((c :: cs).takeWhile Char.isDigit) := by
  have hw : IsNumber ((c :: cs).takeWhile Char.isDigit) := by
    refine isNumber_of_isDigit ?_ fun x hx => Text.of_mem_takeWhile hx
    rw [List.takeWhile_cons, if_pos (isDigit_iff.2 h)]
    exact List.cons_ne_nil _ _
  have hl := longest_isNumber.2 ⟨hw, Text.stops_dropWhile Char.isDigit (c :: cs)⟩
  rwa [List.takeWhile_append_dropWhile] at hl

/-! ## In front of every character a rule applies -/

theorem exists_reads_letter {c : Char} (h : Letter c) (cs : List Char) :
    ∃ w kind value, Reads (c :: cs) w kind value := by
  have hl := longest_takeWhile_isWord h cs
  generalize (c :: cs).takeWhile isWordPart = w at hl
  by_cases hk : ∃ word, (String.ofList (w.map Char.toUpper), word) ∈ Keyword.table
  · obtain ⟨word, hword⟩ := hk
    exact ⟨_, _, _, Reads.keyword hl hword⟩
  · exact ⟨_, _, _, Reads.identifier hl fun word hword => hk ⟨word, hword⟩⟩

theorem exists_reads_digit {c : Char} (h : Digit c) (cs : List Char) :
    ∃ w kind value, Reads (c :: cs) w kind value := by
  have hl := longest_takeWhile_isNumber h cs
  generalize (c :: cs).takeWhile Char.isDigit = w at hl
  by_cases hf : HasFraction (c :: cs) w
  · obtain ⟨d, rest, hr, hd⟩ := hf
    rw [hr] at hl ⊢
    have hl' := longest_takeWhile_isNumber hd rest
    generalize (d :: rest).takeWhile Char.isDigit = b at hl'
    rcases hx : Binary64.ofRatio? false (Numeral.valueOf (w ++ b)) (Nat.pow 10 b.length) with _ | x
    · exact ⟨_, _, _, Reads.floatTooLarge hl hl' hx⟩
    · exact ⟨_, _, _, Reads.float hl hl' hx⟩
  · by_cases hle : Numeral.valueOf w ≤ Numeral.maxInteger
    · exact ⟨_, _, _, Reads.integer hl hf hle⟩
    · exact ⟨_, _, _, Reads.integerTooLarge hl hf (Nat.lt_of_not_le hle)⟩

theorem exists_reads (c : Char) (cs : List Char) : ∃ w kind value, Reads (c :: cs) w kind value := by
  by_cases hletter : Letter c
  · exact exists_reads_letter hletter cs
  by_cases hdigit : Digit c
  · exact exists_reads_digit hdigit cs
  by_cases hpartner : ∃ kind, (c, kind) ∈ quotes ∧ c ∈ cs
  · obtain ⟨kind, hkind, hmem⟩ := hpartner
    obtain ⟨s, rest, rfl, hs⟩ := List.eq_append_cons_of_mem hmem
    exact ⟨_, _, _, Reads.quoted hkind hs⟩
  by_cases hlong : ∃ s sign, (s, sign) ∈ longOperators ∧ s <+: c :: cs
  · obtain ⟨s, sign, hsign, hs⟩ := hlong
    exact ⟨_, _, _, Reads.longOperator hsign hs⟩
  have hshort : ∀ s sign, (s, sign) ∈ longOperators → ¬ s <+: c :: cs :=
    fun s sign hsign hs => hlong ⟨s, sign, hsign, hs⟩
  by_cases hoperator : ∃ sign, (c, sign) ∈ operators
  · obtain ⟨sign, hsign⟩ := hoperator
    exact ⟨_, _, _, Reads.operator hsign hshort⟩
  by_cases hdelimiter : ∃ mark, (c, mark) ∈ delimiters
  · obtain ⟨mark, hmark⟩ := hdelimiter
    exact ⟨_, _, _, Reads.delimiter hmark⟩
  refine ⟨_, _, _, Reads.unexpected ⟨hletter, hdigit, ?_, hshort, ?_, ?_⟩⟩
  · exact fun kind hkind hmem => hpartner ⟨kind, hkind, hmem⟩
  · exact fun sign hsign => hoperator ⟨sign, hsign⟩
  · exact fun mark hmark => hdelimiter ⟨mark, hmark⟩

theorem Reads.ne_nil {r w : List Char} {kind : Kind} {value : Value} (h : Reads r w kind value) :
    w ≠ [] := by
  cases h with
  | keyword hl _ =>
    obtain ⟨c, cs, rfl, -⟩ := hl.has_shape
    exact List.cons_ne_nil c cs
  | identifier hl _ =>
    obtain ⟨c, cs, rfl, -⟩ := hl.has_shape
    exact List.cons_ne_nil c cs
  | quoted _ _ => exact List.cons_ne_nil _ _
  | integer hl _ _ => exact hl.has_shape.1
  | integerTooLarge hl _ _ => exact hl.has_shape.1
  | float _ _ _ => exact List.append_ne_nil_of_right_ne_nil _ (List.cons_ne_nil _ _)
  | floatTooLarge _ _ _ => exact List.append_ne_nil_of_right_ne_nil _ (List.cons_ne_nil _ _)
  | longOperator hmem _ =>
    have hne : ∀ entry ∈ longOperators, entry.1 ≠ [] := by decide
    exact hne _ hmem
  | operator _ _ => exact List.cons_ne_nil _ _
  | delimiter _ => exact List.cons_ne_nil _ _
  | unexpected _ => exact List.cons_ne_nil _ _

theorem Reads.front {r w : List Char} {kind : Kind} {value : Value} (h : Reads r w kind value) :
    w <+: r := by
  cases h with
  | keyword hl _ => exact hl.front
  | identifier hl _ => exact hl.front
  | @quoted q _ s rest _ _ => exact ⟨rest, by simp⟩
  | integer hl _ _ => exact hl.front
  | integerTooLarge hl _ _ => exact hl.front
  | float _ hl _ =>
    obtain ⟨rest, rfl⟩ := hl.front
    exact ⟨rest, by simp⟩
  | floatTooLarge _ hl _ =>
    obtain ⟨rest, rfl⟩ := hl.front
    exact ⟨rest, by simp⟩
  | longOperator _ hs => exact hs
  | @operator c rest _ _ _ => exact ⟨rest, rfl⟩
  | @delimiter c rest _ _ => exact ⟨rest, rfl⟩
  | @unexpected c rest _ => exact ⟨rest, rfl⟩

/-! ## The scanner follows the rules -/

theorem not_letter_of_digit {c : Char} (h : Digit c) : ¬ Letter c := by
  simp only [Digit, Letter, Char.le_def, UInt32.le_iff_toNat_le] at h ⊢
  rintro (⟨hlower, -⟩ | ⟨hupper, -⟩ | rfl)
  · exact absurd (Nat.le_trans hlower h.2) (by decide)
  · exact absurd (Nat.le_trans hupper h.2) (by decide)
  · exact absurd h.2 (by decide)

theorem scan_letter {c : Char} (h : Letter c) (cs : List Char) : scan c cs = word (c :: cs) := by
  rw [scan, if_pos (isWordStart_iff.2 h)]

theorem scan_digit {c : Char} (h : Digit c) (cs : List Char) : scan c cs = number (c :: cs) := by
  rw [scan, if_neg, if_pos (isDigit_iff.2 h)]
  exact fun hw => not_letter_of_digit h (isWordStart_iff.1 hw)

theorem scan_quote {q : Char} {kind : Kind} (h : (q, kind) ∈ quotes) (cs : List Char) :
    scan q cs = (quoted? q kind cs).getD (unexpected q) := by
  simp only [quotes, List.mem_cons, Prod.mk.injEq, List.not_mem_nil, or_false] at h
  rcases h with ⟨rfl, rfl⟩ | ⟨rfl, rfl⟩
  · rfl
  · rfl

theorem scan_mark {c : Char} (hl : ¬ Letter c) (hd : ¬ Digit c) (hq : ∀ kind, (c, kind) ∉ quotes)
    (cs : List Char) :
    scan c cs = ((operator? (c :: cs)).or (delimiter? c)).getD (unexpected c) := by
  have h1 : c ≠ '"' := by rintro rfl; exact hq _ List.mem_cons_self
  have h2 : c ≠ '\'' := by
    rintro rfl
    exact hq _ (List.mem_cons_of_mem _ List.mem_cons_self)
  rw [scan, if_neg (fun h => hl (isWordStart_iff.1 h)), if_neg (fun h => hd (isDigit_iff.1 h)),
    if_neg h1, if_neg h2]

theorem takeWhile_of_longest_isWord {r w : List Char} (h : Longest IsWord r w) :
    r.takeWhile isWordPart = w := by
  obtain ⟨rest, rfl⟩ := h.front
  obtain ⟨hw, hs⟩ := longest_isWord.1 h
  exact Text.takeWhile_append_of_stops (isWordPart_of_isWord hw) hs

theorem scan_longest_isWord {c : Char} {cs w : List Char} (h : Longest IsWord (c :: cs) w) :
    scan c cs = ((Keyword.ofWord? w).map fun keyword =>
      ofText (.keyword keyword) (w.map Char.toUpper) w.length).getD
        (ofText .identifier w w.length) := by
  have hw := takeWhile_of_longest_isWord h
  obtain ⟨⟨rest, hr⟩, ⟨a, as, rfl, ha, -⟩, -⟩ := h
  cases hr
  rw [scan_letter ha]
  unfold word
  simp only [hw]
  cases Keyword.ofWord? (c :: as) <;> rfl

/-- The table has each spelling once, so the look-up finds what stands in it. -/
theorem ofWord?_eq_some_iff {w : List Char} {word : Keyword} :
    Keyword.ofWord? w = some word ↔
      (String.ofList (w.map Char.toUpper), word) ∈ Keyword.table := by
  have htable : ∀ entry ∈ Keyword.table, Keyword.table.lookup entry.1 = some entry.2 := by decide
  constructor
  · intro h
    obtain ⟨l₁, l₂, hl, -⟩ := List.lookup_eq_some_iff.1 h
    rw [hl]
    simp
  · exact fun h => htable _ h

/-- Digits at the front of a text, and what is left behind them. -/
theorem Longest.number_split {r w : List Char} (h : Longest IsNumber r w) :
    r.takeWhile Char.isDigit = w ∧ r = w ++ r.dropWhile Char.isDigit := by
  obtain ⟨rest, rfl⟩ := h.front
  obtain ⟨hw, hs⟩ := longest_isNumber.1 h
  have hd := isDigit_of_isNumber hw
  refine ⟨Text.takeWhile_append_of_stops hd hs, ?_⟩
  rw [Text.dropWhile_append_of_stops hd hs]

theorem scan_longest_isNumber {c : Char} {cs w : List Char} (h : Longest IsNumber (c :: cs) w) :
    scan c cs = number (c :: cs) := by
  obtain ⟨⟨rest, hr⟩, ⟨hne, hall⟩, -⟩ := h
  obtain ⟨a, as, rfl⟩ := List.exists_cons_of_ne_nil hne
  cases hr
  exact scan_digit (hall c List.mem_cons_self) _

theorem number_of_not_hasFraction {r w : List Char} (h : Longest IsNumber r w)
    (hf : ¬ HasFraction r w) : number r = integer w := by
  obtain ⟨hw, hr⟩ := h.number_split
  rw [number, hw]
  simp only
  split
  · rename_i more hmore
    have hempty : more.takeWhile Char.isDigit = [] := by
      cases more with
      | nil => rfl
      | cons d rest =>
        rw [List.takeWhile_cons, if_neg]
        intro hd
        refine hf ⟨d, rest, ?_, isDigit_iff.1 hd⟩
        rw [← hmore]
        exact hr
    rw [hempty]
    rfl
  · rfl

theorem number_of_fraction {a b rest : List Char} (ha : Longest IsNumber (a ++ '.' :: rest) a)
    (hb : Longest IsNumber rest b) :
    number (a ++ '.' :: rest) = float ⟨false, a, b, none⟩ := by
  obtain ⟨hw, hr⟩ := ha.number_split
  rw [number, hw, ← List.append_cancel_left hr]
  simp only
  rw [hb.number_split.1, if_neg]
  rw [List.isEmpty_iff]
  exact hb.has_shape.1

theorem num_decimal (a b : List Char) :
    (Numeral.decimal ⟨false, a, b, none⟩).num = Numeral.valueOf (a ++ b) := by
  simp [Numeral.decimal, Decimal.num]

theorem den_decimal (a b : List Char) :
    (Numeral.decimal ⟨false, a, b, none⟩).den = Nat.pow 10 b.length := by
  simp [Numeral.decimal, Decimal.den]

/-- The number with a fraction, as a quotient. -/
theorem float_eq (a : List Char) {b : List Char} (hb : b ≠ []) :
    float ⟨false, a, b, none⟩ =
      ((Binary64.ofRatio? false (Numeral.valueOf (a ++ b)) (Nat.pow 10 b.length)).map fun x =>
        ⟨.literal .float, .float x, (a ++ '.' :: b).length⟩).getD
          (floatTooLarge (a ++ '.' :: b)) := by
  have htext : Numeral.text ⟨false, a, b, none⟩ = a ++ '.' :: b := by
    simp [Numeral.text, hb]
  unfold float
  simp only [num_decimal, den_decimal, htext]
  cases Binary64.ofRatio? false (Numeral.valueOf (a ++ b)) (Nat.pow 10 b.length) <;> rfl

/-! ## Marks -/

theorem scan_longOperator {s : List Char} {sign : Operator} (h : (s, sign) ∈ longOperators) :
    ∃ a as, s = a :: as ∧
      ∀ rest, scan a (as ++ rest) = ofText (.operator sign) s s.length := by
  simp only [longOperators, List.mem_cons, Prod.mk.injEq, List.not_mem_nil, or_false] at h
  rcases h with ⟨rfl, rfl⟩ | ⟨rfl, rfl⟩ | ⟨rfl, rfl⟩ | ⟨rfl, rfl⟩
  · exact ⟨_, _, rfl, fun _ => rfl⟩
  · exact ⟨_, _, rfl, fun _ => rfl⟩
  · exact ⟨_, _, rfl, fun _ => rfl⟩
  · exact ⟨_, _, rfl, fun _ => rfl⟩

/-- Where no operator of two characters stands, none of their second characters does. -/
theorem ne_cons_of_no_longOperator {c : Char} {rest : List Char}
    (hlong : ∀ s sign, (s, sign) ∈ longOperators → ¬ s <+: c :: rest) {d : Char} {sign : Operator}
    (hmem : ([c, d], sign) ∈ longOperators) (more : List Char) : rest ≠ d :: more := by
  rintro rfl
  exact hlong _ _ hmem ⟨more, rfl⟩

theorem operator?_single {c : Char} {sign : Operator} {rest : List Char}
    (h : (c, sign) ∈ operators)
    (hlong : ∀ s sign, (s, sign) ∈ longOperators → ¬ s <+: c :: rest) :
    operator? (c :: rest) = some (ofText (.operator sign) [c] 1) := by
  have hne := @ne_cons_of_no_longOperator c rest hlong
  simp only [operators, List.mem_cons, Prod.mk.injEq, List.not_mem_nil, or_false] at h
  rcases h with ⟨rfl, rfl⟩ | ⟨rfl, rfl⟩ | ⟨rfl, rfl⟩ | ⟨rfl, rfl⟩ | ⟨rfl, rfl⟩ | ⟨rfl, rfl⟩ |
    ⟨rfl, rfl⟩
  · rfl
  · have h1 := @hne '=' .lessEqual (by decide)
    have h2 := @hne '>' .notEqual (by decide)
    unfold operator?
    split <;> simp_all
  · have h1 := @hne '=' .greaterEqual (by decide)
    unfold operator?
    split <;> simp_all
  · rfl
  · rfl
  · rfl
  · rfl

theorem operator?_eq_none {c : Char} {rest : List Char} (h : ∀ sign, (c, sign) ∉ operators)
    (hlong : ∀ s sign, (s, sign) ∈ longOperators → ¬ s <+: c :: rest) :
    operator? (c :: rest) = none := by
  have hbang : ∀ more, c :: rest ≠ '!' :: '=' :: more := by
    intro more heq
    rw [heq] at hlong
    exact @ne_cons_of_no_longOperator _ _ hlong '=' .notEqual (by decide) more rfl
  unfold operator?
  split
  all_goals simp_all [operators]

theorem delimiter?_eq_some {c : Char} {mark : Delimiter} (h : (c, mark) ∈ delimiters) :
    delimiter? c = some (ofText (.delimiter mark) [c] 1) := by
  simp only [delimiters, List.mem_cons, Prod.mk.injEq, List.not_mem_nil, or_false] at h
  rcases h with ⟨rfl, rfl⟩ | ⟨rfl, rfl⟩ | ⟨rfl, rfl⟩ | ⟨rfl, rfl⟩ | ⟨rfl, rfl⟩
  · rfl
  · rfl
  · rfl
  · rfl
  · rfl

theorem delimiter?_eq_none {c : Char} (h : ∀ mark, (c, mark) ∉ delimiters) :
    delimiter? c = none := by
  unfold delimiter?
  split
  all_goals simp_all [delimiters]

theorem operator?_delimiter {c : Char} {mark : Delimiter} (h : (c, mark) ∈ delimiters)
    (rest : List Char) : operator? (c :: rest) = none := by
  simp only [delimiters, List.mem_cons, Prod.mk.injEq, List.not_mem_nil, or_false] at h
  rcases h with ⟨rfl, rfl⟩ | ⟨rfl, rfl⟩ | ⟨rfl, rfl⟩ | ⟨rfl, rfl⟩ | ⟨rfl, rfl⟩
  · rfl
  · rfl
  · rfl
  · rfl
  · rfl

/-- The characters that are operators or delimiters. -/
def marks : List Char := operators.map (·.1) ++ delimiters.map (·.1)

/-- No mark is a letter, a digit or a quote. -/
theorem scan_mem_marks {c : Char} (h : c ∈ marks) (cs : List Char) :
    scan c cs = ((operator? (c :: cs)).or (delimiter? c)).getD (unexpected c) := by
  simp only [marks, operators, delimiters, List.map_cons, List.map_nil, List.cons_append,
    List.nil_append, List.mem_cons, List.not_mem_nil, or_false] at h
  rcases h with rfl | rfl | rfl | rfl | rfl | rfl | rfl | rfl | rfl | rfl | rfl | rfl <;> rfl

/-! ## Rules and scanner agree -/

/-- Whatever the rules say is read, the scanner reads. -/
theorem scan_of_reads {c : Char} {cs w : List Char} {kind : Kind} {value : Value}
    (h : Reads (c :: cs) w kind value) : scan c cs = ⟨kind, value, w.length⟩ := by
  generalize hr : c :: cs = r at h
  cases h with
  | keyword hl hk =>
    subst hr
    rw [scan_longest_isWord hl, ofWord?_eq_some_iff.2 hk]
    rfl
  | identifier hl hk =>
    subst hr
    have hnone : Keyword.ofWord? w = none :=
      Option.eq_none_iff_forall_ne_some.2 fun word hw => hk word (ofWord?_eq_some_iff.1 hw)
    rw [scan_longest_isWord hl, hnone]
    rfl
  | @quoted q _ s rest hq hs =>
    cases hr
    rw [scan_quote hq, quoted?, Text.find?_singleton_append hs]
    simp [ofText]
  | integer hl hf hle =>
    subst hr
    rw [scan_longest_isNumber hl, number_of_not_hasFraction hl hf, Lexeme.integer, if_pos hle]
  | integerTooLarge hl hf hlt =>
    subst hr
    rw [scan_longest_isNumber hl, number_of_not_hasFraction hl hf, Lexeme.integer,
      if_neg (Nat.not_le_of_lt hlt)]
    rfl
  | float ha hb hx =>
    have hl := ha
    rw [← hr] at hl
    rw [scan_longest_isNumber hl, hr, number_of_fraction ha hb, float_eq _ hb.has_shape.1, hx]
    rfl
  | floatTooLarge ha hb hx =>
    have hl := ha
    rw [← hr] at hl
    rw [scan_longest_isNumber hl, hr, number_of_fraction ha hb, float_eq _ hb.has_shape.1, hx]
    rfl
  | @longOperator _ s sign hmem hs =>
    obtain ⟨rest, rfl⟩ := hs
    obtain ⟨a, as, rfl, hscan⟩ := scan_longOperator hmem
    cases hr
    exact hscan rest
  | @operator a rest sign hmem hlong =>
    cases hr
    have hc : c ∈ marks := List.mem_append_left _ (List.mem_map_of_mem (f := (·.1)) hmem)
    rw [scan_mem_marks hc, operator?_single hmem hlong]
    rfl
  | @delimiter a rest mark hmem =>
    cases hr
    have hc : c ∈ marks := List.mem_append_right _ (List.mem_map_of_mem (f := (·.1)) hmem)
    rw [scan_mem_marks hc, operator?_delimiter hmem, delimiter?_eq_some hmem]
    rfl
  | @unexpected a rest h =>
    cases hr
    by_cases hq : ∃ kind, (c, kind) ∈ quotes
    · obtain ⟨kind, hkind⟩ := hq
      rw [scan_quote hkind, quoted?, Text.find?_singleton_eq_none (h.no_partner kind hkind)]
      rfl
    · rw [scan_mark h.not_letter h.not_digit fun kind hkind => hq ⟨kind, hkind⟩,
        operator?_eq_none h.no_operator h.no_longOperator, delimiter?_eq_none h.no_delimiter]
      rfl

/-- The rules leave no choice, and they are what the scanner does. -/
theorem reads_iff {c : Char} {cs w : List Char} {kind : Kind} {value : Value} :
    Reads (c :: cs) w kind value ↔ w <+: c :: cs ∧ scan c cs = ⟨kind, value, w.length⟩ := by
  constructor
  · exact fun h => ⟨h.front, scan_of_reads h⟩
  · rintro ⟨hw, hscan⟩
    obtain ⟨w', kind', value', h⟩ := exists_reads c cs
    rw [scan_of_reads h] at hscan
    simp only [Lexeme.mk.injEq] at hscan
    obtain ⟨rfl, rfl, hlen⟩ := hscan
    rwa [← List.prefix_of_prefix_length_le h.front hw (Nat.le_of_eq hlen) |>.eq_of_length hlen]

end SqlTokens.Lexeme

namespace SqlTokens.Cursor

/-! ## A token at the cursor -/

theorem not_reads_nil {w : List Char} {kind : Kind} {value : Value} :
    ¬ Lexeme.Reads [] w kind value :=
  fun h => h.ne_nil (List.prefix_nil.1 h.front)

theorem length_scan_le (c : Char) (cs : List Char) :
    (Lexeme.scan c cs).length ≤ (c :: cs).length := by
  obtain ⟨w, kind, value, h⟩ := Lexeme.exists_reads c cs
  rw [Lexeme.scan_of_reads h]
  exact h.front.length_le

/-- Within the text, different numbers of characters lead to different places. -/
theorem skip_inj {c : Cursor} {m n : Nat} (hm : m ≤ c.rest.length) (hn : n ≤ c.rest.length)
    (h : c.skip m = c.skip n) : m = n := by
  have hlen := congrArg (·.rest.length) h
  simp only [rest_skip, List.length_drop] at hlen
  omega

theorem readToken_eq_iff {c : Cursor} {w : List Char} {kind : Kind} {value : Value} :
    Lexeme.Reads c.rest w kind value ↔
      w <+: c.rest ∧ c.readToken = (some ⟨kind, value, c.position⟩, c.skip w.length) := by
  rcases hr : c.rest with _ | ⟨first, more⟩
  · simp [not_reads_nil, readToken, hr]
  · rw [Lexeme.reads_iff]
    apply and_congr_right
    intro hw
    simp only [readToken, hr, Prod.mk.injEq, Option.some.injEq, Token.mk.injEq, and_true]
    constructor
    · intro hscan
      rw [hscan]
      exact ⟨⟨rfl, rfl⟩, rfl⟩
    · rintro ⟨⟨rfl, rfl⟩, hskip⟩
      have hlen := skip_inj (by rw [hr]; exact length_scan_le first more)
        (by rw [hr]; exact hw.length_le) hskip
      rw [← hlen]

/-! ## The laws -/

/-- Behind the trivia, the next token is the one that the grammar gives, and its lexeme is all
that is read. Before the end of the text the grammar always gives one. -/
theorem the_next_token_follows_the_grammar (c : Cursor) :
    (c.skipTrivia.rest = [] ∧ c.next.1 = none ∨
      ∃ w kind value, Lexeme.Reads c.skipTrivia.rest w kind value) ∧
    ∀ w kind value, Lexeme.Reads c.skipTrivia.rest w kind value ↔
      w <+: c.skipTrivia.rest ∧
        c.next = (some ⟨kind, value, c.skipTrivia.position⟩, c.skipTrivia.skip w.length) := by
  refine ⟨?_, fun w kind value => readToken_eq_iff⟩
  rcases hr : c.skipTrivia.rest with _ | ⟨first, more⟩
  · left
    refine ⟨rfl, ?_⟩
    simp only [next, readToken, hr]
  · right
    exact Lexeme.exists_reads first more

end SqlTokens.Cursor
