-- The law of the environment. The variables are read in a fixed order, and the first bad
-- value is the error, before anything is checked. A configuration comes out only when
-- every variable that is set says something, and then it has all that they say.
import Mathlib.Data.List.TakeWhile
import SqlTokens.Proofs.Integers
import SqlTokens.Proofs.Levels
import SqlTokens.Proofs.Loading

namespace SqlTokens

open Lexeme (IsNumber)

/-! ## White space at the ends -/

namespace Text

/-- A text with nothing but white space on either side of it. -/
def Around (core cs : List Char) : Prop :=
  ∃ left right, (∀ c ∈ left, isBlank c = true) ∧ (∀ c ∈ right, isBlank c = true) ∧
    cs = left ++ (core ++ right)

theorem around_self (cs : List Char) : Around cs cs :=
  ⟨[], [], List.forall_mem_nil _, List.forall_mem_nil _, (List.append_nil cs).symm⟩

/-- The text neither starts nor ends with white space. -/
structure Trimmed (cs : List Char) : Prop where
  front : Stops isBlank cs
  back : Stops isBlank cs.reverse

theorem trim_append (cs : List Char) :
    trim cs ++ ((cs.dropWhile isBlank).reverse.takeWhile isBlank).reverse =
      cs.dropWhile isBlank := by
  rw [trim, ← List.reverse_append, List.takeWhile_append_dropWhile, List.reverse_reverse]

theorem around_trim (cs : List Char) : Around (trim cs) cs := by
  refine ⟨cs.takeWhile isBlank, ((cs.dropWhile isBlank).reverse.takeWhile isBlank).reverse,
    fun c hc => of_mem_takeWhile hc, fun c hc => of_mem_takeWhile (List.mem_reverse.1 hc), ?_⟩
  rw [trim_append, List.takeWhile_append_dropWhile]

theorem trim_of_around {core cs : List Char} (h : Around core cs) (hcore : Trimmed core) :
    trim cs = core := by
  obtain ⟨left, right, hl, hr, rfl⟩ := h
  have hr' : ∀ c ∈ right.reverse, isBlank c = true := fun c hc => hr c (List.mem_reverse.1 hc)
  rw [trim, List.dropWhile_append_of_pos hl]
  -- An empty core has no end to stop at: the white space behind it goes with that in front.
  cases core with
  | nil =>
    rw [List.nil_append, List.dropWhile_eq_nil_iff.2 hr]
    rfl
  | cons c core =>
    have hc : isBlank c = false := stops_cons.1 hcore.front
    rw [List.cons_append, List.dropWhile_cons_of_neg (by rw [hc]; decide), ← List.cons_append,
      List.reverse_append, dropWhile_append_of_stops hr' hcore.back, List.reverse_reverse]

/-- Trimming leaves what stands between the white space. -/
theorem trim_eq_iff {core cs : List Char} (hcore : Trimmed core) :
    trim cs = core ↔ Around core cs := by
  constructor
  · rintro rfl
    exact around_trim cs
  · exact fun h => trim_of_around h hcore

end Text

/-! ## What values say -/

namespace Variable

/-- The value is the word for a boolean, in small letters, with white space around it. -/
def SaysFlag (value : String) (b : Bool) : Prop :=
  Text.Around (if b then "true".toList else "false".toList) value.toList

/-- The value is a number of 64 bits in decimal digits, perhaps with a plus sign, with white space
around it. -/
def SaysNumber (value : String) (n : Nat) : Prop :=
  ∃ sign digits, (sign = [] ∨ sign = ['+']) ∧ IsNumber digits ∧
    Text.Around (sign ++ digits) value.toList ∧ inBaseTen digits = n ∧ n ≤ 2 ^ 64 - 1

theorem boolean?_eq_some_iff (value : String) (b : Bool) :
    boolean? value = some b ↔ SaysFlag value b := by
  have htrimmed : Text.Trimmed (if b then "true".toList else "false".toList) := by
    cases b <;> exact ⟨Text.stops_cons.2 rfl, Text.stops_cons.2 rfl⟩
  rw [SaysFlag, ← Text.trim_eq_iff htrimmed]
  unfold boolean?
  simp only
  split
  · rename_i h
    cases b <;> simp [h]
  · split
    · rename_i h
      cases b <;> simp [h]
    · rename_i htrue hfalse
      cases b <;> simp [htrue, hfalse]

theorem isBlank_of_isDigit {c : Char} (h : c.isDigit = true) : Text.isBlank c = false := by
  rw [Lexeme.isDigit_iff] at h
  simp only [Lexeme.Digit, Char.le_def, UInt32.le_iff_toNat_le] at h
  have hlow : 48 ≤ c.toNat := h.1
  have hhigh : c.toNat ≤ 57 := h.2
  rw [← Bool.not_eq_true, Text.isBlank, List.any_eq_true]
  rintro ⟨r, hr, hc⟩
  have houtside : ∀ r ∈ Text.blankRanges, r.2 < 48 ∨ 57 < r.1 := by decide
  rw [Bool.and_eq_true, decide_eq_true_eq, decide_eq_true_eq] at hc
  rcases houtside r hr with hr | hr
  · omega
  · omega

/-- A number with its sign has no white space at its ends. -/
theorem trimmed_number {sign digits : List Char} (hs : sign = [] ∨ sign = ['+'])
    (hd : IsNumber digits) : Text.Trimmed (sign ++ digits) := by
  have hblank : ∀ c ∈ sign ++ digits, Text.isBlank c = false := by
    intro c hc
    rcases List.mem_append.1 hc with hc | hc
    · rcases hs with rfl | rfl
      · cases hc
      · rw [List.mem_singleton.1 hc]
        rfl
    · exact isBlank_of_isDigit (Lexeme.isDigit_iff.2 (hd.2 c hc))
  constructor
  · intro c hc
    exact hblank c (List.mem_of_mem_head? hc)
  · intro c hc
    exact hblank c (List.mem_reverse.1 (List.mem_of_mem_head? hc))

/-- A plus sign at the front is taken off, and digits have none. -/
theorem dropPlus_append {sign digits : List Char} (hs : sign = [] ∨ sign = ['+'])
    (hd : IsNumber digits) : dropPlus (sign ++ digits) = digits := by
  rcases hs with rfl | rfl
  · obtain ⟨hne, hall⟩ := hd
    obtain ⟨c, cs, rfl⟩ := List.exists_cons_of_ne_nil hne
    have hc : c ≠ '+' := by
      rintro rfl
      exact absurd (hall _ List.mem_cons_self) (by decide)
    rw [List.nil_append, dropPlus.eq_2]
    rintro cs' ⟨⟩
    exact hc rfl
  · rfl

theorem exists_sign (cs : List Char) :
    ∃ sign, (sign = [] ∨ sign = ['+']) ∧ cs = sign ++ dropPlus cs := by
  unfold dropPlus
  split
  · exact ⟨['+'], Or.inr rfl, rfl⟩
  · exact ⟨[], Or.inl rfl, rfl⟩

theorem natural?_eq_some_iff (value : String) (n : Nat) :
    natural? value = some n ↔ SaysNumber value n := by
  have hmax : Numeral.maxNatural = 2 ^ 64 - 1 := rfl
  unfold natural?
  simp only [Option.ite_none_right_eq_some, Option.some.injEq, Bool.and_eq_true, Bool.not_eq_true',
    List.isEmpty_eq_false_iff, List.all_eq_true, decide_eq_true_eq, hmax, valueOf_eq_inBaseTen]
  constructor
  · rintro ⟨⟨⟨hne, hdigits⟩, hle⟩, hn⟩
    obtain ⟨sign, hs, heq⟩ := exists_sign (Text.trim value.toList)
    have hd := Lexeme.isNumber_of_isDigit hne hdigits
    refine ⟨sign, _, hs, hd, ?_, hn, hn ▸ hle⟩
    rw [← Text.trim_eq_iff (trimmed_number hs hd)]
    exact heq
  · rintro ⟨sign, digits, hs, hd, haround, hn, hle⟩
    rw [(Text.trim_eq_iff (trimmed_number hs hd)).2 haround, dropPlus_append hs hd]
    exact ⟨⟨⟨hd.1, Lexeme.isDigit_of_isNumber hd⟩, hn ▸ hle⟩, hn⟩

theorem saysFlag_toString (b : Bool) : SaysFlag (toString b) b := by
  cases b <;> exact Text.around_self _

theorem saysNumber_repr {n : Nat} (h : n ≤ 2 ^ 64 - 1) : SaysNumber n.repr n := by
  refine ⟨[], Numeral.digitsOf n, Or.inl rfl,
    Lexeme.isNumber_of_isDigit Numeral.digitsOf_ne_nil Numeral.digitsOf_digits, ?_, ?_, h⟩
  · rw [Nat.repr, String.toList_ofList]
    exact Text.around_self _
  · rw [← valueOf_eq_inBaseTen, Numeral.valueOf_digitsOf]

/-! ## The order of reading -/

/-- The variables that are read before a variable. -/
def before : Variable → List Variable
  | .stopOnError => []
  | .maxInputLength => [.stopOnError]
  | .traceTokens => [.stopOnError, .maxInputLength]
  | .logLevel => [.stopOnError, .maxInputLength, .traceTokens]

/-- The value says something. Any text does for a level; whether a filter has that name is a
question to the check. -/
def WellFormed : Variable → String → Prop
  | .stopOnError, value | .traceTokens, value => ∃ b, SaysFlag value b
  | .maxInputLength, value => ∃ n, SaysNumber value n
  | .logLevel, _ => True

/-- The variable is set to a value that says nothing. -/
def Malformed (lookup : String → Option String) (v : Variable) (value : String) : Prop :=
  lookup v.name = some value ∧ ¬ v.WellFormed value

/-- What is given for a field: nothing when its variable is not set, else what the value says. -/
inductive Given {α : Type} (means : String → α → Prop) : Option String → Option α → Prop
  | unset : Given means none none
  | set {value : String} {a : α} : means value a → Given means (some value) (some a)

/-! ## Reading one variable -/

/-- The parser finds what the values of the variable mean, and they are well formed when they mean
something. -/
structure ParsedBy {α : Type} (v : Variable) (parse : String → Option α)
    (means : String → α → Prop) : Prop where
  eq_some_iff : ∀ value a, parse value = some a ↔ means value a
  wellFormed_iff : ∀ value, v.WellFormed value ↔ ∃ a, means value a

theorem parsedBy_stopOnError : ParsedBy .stopOnError boolean? SaysFlag :=
  ⟨boolean?_eq_some_iff, fun _ => Iff.rfl⟩

theorem parsedBy_maxInputLength : ParsedBy .maxInputLength natural? SaysNumber :=
  ⟨natural?_eq_some_iff, fun _ => Iff.rfl⟩

theorem parsedBy_traceTokens : ParsedBy .traceTokens boolean? SaysFlag :=
  ⟨boolean?_eq_some_iff, fun _ => Iff.rfl⟩

namespace ParsedBy

variable {α : Type} {v : Variable} {parse : String → Option α} {means : String → α → Prop}
  {lookup : String → Option String} (h : ParsedBy v parse means)
include h

theorem read_of_given {o : Option α} (hgiven : Given means (lookup v.name) o) :
    v.read lookup parse = .ok o := by
  unfold read
  generalize lookup v.name = set at hgiven ⊢
  cases hgiven with
  | unset => rfl
  | set hmeans => simp only [(h.eq_some_iff _ _).2 hmeans]

theorem read_of_malformed {value : String} (hm : Malformed lookup v value) :
    v.read lookup parse = .error (.badVariable v value) := by
  obtain ⟨hset, hvalue⟩ := hm
  have hparse : parse value = none := by
    rw [Option.eq_none_iff_forall_ne_some]
    intro a ha
    exact hvalue ((h.wellFormed_iff value).2 ⟨a, (h.eq_some_iff value a).1 ha⟩)
  simp only [read, hset, hparse]

theorem exists_given (hgood : ∀ value, ¬ Malformed lookup v value) :
    ∃ o, Given means (lookup v.name) o := by
  rcases hset : lookup v.name with _ | value
  · exact ⟨none, .unset⟩
  · have hvalue : v.WellFormed value := by
      by_contra hvalue
      exact hgood value ⟨hset, hvalue⟩
    obtain ⟨a, ha⟩ := (h.wellFormed_iff value).1 hvalue
    exact ⟨some a, .set ha⟩

theorem exists_read (hgood : ∀ value, ¬ Malformed lookup v value) :
    ∃ o, v.read lookup parse = .ok o := by
  obtain ⟨o, ho⟩ := h.exists_given hgood
  exact ⟨o, h.read_of_given ho⟩

end ParsedBy

end Variable

/-! ## Messages -/

namespace Error

theorem message?_badVariable (v : Variable) (value : String) :
    (badVariable v value).message? =
      some ("Configuration error: Invalid value for " ++ v.name ++ ": " ++ value) := by
  simp only [String.append_assoc]
  have hheading : heading .configuration ++ "Invalid value for " =
      "Configuration error: Invalid value for " := by decide
  exact message?_append "Invalid value for " (by simp only [text?, String.append_assoc]) hheading

theorem message?_unknownLevel (name : String) :
    (unknownLevel name).message? =
      some ("Configuration error: Unknown log level: " ++ name) := by
  have hheading : heading .configuration ++ "Unknown log level: " =
      "Configuration error: Unknown log level: " := by decide
  exact message?_append "Unknown log level: " rfl hheading

end Error

/-! ## What an environment gives -/

namespace Config

open Variable (Given Malformed SaysFlag SaysNumber)

/-- Every variable that is set says something, and the configuration has what they say. The fields
of variables that are not set have their defaults. -/
structure IsSaid (lookup : String → Option String) (c : Config) : Prop where
  stopOnError : ∃ stop, Given SaysFlag (lookup Variable.stopOnError.name) stop ∧
    c.lexer.stopOnError = stop.getD true
  maxInputLength : Given SaysNumber (lookup Variable.maxInputLength.name) c.lexer.maxInputLength
  traceTokens : ∃ trace, Given SaysFlag (lookup Variable.traceTokens.name) trace ∧
    c.lexer.traceTokens = trace.getD false
  level : c.logging.level = (lookup Variable.logLevel.name).getD "info"

/-- The first cause that applies, in the order of the rules, and the configuration when none
does. -/
inductive Gives (lookup : String → Option String) : Except Error Config → Prop
  | malformed {v : Variable} {value : String} :
      Malformed lookup v value → (∀ u ∈ v.before, ∀ value, ¬ Malformed lookup u value) →
      Gives lookup (.error (.badVariable v value))
  | zeroLimit {c : Config} :
      c.IsSaid lookup → c.lexer.maxInputLength = some 0 → Gives lookup (.error .zeroLimit)
  | unknownLevel {c : Config} {value : String} :
      c.IsSaid lookup → c.lexer.maxInputLength ≠ some 0 →
      lookup Variable.logLevel.name = some value → (∀ f : Log.Filter, ¬ f.NamedBy value) →
      Gives lookup (.error (.unknownLevel value))
  | loaded {c : Config} :
      c.IsSaid lookup → c.lexer.maxInputLength ≠ some 0 →
      (∀ value, lookup Variable.logLevel.name = some value → ∃ f : Log.Filter, f.NamedBy value) →
      Gives lookup (.ok c)

/-- The text of the field of a variable. -/
def text (c : Config) : Variable → Option String
  | .stopOnError => some (toString c.lexer.stopOnError)
  | .maxInputLength => c.lexer.maxInputLength.map Nat.repr
  | .traceTokens => some (toString c.lexer.traceTokens)
  | .logLevel => some c.logging.level

/-! ## Loading -/

variable {lookup : String → Option String} {c : Config}

/-- Nothing behind the first bad value is looked at. -/
theorem ofEnvironment_of_malformed {v : Variable} {value : String}
    (hm : Malformed lookup v value)
    (hbefore : ∀ u ∈ v.before, ∀ value, ¬ Malformed lookup u value) :
    ofEnvironment lookup = .error (.badVariable v value) := by
  unfold ofEnvironment
  cases v with
  | stopOnError =>
    rw [Variable.parsedBy_stopOnError.read_of_malformed hm]
    rfl
  | maxInputLength =>
    obtain ⟨stop, hstop⟩ := Variable.parsedBy_stopOnError.exists_read (hbefore _ (by decide))
    rw [hstop, Variable.parsedBy_maxInputLength.read_of_malformed hm]
    rfl
  | traceTokens =>
    obtain ⟨stop, hstop⟩ := Variable.parsedBy_stopOnError.exists_read (hbefore _ (by decide))
    obtain ⟨limit, hlimit⟩ := Variable.parsedBy_maxInputLength.exists_read (hbefore _ (by decide))
    rw [hstop, hlimit, Variable.parsedBy_traceTokens.read_of_malformed hm]
    rfl
  | logLevel => exact absurd trivial hm.2

/-- When all values say something, the check decides. -/
theorem IsSaid.ofEnvironment_eq (h : c.IsSaid lookup) : ofEnvironment lookup = c.checked := by
  obtain ⟨stop, hstop, hstop'⟩ := h.stopOnError
  obtain ⟨trace, htrace, htrace'⟩ := h.traceTokens
  have hc : (⟨⟨stop.getD true, c.lexer.maxInputLength, trace.getD false⟩,
      ⟨(lookup Variable.logLevel.name).getD "info"⟩⟩ : Config) = c := by
    rw [← hstop', ← htrace', ← h.level]
  unfold ofEnvironment
  rw [Variable.parsedBy_stopOnError.read_of_given hstop,
    Variable.parsedBy_maxInputLength.read_of_given h.maxInputLength,
    Variable.parsedBy_traceTokens.read_of_given htrace]
  exact congrArg checked hc

theorem checked_of_zero (h : c.lexer.maxInputLength = some 0) : c.checked = .error .zeroLimit := by
  unfold checked check Settings.check
  rw [if_pos h]
  rfl

theorem checked_of_unknown (hlimit : c.lexer.maxInputLength ≠ some 0)
    (hnone : ∀ f : Log.Filter, ¬ f.NamedBy c.logging.level) :
    c.checked = .error (.unknownLevel c.logging.level) := by
  unfold checked check
  rw [Settings.check_eq_ok_iff.2 hlimit, Logging.filter_eq_error_iff.2 ⟨hnone, rfl⟩]
  rfl

theorem checked_of_named (hlimit : c.lexer.maxInputLength ≠ some 0)
    (hnamed : ∃ f : Log.Filter, f.NamedBy c.logging.level) : c.checked = .ok c := by
  obtain ⟨f, hf⟩ := hnamed
  exact checked_eq_ok_iff.2 ⟨rfl, hlimit, f, Logging.filter_eq_ok_iff.2 hf⟩

/-- The default names a level, so only a level that is set can be unknown. -/
theorem IsSaid.exists_namedBy_iff (h : c.IsSaid lookup) :
    (∃ f : Log.Filter, f.NamedBy c.logging.level) ↔
      ∀ value, lookup Variable.logLevel.name = some value → ∃ f : Log.Filter, f.NamedBy value := by
  rw [h.level]
  rcases lookup Variable.logLevel.name with _ | value
  · constructor
    · rintro - value ⟨⟩
    · intro _
      exact ⟨.upTo .info, "info", by decide, rfl⟩
  · simp

theorem Gives.eq {r : Except Error Config} (h : Gives lookup r) : ofEnvironment lookup = r := by
  cases h with
  | malformed hm hbefore => exact ofEnvironment_of_malformed hm hbefore
  | zeroLimit hsaid hzero =>
    rw [hsaid.ofEnvironment_eq, checked_of_zero hzero]
  | unknownLevel hsaid hlimit hset hnone =>
    -- The check shows the level of the configuration, which is the value that was set.
    have hlevel := hsaid.level
    rw [hset, Option.getD_some] at hlevel
    rw [← hlevel] at hnone ⊢
    rw [hsaid.ofEnvironment_eq, checked_of_unknown hlimit hnone]
  | loaded hsaid hlimit hnamed =>
    rw [hsaid.ofEnvironment_eq, checked_of_named hlimit (hsaid.exists_namedBy_iff.2 hnamed)]

/-- There is a first bad value, or a configuration that has what all values say. -/
theorem exists_malformed_or_isSaid (lookup : String → Option String) :
    (∃ v value, Malformed lookup v value ∧ ∀ u ∈ v.before, ∀ value, ¬ Malformed lookup u value) ∨
      ∃ c : Config, c.IsSaid lookup := by
  -- In the order of reading, so that no variable before a bad one is bad.
  by_cases hstop : ∃ value, Malformed lookup .stopOnError value
  · obtain ⟨value, hm⟩ := hstop
    exact Or.inl ⟨_, value, hm, by simp [Variable.before]⟩
  by_cases hlimit : ∃ value, Malformed lookup .maxInputLength value
  · obtain ⟨value, hm⟩ := hlimit
    refine Or.inl ⟨_, value, hm, ?_⟩
    simpa [Variable.before] using hstop
  by_cases htrace : ∃ value, Malformed lookup .traceTokens value
  · obtain ⟨value, hm⟩ := htrace
    refine Or.inl ⟨_, value, hm, ?_⟩
    simpa [Variable.before] using ⟨not_exists.1 hstop, not_exists.1 hlimit⟩
  obtain ⟨stop, hstop⟩ := Variable.parsedBy_stopOnError.exists_given (not_exists.1 hstop)
  obtain ⟨limit, hlimit⟩ := Variable.parsedBy_maxInputLength.exists_given (not_exists.1 hlimit)
  obtain ⟨trace, htrace⟩ := Variable.parsedBy_traceTokens.exists_given (not_exists.1 htrace)
  exact Or.inr ⟨⟨⟨stop.getD true, limit, trace.getD false⟩,
      ⟨(lookup Variable.logLevel.name).getD "info"⟩⟩,
    ⟨stop, hstop, rfl⟩, hlimit, ⟨trace, htrace, rfl⟩, rfl⟩

theorem exists_gives (lookup : String → Option String) : ∃ r, Gives lookup r := by
  rcases exists_malformed_or_isSaid lookup with ⟨v, value, hm, hbefore⟩ | ⟨c, hsaid⟩
  · exact ⟨_, .malformed hm hbefore⟩
  by_cases hlimit : c.lexer.maxInputLength = some 0
  · exact ⟨_, .zeroLimit hsaid hlimit⟩
  by_cases hnamed : ∃ value, lookup Variable.logLevel.name = some value ∧
      ∀ f : Log.Filter, ¬ f.NamedBy value
  · obtain ⟨value, hset, hnone⟩ := hnamed
    exact ⟨_, .unknownLevel hsaid hlimit hset hnone⟩
  · push Not at hnamed
    exact ⟨_, .loaded hsaid hlimit hnamed⟩

theorem ofEnvironment_eq_iff {r : Except Error Config} :
    ofEnvironment lookup = r ↔ Gives lookup r := by
  constructor
  · rintro rfl
    obtain ⟨r, hr⟩ := exists_gives lookup
    rwa [hr.eq]
  · exact Gives.eq

/-! ## Writing and loading -/

/-- A configuration says what the texts of its fields say. -/
theorem isSaid_of_text (hmax : ∀ n, c.lexer.maxInputLength = some n → n ≤ 2 ^ 64 - 1)
    (h : ∀ v : Variable, lookup v.name = c.text v) : c.IsSaid lookup where
  stopOnError := by
    rw [h]
    exact ⟨some c.lexer.stopOnError, .set (Variable.saysFlag_toString _), rfl⟩
  maxInputLength := by
    rw [h, text]
    rcases hlimit : c.lexer.maxInputLength with _ | n
    · exact .unset
    · exact .set (Variable.saysNumber_repr (hmax n hlimit))
  traceTokens := by
    rw [h]
    exact ⟨some c.lexer.traceTokens, .set (Variable.saysFlag_toString _), rfl⟩
  level := by
    rw [h]
    rfl

theorem ofEnvironment_of_text (hc : c.Usable)
    (hmax : ∀ n, c.lexer.maxInputLength = some n → n ≤ 2 ^ 64 - 1)
    (h : ∀ v : Variable, lookup v.name = c.text v) : ofEnvironment lookup = .ok c := by
  rw [(isSaid_of_text hmax h).ofEnvironment_eq]
  exact checked_eq_ok_iff.2 ⟨rfl, hc⟩

/-! ## The law -/

/-- How a configuration is loaded from an environment. -/
structure LoadsInOrder (lookup : String → Option String) : Prop where
  /-- The outcome is what the rules give, for all values of all variables. -/
  eq_iff : ∀ r, ofEnvironment lookup = r ↔ Gives lookup r
  names : [Variable.stopOnError, .maxInputLength, .traceTokens, .logLevel].map Variable.name =
    ["SQLLEX_STOP_ON_ERROR", "SQLLEX_MAX_INPUT_LENGTH", "SQLLEX_TRACE_TOKENS", "SQLLEX_LOG_LEVEL"]
  /-- A bad value is shown with the white space around it, behind the name of its variable. -/
  bad_value : ∀ (v : Variable) (value : String), (Error.badVariable v value).message? =
    some ("Configuration error: Invalid value for " ++ v.name ++ ": " ++ value)
  zero_limit : Error.zeroLimit.message? =
    some "Configuration error: max_input_length must be greater than 0"
  unknown_level : ∀ value : String, (Error.unknownLevel value).message? =
    some ("Configuration error: Unknown log level: " ++ value)
  /-- A configuration of which every field was written to its variable is loaded again. -/
  restores : ∀ c : Config, c.Usable → (∀ n, c.lexer.maxInputLength = some n → n ≤ 2 ^ 64 - 1) →
    (∀ v : Variable, lookup v.name = c.text v) → ofEnvironment lookup = .ok c

theorem the_environment_is_loaded_in_order (lookup : String → Option String) :
    LoadsInOrder lookup := by
  refine ⟨fun r => ofEnvironment_eq_iff, rfl, Error.message?_badVariable, rfl,
    Error.message?_unknownLevel, ?_⟩
  intro c hc hmax h
  exact ofEnvironment_of_text hc hmax h

/-- A limit of zero, a word that is no boolean, and a level that no filter has: the word is the
error, since the limit and the level are looked at when all values have been read. -/
theorem three_bad_values_are_found_in_order :
    ofEnvironment (fun name =>
        if name = "SQLLEX_MAX_INPUT_LENGTH" then some "\u00a0+00\n"
        else if name = "SQLLEX_TRACE_TOKENS" then some " True "
        else if name = "SQLLEX_LOG_LEVEL" then some " info" else none) =
      .error (.badVariable .traceTokens " True ") := by
  have hword : ¬ Variable.WellFormed .traceTokens " True " := by
    rintro ⟨b, hb⟩
    rw [← Variable.boolean?_eq_some_iff] at hb
    revert hb
    cases b <;> decide +kernel
  have hlimit : Variable.WellFormed .maxInputLength "\u00a0+00\n" :=
    ⟨0, (Variable.natural?_eq_some_iff _ _).1 (by decide +kernel)⟩
  rw [(the_environment_is_loaded_in_order _).eq_iff]
  refine .malformed ⟨rfl, hword⟩ ?_
  rintro u hu value ⟨hset, hvalue⟩
  obtain rfl | rfl : u = .stopOnError ∨ u = .maxInputLength := by
    simpa [Variable.before] using hu
  · cases hset
  · cases hset
    exact hvalue hlimit

end Config

end SqlTokens
