-- The law of loaded configurations: whatever was read from a document, a file or the
-- environment has passed its check, merging keeps what the check asks for, and so a
-- lexer under such settings refuses nothing but texts that are too long.
import Mathlib.Control.Monad.Basic
import SqlTokens.Config.Environment
import SqlTokens.Config.File
import SqlTokens.Proofs.Calls

namespace SqlTokens

/-! ## What the checks ask for -/

/-- A sequence succeeds when each step does, one after the other. -/
theorem Error.bind_eq_ok {α β : Type} {x : Except Error α} {f : α → Except Error β} {b : β} :
    x >>= f = .ok b ↔ ∃ a, x = .ok a ∧ f a = .ok b := by
  rcases x with e | a
  · constructor
    · intro h
      cases h
    · rintro ⟨a, ⟨⟩, -⟩
  · constructor
    · intro h
      exact ⟨a, rfl, h⟩
    · rintro ⟨a', ⟨⟩, h⟩
      exact h

theorem Settings.check_eq_ok_iff {s : Settings} :
    s.check = .ok () ↔ s.maxInputLength ≠ some 0 := by
  unfold check
  split
  · rename_i h
    simp [h]
  · rename_i h
    simp [h]

namespace Config

/-- A limit admits some text, and the level has a filter. -/
structure Usable (c : Config) : Prop where
  limit_ne : c.lexer.maxInputLength ≠ some 0
  exists_filter : ∃ f, c.logging.filter = .ok f

theorem check_eq_ok_iff {c : Config} : c.check = .ok () ↔ c.Usable := by
  unfold check
  simp only [Error.bind_eq_ok]
  constructor
  · rintro ⟨_, hs, f, hf, -⟩
    exact ⟨Settings.check_eq_ok_iff.1 hs, f, hf⟩
  · rintro ⟨hlimit, f, hf⟩
    exact ⟨(), Settings.check_eq_ok_iff.2 hlimit, f, hf, rfl⟩

theorem checked_eq_ok_iff {c d : Config} : c.checked = .ok d ↔ c = d ∧ c.Usable := by
  unfold checked
  simp only [Error.bind_eq_ok]
  constructor
  · rintro ⟨_, hc, ⟨⟩⟩
    exact ⟨rfl, check_eq_ok_iff.1 hc⟩
  · rintro ⟨rfl, hc⟩
    exact ⟨(), check_eq_ok_iff.2 hc, rfl⟩

/-! ## Where configurations come from -/

theorem usable_default : Usable {} := check_eq_ok_iff.1 rfl

theorem usable_of_ofToml {cs : List Char} {c : Config} (h : ofToml cs = .ok c) : c.Usable := by
  unfold ofToml at h
  split at h
  · obtain ⟨rfl, hc⟩ := checked_eq_ok_iff.1 h
    exact hc
  · cases h

theorem usable_of_load {place : Place} {c : Config} (h : load place = .ok c) : c.Usable := by
  unfold load at h
  split at h
  · cases h
  · cases h
  · split at h
    · exact usable_of_ofToml h
    · cases h

theorem usable_of_ofEnvironment {lookup : String → Option String} {c : Config}
    (h : ofEnvironment lookup = .ok c) : c.Usable := by
  unfold ofEnvironment at h
  simp only [Error.bind_eq_ok] at h
  obtain ⟨_, -, _, -, _, -, h⟩ := h
  obtain ⟨rfl, hc⟩ := checked_eq_ok_iff.1 h
  exact hc

/-- Each part of a merged configuration that the check reads is a part of one of the two. -/
theorem Usable.merge {c d : Config} (hc : c.Usable) (hd : d.Usable) : (c.merge d).Usable where
  limit_ne := by
    show (d.lexer.maxInputLength.or c.lexer.maxInputLength) ≠ some 0
    rcases hlimit : d.lexer.maxInputLength with _ | limit
    · exact hc.limit_ne
    · rw [Option.some_or, ← hlimit]
      exact hd.limit_ne
  exists_filter := by
    show ∃ f, (c.logging.merge d.logging).filter = .ok f
    unfold Logging.merge
    split
    · exact hc.exists_filter
    · exact hd.exists_filter

/-- The configurations that a program can have without writing fields itself: the default one,
those that were loaded, and merged ones. -/
inductive Obtained : Config → Prop
  | default : Obtained {}
  | ofToml {cs : List Char} {c : Config} : ofToml cs = .ok c → Obtained c
  | load {place : Place} {c : Config} : load place = .ok c → Obtained c
  | ofEnvironment {lookup : String → Option String} {c : Config} :
      ofEnvironment lookup = .ok c → Obtained c
  | merge {c d : Config} : Obtained c → Obtained d → Obtained (c.merge d)

theorem Obtained.usable {c : Config} (h : c.Obtained) : c.Usable := by
  induction h with
  | default => exact usable_default
  | ofToml h => exact usable_of_ofToml h
  | load h => exact usable_of_load h
  | ofEnvironment h => exact usable_of_ofEnvironment h
  | merge _ _ hc hd => exact hc.merge hd

end Config

/-! ## Opening a lexer -/

/-- The heading and the words behind it, which a cause starts with, as one text. -/
theorem Error.message?_append {e : Error} {rest whole : String} (start : String)
    (htext : e.text? = some (start ++ rest)) (hwhole : heading e.kind ++ start = whole) :
    e.message? = some (whole ++ rest) := by
  rw [message?, htext, Option.map_some, ← String.append_assoc, hwhole]

theorem Error.message?_inputTooLong (length limit : Nat) :
    (inputTooLong length limit).message? =
      some ("Validation error: Input length " ++ length.repr ++ " exceeds the limit of " ++
        limit.repr ++ " characters") := by
  simp only [String.append_assoc]
  have hheading : heading .validation ++ "Input length " = "Validation error: Input length " := by
    decide
  exact message?_append "Input length " (by simp only [text?, String.append_assoc]) hheading

theorem Lexer.withSettings_eq_error_iff {cs : List Char} {s : Settings} {e : Error} :
    withSettings cs s = .error e ↔ s.check = .error e ∨
      s.check = .ok () ∧ ∃ limit, s.maxInputLength = some limit ∧ limit < cs.length ∧
        e = .inputTooLong cs.length limit := by
  rcases withSettings_cases cs s with ⟨e', hc, hr⟩ | ⟨limit, hc, hl, hlt, hr⟩ | ⟨hc, hle, hr⟩
  · simp [hr, hc]
  · simp [hr, hc, hl, hlt, eq_comm]
  · rw [hr, hc]
    constructor
    · rintro ⟨⟩
    · rintro (⟨⟨⟩⟩ | ⟨-, limit, hl, hlt, -⟩)
      exact absurd hlt (Nat.not_lt_of_le (hle limit hl))

namespace Config

/-! ## The law -/

/-- A configuration can be used for logging and for any text that is not too long. -/
structure Works (c : Config) : Prop extends Usable c where
  check_eq : c.check = .ok ()
  /-- A text is refused when it has more characters than the limit, and for no other reason. -/
  refuses_iff : ∀ (cs : List Char) (e : Error), Lexer.withSettings cs c.lexer = .error e ↔
    ∃ limit, c.lexer.maxInputLength = some limit ∧ limit < cs.length ∧
      e = .inputTooLong cs.length limit
  /-- The error is one of validation, and names the length of the text and the limit. -/
  refusal : ∀ (cs : List Char) (e : Error), Lexer.withSettings cs c.lexer = .error e →
    e.kind = .validation ∧ ∃ limit, c.lexer.maxInputLength = some limit ∧
      e.message? = some ("Validation error: Input length " ++ cs.length.repr ++
        " exceeds the limit of " ++ limit.repr ++ " characters")
  /-- Otherwise the lexer is at the first character, and has these settings. -/
  opens : ∀ (cs : List Char) (lx : Lexer), Lexer.withSettings cs c.lexer = .ok lx →
    lx.position = ⟨1, 1, 0⟩ ∧ lx.cursor.rest = cs ∧ lx.ahead = .unread ∧ lx.settings = c.lexer

/-- A configuration that was loaded, or merged from loaded ones, is fit for use. -/
theorem a_loaded_configuration_works {c : Config} (h : c.Obtained) : c.Works := by
  have hc := h.usable
  have hcheck := Settings.check_eq_ok_iff.2 hc.limit_ne
  have hrefuses : ∀ (cs : List Char) (e : Error), Lexer.withSettings cs c.lexer = .error e ↔
      ∃ limit, c.lexer.maxInputLength = some limit ∧ limit < cs.length ∧
        e = .inputTooLong cs.length limit := by
    intro cs e
    rw [Lexer.withSettings_eq_error_iff, hcheck]
    simp
  refine ⟨hc, check_eq_ok_iff.2 hc, hrefuses, ?_, ?_⟩
  · intro cs e he
    obtain ⟨limit, hlimit, -, rfl⟩ := (hrefuses cs e).1 he
    exact ⟨rfl, limit, hlimit, Error.message?_inputTooLong _ _⟩
  · intro cs lx hlx
    rw [Lexer.eq_of_withSettings hlx]
    exact ⟨rfl, rfl, rfl, rfl⟩

/-- A limit from a document, and two levels, one from a file and one from the environment. The text
has five characters, and six bytes. -/
theorem a_merged_configuration_works :
    ofToml "lexer.max_input_length = 5".toList = .ok ⟨{ maxInputLength := some 5 }, {}⟩ ∧
      load (.file "logging.level = 'off'".toUTF8) = .ok ⟨{}, ⟨"off"⟩⟩ ∧
      ofEnvironment (fun name => if name = "SQLLEX_LOG_LEVEL" then some "Trace" else none) =
        .ok ⟨{}, ⟨"Trace"⟩⟩ ∧
      (merge ⟨{ maxInputLength := some 5 }, {}⟩
        (merge (merge ⟨{}, ⟨"off"⟩⟩ ⟨{}, ⟨"Trace"⟩⟩) {})).Works ∧
      merge ⟨{ maxInputLength := some 5 }, {}⟩ (merge (merge ⟨{}, ⟨"off"⟩⟩ ⟨{}, ⟨"Trace"⟩⟩) {}) =
        ⟨{ maxInputLength := some 5 }, ⟨"Trace"⟩⟩ ∧
      Lexer.withSettings "a ø b".toList { maxInputLength := some 5 } =
        .ok ⟨.ofText "a ø b".toList, { maxInputLength := some 5 }, .unread⟩ ∧
      Lexer.withSettings "a ø b;".toList { maxInputLength := some 5 } =
        .error (.inputTooLong 6 5) := by
  have hdocument : ofToml "lexer.max_input_length = 5".toList =
      .ok ⟨{ maxInputLength := some 5 }, {}⟩ := by decide +kernel
  have hfile : load (.file "logging.level = 'off'".toUTF8) = .ok ⟨{}, ⟨"off"⟩⟩ := by
    decide +kernel
  have henvironment :
      ofEnvironment (fun name => if name = "SQLLEX_LOG_LEVEL" then some "Trace" else none) =
        .ok ⟨{}, ⟨"Trace"⟩⟩ := by decide +kernel
  refine ⟨hdocument, hfile, henvironment, ?_, by decide +kernel, rfl, rfl⟩
  apply a_loaded_configuration_works
  exact .merge (.ofToml hdocument)
    (.merge (.merge (.load hfile) (.ofEnvironment henvironment)) .default)

end Config

end SqlTokens
