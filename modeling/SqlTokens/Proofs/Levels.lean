-- The names of levels, and what merging makes of them. A name means the same level in every
-- mix of letter cases. Merging looks at how the later level is spelled: the default gives
-- way to an earlier level in small letters only, and in capitals it hides that level.
import SqlTokens.Proofs.LetterCase
import SqlTokens.Proofs.Merging

namespace SqlTokens

/-! ## Names of levels -/

namespace Log.Filter

/-- The filters with their names in small letters. -/
def names : List (String × Filter) :=
  [("off", .off), ("error", .upTo .error), ("warn", .upTo .warn), ("info", .upTo .info),
   ("debug", .upTo .debug), ("trace", .upTo .trace)]

/-- The text is the name of the filter, in whichever letter case. -/
def NamedBy (f : Filter) (text : String) : Prop :=
  ∃ name, (name, f) ∈ names ∧ SameLetters text.toList name.toList

theorem mem_all (f : Filter) : f ∈ all := by
  rcases f with _ | (_ | _ | _ | _ | _) <;> decide

theorem namedBy_iff {f : Filter} {text : String} :
    f.NamedBy text ↔ f.name.toList = text.toList.map Char.toUpper := by
  have hupper : ∀ entry ∈ names, entry.1.toList.map Char.toUpper = entry.2.name.toList := by
    decide
  have hnamed : ∀ f ∈ all, f ∈ names.map (·.2) := by decide
  constructor
  · rintro ⟨name, hmem, hsame⟩
    rw [← hupper _ hmem]
    exact hsame.symm
  · intro h
    obtain ⟨⟨name, g⟩, hmem, rfl⟩ := List.mem_map.1 (hnamed f (mem_all f))
    exact ⟨name, hmem, h.symm.trans (hupper _ hmem).symm⟩

theorem ofName?_eq_some_iff {f : Filter} {text : String} :
    ofName? text = some f ↔ f.NamedBy text := by
  rw [namedBy_iff]
  constructor
  · intro h
    have hname := List.find?_some h
    exact of_decide_eq_true hname
  · intro h
    have hunique : ∀ f ∈ all, ∀ g ∈ all, g.name = f.name → g = f := by decide
    rcases hg : ofName? text with _ | g
    · exact absurd (decide_eq_true h) (List.find?_eq_none.1 hg f (mem_all f))
    · have hname := List.find?_some hg
      have hgname : g.name.toList = f.name.toList := (of_decide_eq_true hname).trans h.symm
      rw [hunique f (mem_all f) g (mem_all g) (String.toList_inj.1 hgname)]

end Log.Filter

theorem Logging.filter_eq_ok_iff {l : Logging} {f : Log.Filter} :
    l.filter = .ok f ↔ f.NamedBy l.level := by
  rw [← Log.Filter.ofName?_eq_some_iff]
  unfold filter
  cases Log.Filter.ofName? l.level <;> simp

theorem Logging.filter_eq_error_iff {l : Logging} {e : Error} :
    l.filter = .error e ↔ (∀ f : Log.Filter, ¬ f.NamedBy l.level) ∧ e = .unknownLevel l.level := by
  simp only [← Log.Filter.ofName?_eq_some_iff]
  unfold filter
  cases Log.Filter.ofName? l.level <;> simp [eq_comm]

/-! ## Respelled levels -/

namespace Config

/-- The level has a filter. -/
def HasLevel (c : Config) : Prop := ∃ f, c.logging.filter = .ok f

/-- The configurations are the same but for the letter case of their levels. -/
structure Respelled (c d : Config) : Prop where
  lexer_eq : c.lexer = d.lexer
  level : SameLetters c.logging.level.toList d.logging.level.toList

/-- Both levels are spelled like the default, or none of the two is. -/
def Alike (c d : Config) : Prop := c.logging.level = "info" ↔ d.logging.level = "info"

theorem Respelled.refl (c : Config) : Respelled c c := ⟨rfl, rfl⟩

theorem Respelled.filter_eq {c d : Config} (h : Respelled c d) (hc : c.HasLevel) :
    c.logging.filter = d.logging.filter := by
  obtain ⟨f, hf⟩ := hc
  obtain ⟨name, hmem, hsame⟩ := Logging.filter_eq_ok_iff.1 hf
  rw [hf, Logging.filter_eq_ok_iff.2 ⟨name, hmem, h.level.symm.trans hsame⟩]

/-- Any spelling of the default means the default level. -/
theorem Respelled.filter_of_default {c d : Config} (h : Respelled c d)
    (hc : c.logging.level = "info") : d.logging.filter = .ok (.upTo .info) := by
  have hlevel := h.level
  rw [hc] at hlevel
  exact Logging.filter_eq_ok_iff.2 ⟨"info", by decide, hlevel.symm⟩

theorem logging_merge_of_eq {a b : Config} (h : b.logging.level = "info") :
    (a.merge b).logging = a.logging := if_pos h

theorem logging_merge_of_ne {a b : Config} (h : b.logging.level ≠ "info") :
    (a.merge b).logging = b.logging := if_neg h

theorem HasLevel.merge {a b : Config} (ha : a.HasLevel) (hb : b.HasLevel) :
    (a.merge b).HasLevel := by
  unfold HasLevel
  by_cases h : b.logging.level = "info"
  · rwa [logging_merge_of_eq h]
  · rwa [logging_merge_of_ne h]

/-- A step of a chain: respelled configurations stay so when the later ones are spelled alike. -/
theorem Respelled.merge {a a' b b' : Config} (ha : Respelled a a') (hb : Respelled b b')
    (h : Alike b b') : Respelled (a.merge b) (a'.merge b') := by
  refine ⟨?_, ?_⟩
  · show a.lexer.merge b.lexer = a'.lexer.merge b'.lexer
    rw [ha.lexer_eq, hb.lexer_eq]
  · by_cases hlevel : b.logging.level = "info"
    · rw [logging_merge_of_eq hlevel, logging_merge_of_eq (h.1 hlevel)]
      exact ha.level
    · rw [logging_merge_of_ne hlevel, logging_merge_of_ne fun hlevel' => hlevel (h.2 hlevel')]
      exact hb.level

theorem Respelled.foldl {a a' : Config} {cs cs' : List Config} (ha : Respelled a a')
    (hl : a.HasLevel) (hls : ∀ c ∈ cs, c.HasLevel) (hcs : List.Forall₂ Respelled cs cs')
    (h : List.Forall₂ Alike cs cs') :
    (cs.foldl Config.merge a).logging.filter = (cs'.foldl Config.merge a').logging.filter := by
  induction hcs generalizing a a' with
  | nil => exact ha.filter_eq hl
  | cons hb hcs ih =>
    obtain ⟨hb', h⟩ := List.forall₂_cons.1 h
    obtain ⟨hlb, hls⟩ := List.forall_mem_cons.1 hls
    exact ih (ha.merge hb hb') (hl.merge hlb) hls h

/-- The one way to see a spelling: a later level that is the default in the one spelling only. -/
theorem Respelled.filter_merge_iff {a a' b b' : Config} (ha : Respelled a a') (hl : a.HasLevel)
    (hb : Respelled b b') (hlb : b.HasLevel) :
    (a.merge b).logging.filter = (a'.merge b').logging.filter ↔
      Alike b b' ∨ a.logging.filter = .ok (.upTo .info) := by
  have hb' : Respelled b' b := ⟨hb.lexer_eq.symm, hb.level.symm⟩
  -- Both later levels give way, or one, or none; with one, the other is a spelling of the default.
  by_cases h : b.logging.level = "info"
  · by_cases h' : b'.logging.level = "info"
    · rw [logging_merge_of_eq h, logging_merge_of_eq h', ha.filter_eq hl]
      simp [Alike, h, h']
    · rw [logging_merge_of_eq h, logging_merge_of_ne h', hb.filter_of_default h]
      simp [Alike, h, h']
  · by_cases h' : b'.logging.level = "info"
    · rw [logging_merge_of_ne h, logging_merge_of_eq h', hb'.filter_of_default h', ← ha.filter_eq hl]
      simp [Alike, h, h', eq_comm]
    · rw [logging_merge_of_ne h, logging_merge_of_ne h', hb.filter_eq hlb]
      simp [Alike, h, h']

/-! ## The law -/

/-- What the spelling of an earlier level and of a later one does to the merged level. -/
structure MergesByMeaning (a a' b b' : Config) : Prop where
  /-- The earlier level may be spelled in any way. -/
  earlier : (a.merge b).logging.filter = (a'.merge b).logging.filter
  /-- Spelling is seen just when the later level is spelled like the default on one side only, and
  the earlier level is not the default. -/
  merge_iff : (a.merge b).logging.filter = (a'.merge b').logging.filter ↔
    (b.logging.level = "info" ↔ b'.logging.level = "info") ∨
      a.logging.filter = .ok (.upTo .info)
  /-- So levels that are spelled like the default on both sides or on none keep their meaning along
  any chain. -/
  chain : ∀ cs cs' : List Config, (∀ c ∈ cs, c.HasLevel) → List.Forall₂ Respelled cs cs' →
    List.Forall₂ Alike cs cs' →
    (cs.foldl merge a).logging.filter = (cs'.foldl merge a').logging.filter

theorem levels_merge_by_meaning {a a' b b' : Config} (hl : a.HasLevel) (hlb : b.HasLevel)
    (ha : Respelled a a') (hb : Respelled b b') : MergesByMeaning a a' b b' := by
  have hearlier : (a.merge b).logging.filter = (a'.merge b).logging.filter :=
    (ha.filter_merge_iff hl (.refl b) hlb).2 (Or.inl Iff.rfl)
  exact ⟨hearlier, ha.filter_merge_iff hl hb hlb, fun _ _ hls hcs h => ha.foldl hl hls hcs h⟩

/-- An earlier level in capitals, and the default in two spellings, of which only one gives way. -/
theorem the_default_merges_by_its_spelling :
    MergesByMeaning ⟨{}, ⟨"Warn"⟩⟩ ⟨{}, ⟨"WARN"⟩⟩ {} ⟨{}, ⟨"Info"⟩⟩ :=
  levels_merge_by_meaning ⟨.upTo .warn, rfl⟩ ⟨.upTo .info, rfl⟩ ⟨rfl, rfl⟩ ⟨rfl, rfl⟩

/-- In capitals the default hides an earlier level that it gives way to in small letters. -/
theorem the_default_in_capitals_hides_a_level :
    HasLevel ⟨{}, ⟨"debug"⟩⟩ ∧ HasLevel {} ∧ Respelled {} ⟨{}, ⟨"INFO"⟩⟩ ∧
      (merge ⟨{}, ⟨"debug"⟩⟩ {}).logging.filter = .ok (.upTo .debug) ∧
      (merge ⟨{}, ⟨"debug"⟩⟩ ⟨{}, ⟨"INFO"⟩⟩).logging.filter = .ok (.upTo .info) ∧
      ¬ ∀ a b b' : Config, a.HasLevel → b.HasLevel → Respelled b b' →
        (a.merge b).logging.filter = (a.merge b').logging.filter := by
  have hdebug : HasLevel ⟨{}, ⟨"debug"⟩⟩ := ⟨.upTo .debug, rfl⟩
  have hinfo : HasLevel {} := ⟨.upTo .info, rfl⟩
  have hrespelled : Respelled {} ⟨{}, ⟨"INFO"⟩⟩ := ⟨rfl, rfl⟩
  have hlow : (merge ⟨{}, ⟨"debug"⟩⟩ {}).logging.filter = .ok (.upTo .debug) := by decide +kernel
  have hhigh : (merge ⟨{}, ⟨"debug"⟩⟩ ⟨{}, ⟨"INFO"⟩⟩).logging.filter = .ok (.upTo .info) := by
    decide +kernel
  refine ⟨hdebug, hinfo, hrespelled, hlow, hhigh, ?_⟩
  intro h
  have heq := h _ _ _ hdebug hinfo hrespelled
  rw [hlow, hhigh] at heq
  cases heq

end Config

end SqlTokens
