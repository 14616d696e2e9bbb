-- The laws of merging. What configurations say together is found field by field in their
-- list, and merging two of them is putting two lists one behind the other. So it does not
-- matter how the merges are grouped, nor whether default configurations stand among them.
import SqlTokens.Config

namespace SqlTokens.Config

/-! ## What configurations say together -/

/-- The last level that is not spelled like the default one. -/
def lastLevel? (cs : List Config) : Option String :=
  ((cs.map (·.logging.level)).filter (· ≠ "info")).getLast?

/-- Each field by a rule of its own: reading stops at errors if all say so, tokens are traced if one
says so, the limit is the last one that is set, and the level is the last one that is not spelled
like the default. -/
def together (cs : List Config) : Config where
  lexer :=
    { stopOnError := cs.all (·.lexer.stopOnError)
      maxInputLength := (cs.filterMap (·.lexer.maxInputLength)).getLast?
      traceTokens := cs.any (·.lexer.traceTokens) }
  logging := { level := (lastLevel? cs).getD "info" }

/-- Configurations merged in the order of a list, two and two in some grouping, with default ones
anywhere among them. -/
inductive Merged : List Config → Config → Prop
  | default : Merged [] {}
  | single (c : Config) : Merged [c] c
  | merge {cs ds : List Config} {c d : Config} :
      Merged cs c → Merged ds d → Merged (cs ++ ds) (c.merge d)

theorem together_singleton (c : Config) : together [c] = c := by
  obtain ⟨⟨stop, limit, trace⟩, ⟨level⟩⟩ := c
  by_cases h : level = "info"
  · cases limit <;> simp [together, lastLevel?, h]
  · cases limit <;> simp [together, lastLevel?, h]

theorem lastLevel?_append (cs ds : List Config) :
    lastLevel? (cs ++ ds) = (lastLevel? ds).or (lastLevel? cs) := by
  rw [lastLevel?, List.map_append, List.filter_append, List.getLast?_append]
  rfl

theorem ne_of_lastLevel? {cs : List Config} {level : String} (h : lastLevel? cs = some level) :
    level ≠ "info" :=
  of_decide_eq_true (List.mem_filter.1 (List.mem_of_getLast? h)).2

theorem together_lexer_append (cs ds : List Config) :
    (together (cs ++ ds)).lexer = (together cs).lexer.merge (together ds).lexer := by
  simp only [together, Settings.merge, List.all_append, List.filterMap_append, List.any_append,
    List.getLast?_append]

theorem together_logging_append (cs ds : List Config) :
    (together (cs ++ ds)).logging = (together cs).logging.merge (together ds).logging := by
  unfold together Logging.merge
  rw [lastLevel?_append]
  rcases h : lastLevel? ds with _ | level
  · rfl
  · exact (if_neg (ne_of_lastLevel? h)).symm

/-- Lists one behind the other are merged. -/
theorem together_append (cs ds : List Config) :
    together (cs ++ ds) = (together cs).merge (together ds) := by
  rw [merge, ← together_lexer_append, ← together_logging_append]

/-! ## The grouping does not matter -/

theorem Merged.eq_together {cs : List Config} {c : Config} (h : Merged cs c) :
    c = together cs := by
  induction h with
  | default => rfl
  | single c => exact (together_singleton c).symm
  | merge _ _ hc hd => rw [together_append, ← hc, ← hd]

/-- Merging from the left is one of the groupings. -/
theorem Merged.foldl {cs ds : List Config} {c : Config} (h : Merged cs c) :
    Merged (cs ++ ds) (ds.foldl Config.merge c) := by
  induction ds generalizing cs c with
  | nil => rwa [List.append_nil]
  | cons d ds ih =>
    have hnext := ih (h.merge (.single d))
    rwa [List.append_assoc] at hnext

theorem foldl_merge_eq (c : Config) (cs : List Config) :
    cs.foldl merge c = together (c :: cs) :=
  (Merged.single c).foldl.eq_together

theorem merge_assoc (c d e : Config) : (c.merge d).merge e = c.merge (d.merge e) := by
  have hleft := ((Merged.single c).merge (.single d)).merge (.single e)
  have hright := (Merged.single c).merge ((Merged.single d).merge (.single e))
  rw [hleft.eq_together, hright.eq_together, List.append_assoc]

theorem default_merge (c : Config) : merge {} c = c := by
  rw [(Merged.default.merge (.single c)).eq_together]
  exact together_singleton c

theorem merge_default (c : Config) : c.merge {} = c := by
  rw [((Merged.single c).merge .default).eq_together]
  exact together_singleton c

theorem merge_self (c : Config) : c.merge c = c := by
  obtain ⟨⟨stop, limit, trace⟩, ⟨level⟩⟩ := c
  simp [merge, Settings.merge, Logging.merge]

/-! ## The law -/

/-- Merged configurations are a monoid in which repeating changes nothing, and what they come to is
known from their list. -/
structure MergesAsLists : Prop where
  assoc : ∀ c d e : Config, (c.merge d).merge e = c.merge (d.merge e)
  default_merge : ∀ c : Config, merge {} c = c
  merge_default : ∀ c : Config, c.merge {} = c
  merge_self : ∀ c : Config, c.merge c = c
  /-- From the left, in the order of the list. -/
  in_order : ∀ (c : Config) (cs : List Config), cs.foldl merge c = together (c :: cs)
  /-- In any other grouping, and with default configurations among them. -/
  in_any_grouping : ∀ (cs : List Config) (c : Config), Merged cs c → c = together cs

theorem configurations_merge_as_lists : MergesAsLists where
  assoc := merge_assoc
  default_merge := default_merge
  merge_default := merge_default
  merge_self := merge_self
  in_order := foldl_merge_eq
  in_any_grouping _ _ h := h.eq_together

end SqlTokens.Config
