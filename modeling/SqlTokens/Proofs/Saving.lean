-- The law of saved configurations: what was saved is loaded again, field by field, or
-- refused for the reason for which the configuration itself is refused.
import SqlTokens.Config.File
import SqlTokens.Proofs.TomlLines

namespace SqlTokens

open Toml (Says says_pair says_header spells_boolean spells_integer spells_quote)

/-! ## The lines of a configuration -/

/-- A name, an equals sign, and a value. -/
theorem says_line {name line : String} (hall : name.toList.all Toml.isKeyPart = true)
    (hne : name.toList ≠ []) (hline : line.toList = name.toList ++ [' ', '=', ' '])
    {text : String} {v : Toml.Value} (hv : Toml.Spells text.toList v) :
    Says (line ++ text).toList (some (.pair ⟨[], name.toList, v⟩)) := by
  have h := says_pair (List.all_eq_true.1 hall) hne hv
  rwa [String.toList_append, hline, List.append_assoc]

namespace Settings

/-- The settings as the entries of a table. -/
def entries (s : Settings) : List (Toml.Key × Toml.Value) :=
  [("stop_on_error".toList, .boolean s.stopOnError)] ++
    (s.maxInputLength.map fun n =>
      ("max_input_length".toList, Toml.Value.integer (some (n : Int)))).toList ++
    [("trace_tokens".toList, .boolean s.traceTokens)]

/-- Every entry has the name of a field, in the order of the fields. -/
theorem keys_sublist (s : Settings) :
    (s.entries.map Prod.fst).Sublist (fieldNames.map String.toList) := by
  unfold entries
  rcases s.maxInputLength with _ | n
  · have hsub : List.Sublist ["stop_on_error".toList, "trace_tokens".toList]
      (fieldNames.map String.toList) := by decide
    exact hsub
  · exact List.Sublist.refl _

theorem says_tomlLines (s : Settings) :
    List.Forall₂ Says (s.tomlLines.map String.toList)
      (s.entries.map fun e => some (.pair ⟨[], e.1, e.2⟩)) := by
  have hstop : Says ("stop_on_error = " ++ toString s.stopOnError).toList
      (some (.pair ⟨[], "stop_on_error".toList, .boolean s.stopOnError⟩)) :=
    says_line (by decide) (by decide) (by decide) (spells_boolean s.stopOnError)
  have htrace : Says ("trace_tokens = " ++ toString s.traceTokens).toList
      (some (.pair ⟨[], "trace_tokens".toList, .boolean s.traceTokens⟩)) :=
    says_line (by decide) (by decide) (by decide) (spells_boolean s.traceTokens)
  have hlimit : ∀ n : Nat, Says ("max_input_length = " ++ n.repr).toList
      (some (.pair ⟨[], "max_input_length".toList, .integer (some n)⟩)) := by
    intro n
    refine says_line (by decide) (by decide) (by decide) ?_
    rw [Nat.repr_eq_ofList_toDigits, String.toList_ofList]
    exact spells_integer n
  unfold tomlLines entries
  rcases s.maxInputLength with _ | n
  · exact .cons hstop (.cons htrace .nil)
  · exact .cons hstop (.cons (hlimit n) (.cons htrace .nil))

end Settings

namespace Logging

/-- The log settings as the entries of a table. -/
def entries (l : Logging) : List (Toml.Key × Toml.Value) :=
  [("level".toList, .string l.level.toList)]

theorem says_tomlLines (l : Logging) :
    List.Forall₂ Says (l.tomlLines.map String.toList)
      (l.entries.map fun e => some (.pair ⟨[], e.1, e.2⟩)) := by
  have hlevel : Says ("level = " ++ String.ofList (Toml.quote l.level.toList)).toList
      (some (.pair ⟨[], "level".toList, .string l.level.toList⟩)) := by
    refine says_line (by decide) (by decide) (by decide) ?_
    rw [String.toList_ofList]
    exact spells_quote l.level.toList
  exact .cons hlevel .nil

end Logging

namespace Config

/-- The configuration as two tables. -/
def listing (c : Config) : Toml.Listing :=
  [("lexer".toList, c.lexer.entries), ("logging".toList, c.logging.entries)]

/-- What the lines of the document say. -/
def said (c : Config) : List (Option Toml.Statement) :=
  [some (.header ⟨[], "lexer".toList, false⟩)] ++
    c.lexer.entries.map (fun e => some (.pair ⟨[], e.1, e.2⟩)) ++
    [none, some (.header ⟨[], "logging".toList, false⟩)] ++
    c.logging.entries.map fun e => some (.pair ⟨[], e.1, e.2⟩)

theorem says_tomlLines (c : Config) :
    List.Forall₂ Says (c.tomlLines.map String.toList) c.said := by
  have hlexer : Says "[lexer]".toList (some (.header ⟨[], "lexer".toList, false⟩)) := by
    have hall : "lexer".toList.all Toml.isKeyPart = true := by decide
    exact says_header (List.all_eq_true.1 hall) (by decide)
  have hlogging : Says "[logging]".toList (some (.header ⟨[], "logging".toList, false⟩)) := by
    have hall : "logging".toList.all Toml.isKeyPart = true := by decide
    exact says_header (List.all_eq_true.1 hall) (by decide)
  have hempty : Says "".toList none := rfl
  simp only [tomlLines, List.map_append]
  exact List.rel_append (List.rel_append (List.rel_append (.cons hlexer .nil)
    c.lexer.says_tomlLines) (.cons hempty (.cons hlogging .nil))) c.logging.says_tomlLines

theorem filterMap_said (c : Config) : c.said.filterMap id = c.listing.statements := by
  simp [said, Toml.Listing.statements, listing, List.filterMap_map]

/-- The saved document is read as the two tables. -/
theorem read?_toToml (c : Config) : Toml.read? c.toToml = some c.listing.table := by
  have htables : (c.listing.map Prod.fst).Nodup := by
    have hnames : ["lexer".toList, "logging".toList].Nodup := by decide
    exact hnames
  have hkeys : ∀ t ∈ c.listing, (t.2.map Prod.fst).Nodup := by
    intro t ht
    rcases List.mem_pair.1 ht with rfl | rfl
    · have hnames : (Settings.fieldNames.map String.toList).Nodup := by decide
      exact hnames.sublist c.lexer.keys_sublist
    · have hnames : (Logging.fieldNames.map String.toList).Nodup := by decide
      exact hnames
  have hmark : ((c.tomlLines.map String.toList).flatMap (· ++ ['\n'])).head? ≠ some '\ufeff' := by
    have hfront : ((c.tomlLines.map String.toList).flatMap (· ++ ['\n'])).head? = some '[' := rfl
    rw [hfront]
    decide
  have hdoc := Toml.Listing.read?_lines htables hkeys c.says_tomlLines c.filterMap_said hmark
  rwa [List.flatMap_map] at hdoc

end Config

/-! ## The tables of a configuration -/

/-- A table with no other keys than its fields is a record of what it holds under their names. -/
theorem Toml.Value.fields?_table {names : List String} {o : Toml.Origin}
    {entries : List (Toml.Key × Toml.Value)}
    (hnames : ∀ e ∈ entries, e.1 ∈ names.map String.toList) :
    (Toml.Value.table o entries).fields? names =
      some (names.map fun name => entries.lookup name.toList) := by
  have hother : entries.filter (fun e => !names.contains (String.ofList e.1)) = [] := by
    rw [List.filter_eq_nil_iff]
    intro e he
    obtain ⟨name, hname, heq⟩ := List.mem_map.1 (hnames e he)
    simp [← heq, hname]
  rw [fields?, hother]
  rfl

theorem Toml.limit?_natural {n : Nat} (h : n ≤ Numeral.maxNatural) :
    limit? (some (.integer (some (n : Int)))) = some (some n) := by
  rw [limit?, if_pos (by omega), Int.toNat_natCast]

theorem Settings.ofToml?_entries {s : Settings}
    (h : ∀ n, s.maxInputLength = some n → n ≤ Numeral.maxNatural) (o : Toml.Origin) :
    ofToml? (.table o s.entries) = some s := by
  have hfields : (Toml.Value.table o s.entries).fields? fieldNames =
      some [some (.boolean s.stopOnError),
        s.maxInputLength.map fun n => .integer (some (n : Int)), some (.boolean s.traceTokens)] := by
    rw [Toml.Value.fields?_table fun e he => s.keys_sublist.subset (List.mem_map_of_mem he)]
    unfold entries
    rcases s.maxInputLength with _ | n
    · rfl
    · rfl
  rw [ofToml?, hfields]
  obtain ⟨stop, limit, trace⟩ := s
  rcases limit with _ | n
  · rfl
  · simp only [Option.map_some, Toml.limit?_natural (h n rfl)]
    rfl

theorem Logging.ofToml?_entries (l : Logging) (o : Toml.Origin) :
    ofToml? (.table o l.entries) = some l := by
  have hfields : (Toml.Value.table o l.entries).fields? fieldNames =
      some [some (.string l.level.toList)] :=
    Toml.Value.fields?_table fun e he => List.mem_map_of_mem he
  rw [ofToml?, hfields]
  simp only [Toml.text?, String.ofList_toList]
  rfl

namespace Config

theorem ofTable?_listing {c : Config}
    (h : ∀ n, c.lexer.maxInputLength = some n → n ≤ Numeral.maxNatural) :
    ofTable? c.listing.table = some c := by
  have hfields : c.listing.table.toValue.fields? partNames =
      some [some (.table .header c.lexer.entries), some (.table .header c.logging.entries)] :=
    Toml.Value.fields?_table fun e he => by
      obtain ⟨t, ht, rfl⟩ := List.mem_map.1 he
      have hname : t.1 ∈ c.listing.map Prod.fst := List.mem_map_of_mem ht
      exact hname
  rw [ofTable?, hfields]
  simp only [Option.map_some, Option.getD_some, Settings.ofToml?_entries h,
    Logging.ofToml?_entries]
  rfl

/-! ## Loading what was saved -/

theorem fromUTF8?_toUTF8 (s : String) : String.fromUTF8? s.toUTF8 = some s := by
  have hvalid : s.toUTF8.IsValidUTF8 := s.isValidUTF8
  rw [String.fromUTF8?, dif_pos hvalid]
  rfl

/-- A saved configuration is read as it was and then checked. -/
theorem load_toToml {c : Config}
    (h : ∀ n, c.lexer.maxInputLength = some n → n ≤ Numeral.maxNatural) :
    load (.file (String.ofList c.toToml).toUTF8) = c.checked := by
  rw [load, fromUTF8?_toUTF8]
  simp only [String.toList_ofList, ofToml, read?_toToml, Option.bind_some, ofTable?_listing h]

/-- Settings and levels that fail their check are errors of the configuration. -/
theorem kind_of_check {c : Config} {e : Error} (h : c.check = .error e) :
    e.kind = .configuration := by
  have hsettings : ∀ e, c.lexer.check = .error e → e = .zeroLimit := by
    intro e h
    unfold Settings.check at h
    split at h
    · cases h
      rfl
    · cases h
  have hlevel : ∀ e, c.logging.filter = .error e → e = .unknownLevel c.logging.level := by
    intro e h
    unfold Logging.filter at h
    split at h
    · cases h
    · cases h
      rfl
  unfold check at h
  rcases hs : c.lexer.check with e' | _
  · rw [hs] at h
    cases h
    rw [hsettings _ hs]
    rfl
  · rw [hs] at h
    rcases hl : c.logging.filter with e' | f
    · rw [hl] at h
      cases h
      rw [hlevel _ hl]
      rfl
    · rw [hl] at h
      cases h

/-! ## The laws -/

/-- What has been saved is loaded as it was, if the configuration passes its check, and with the
error of the check, if it does not. The document itself is never at fault. -/
theorem a_saved_configuration_is_loaded_again (c : Config)
    (h : ∀ n, c.lexer.maxInputLength = some n → n ≤ Numeral.maxNatural) :
    ∃ place, c.save true = .ok place ∧
      (c.check = .ok () → load place = .ok c) ∧
      ∀ e, c.check = .error e → load place = .error e ∧ e.kind = .configuration := by
  refine ⟨.file (String.ofList c.toToml).toUTF8, rfl, fun hok => ?_, fun e herror => ?_⟩
  · rw [load_toToml h, checked, hok]
    rfl
  · refine ⟨?_, kind_of_check herror⟩
    rw [load_toToml h, checked, herror]
    rfl

/-- A level of two lines, with quotes of both sorts in a row, a backslash and a control character,
comes back in the error. -/
theorem a_saved_level_is_refused_by_its_name :
    let c : Config := ⟨⟨false, some Numeral.maxNatural, true⟩, ⟨"\n\"\"\"'''\\\x00"⟩⟩
    ∃ place, c.save true = .ok place ∧ load place = .error (.unknownLevel c.logging.level) := by
  intro c
  have hlimit : ∀ n, c.lexer.maxInputLength = some n → n ≤ Numeral.maxNatural := by
    rintro n ⟨⟩
    exact Nat.le_refl _
  have hcheck : c.check = .error (.unknownLevel c.logging.level) := by decide +kernel
  obtain ⟨place, hsave, -, hload⟩ := a_saved_configuration_is_loaded_again c hlimit
  exact ⟨place, hsave, (hload _ hcheck).1⟩

end Config

end SqlTokens
