-- The law of stored tokens: a list of tokens is loaded again as it was stored, bit for
-- bit, unless a floating point number in it is not finite.
import SqlTokens.Proofs.JsonText
import SqlTokens.Token.Json

namespace SqlTokens

/-! ## Records -/

/-- All results are there when each one is. -/
theorem mapM_eq_some_iff {α β : Type} {f : α → Option β} {l : List α} {bs : List β} :
    l.mapM f = some bs ↔ l.map f = bs.map some := by
  induction l generalizing bs with
  | nil => cases bs <;> simp
  | cons a l ih =>
    rw [List.mapM_cons, List.map_cons]
    rcases f a with _ | b
    · cases bs <;> simp
    · cases bs with
      | nil => rcases l.mapM f with _ | bs <;> simp
      | cons c cs =>
        rw [List.map_cons, List.cons.injEq, ← ih]
        rcases l.mapM f with _ | bs <;> simp

namespace Json

/-- The members of a record are found under their names. -/
theorem only?_of_mem {fields : List (String × Json)} (hnames : (fields.map Prod.fst).Nodup)
    {f : String × Json} (hf : f ∈ fields) :
    only? (fields.map fun f => (some f.1.toList, f.2)) f.1 = some f.2 := by
  have hone : fields.filter (fun g => decide (g.1 = f.1)) = [f] := by
    induction fields with
    | nil => cases hf
    | cons g fields ih =>
      rw [List.map_cons, List.nodup_cons] at hnames
      rcases List.mem_cons.1 hf with rfl | hf
      · have hnone : fields.filter (fun g => decide (g.1 = f.1)) = [] := by
          rw [List.filter_eq_nil_iff]
          intro g hg heq
          exact hnames.1 (List.mem_map.2 ⟨g, hg, of_decide_eq_true heq⟩)
        simp [hnone]
      · have hne : g.1 ≠ f.1 := fun heq =>
          hnames.1 (heq ▸ List.mem_map_of_mem hf)
        simp [hne, ih hnames.2 hf]
  have hname : ∀ g : String × Json, (some g.1.toList = some f.1.toList) ↔ g.1 = f.1 := fun g => by
    rw [Option.some.injEq, String.toList_inj]
  rw [only?, List.filter_map]
  simp only [Function.comp_def, hname, hone, List.map_cons, List.map_nil]

/-- A record is read back from its fields. -/
theorem fields?_ofFields {fields : List (String × Json)} (hnames : (fields.map Prod.fst).Nodup) :
    (ofFields fields).fields? (fields.map Prod.fst) = some (fields.map Prod.snd) := by
  have hall : (fields.map fun f => ((some f.1.toList, f.2) : Option (List Char) × Json)).all
      (fun m => m.1.isSome) = true := by simp
  rw [ofFields, fields?, if_pos hall, mapM_eq_some_iff, List.map_map, List.map_map]
  exact List.map_congr_left fun f hf => only?_of_mem hnames hf

theorem single?_ofFields (name : String) (j : Json) :
    (ofFields [(name, j)]).single? = some (name, j) := by
  rw [ofFields, List.map_singleton, single?, String.ofList_toList]

end Json

/-! ## The parts of a token -/

theorem Kind.mem_all (k : Kind) : k ∈ Kind.all := by
  cases k with
  | keyword word => cases word <;> decide
  | literal type => cases type <;> decide
  | operator sign => cases sign <;> decide
  | delimiter mark => cases mark <;> decide
  | identifier => decide
  | error => decide

/-- No two kinds are stored under one name. -/
theorem Kind.ofName?_name (k : Kind) : ofName? k.name = some k := by
  have hnames : ∀ k ∈ Kind.all, ofName? k.name = some k := by decide +kernel
  exact hnames k k.mem_all

theorem Kind.ofJson?_toJson (k : Kind) : ofJson? k.toJson = some k := by
  rw [toJson, Json.ofText, ofJson?, String.ofList_toList, ofName?_name]

theorem Numeral.toInt?_ofInt (n : Int) : (ofInt n).toInt? = some n := by
  have hwhole : (ofInt n).isWhole = true := rfl
  rw [toInt?, if_pos hwhole]
  simp only [ofInt, valueOf_digitsOf, decide_eq_true_eq, Option.some.injEq]
  split <;> omega

theorem Json.integer?_ofInt {n : Int} (hlow : -(Numeral.maxInteger + 1) ≤ n)
    (hhigh : n ≤ Numeral.maxInteger) : (Json.number (.ofInt n)).integer? = some n := by
  rw [integer?, Numeral.toInt?_ofInt]
  exact if_pos ⟨hlow, hhigh⟩

theorem Json.natural?_ofInt {n : Nat} (h : n ≤ Numeral.maxNatural) :
    (Json.number (.ofInt n)).natural? = some n := by
  have hvalue : Numeral.valueOf (Numeral.ofInt n).whole = n := Numeral.valueOf_digitsOf n
  have hsign : (Numeral.ofInt n).negative = false := by
    rw [Numeral.ofInt, decide_eq_false_iff_not]
    omega
  have hwhole : (Numeral.ofInt n).isWhole = true := rfl
  rw [natural?, hvalue, hsign, hwhole, decide_eq_true h]
  rfl

/-- The counts of a position have 64 bits. -/
structure Position.Fits (p : Position) : Prop where
  line_le : p.line ≤ Numeral.maxNatural
  column_le : p.column ≤ Numeral.maxNatural
  offset_le : p.offset ≤ Numeral.maxNatural

theorem Position.ofJson?_toJson {p : Position} (h : p.Fits) : ofJson? p.toJson = some p := by
  have hnames : fieldNames.Nodup := by decide
  have hfields : p.toJson.fields? fieldNames = some [.number (.ofInt p.line),
    .number (.ofInt p.column), .number (.ofInt p.offset)] := Json.fields?_ofFields hnames
  rw [ofJson?, hfields]
  simp only [Json.natural?_ofInt h.line_le, Json.natural?_ofInt h.column_le,
    Json.natural?_ofInt h.offset_le]
  rfl

/-- An integer has 128 bits, one of which is the sign. -/
def Value.Fits : Value → Prop
  | .integer n => -(Numeral.maxInteger + 1) ≤ n ∧ n ≤ Numeral.maxInteger
  | _ => True

/-- A floating point number is no infinity and not NaN. -/
def Value.IsFinite : Value → Prop
  | .float x => x.isFinite = true
  | _ => True

theorem Value.ofJson?_toJson {v : Value} (h : v.Fits) (hfinite : v.IsFinite) :
    ofJson? v.toJson = some v := by
  cases v with
  | text s =>
    rw [toJson, ofJson?, Json.single?_ofFields]
    simp only [Json.ofText, Json.text?, String.ofList_toList, Option.map_some]
  | integer n =>
    rw [toJson, ofJson?, Json.single?_ofFields]
    simp only [Json.integer?_ofInt h.1 h.2, Option.map_some]
  | float x =>
    have hx : x.isFinite = true := hfinite
    rw [toJson, if_pos hx, ofJson?, Json.single?_ofFields]
    simp only [Json.float?, Numeral.toBinary64?_ofBinary64 storedStyle hx, Option.map_some]

/-- What is stored for a number that is not finite is no number. -/
theorem Value.ofJson?_toJson_eq_none {v : Value} (h : ¬ v.IsFinite) : ofJson? v.toJson = none := by
  cases v with
  | text s => exact absurd trivial h
  | integer n => exact absurd trivial h
  | float x =>
    have hx : ¬ x.isFinite = true := h
    rw [toJson, if_neg hx, ofJson?, Json.single?_ofFields]
    rfl

/-! ## What a stored record can hold -/

theorem Json.le_of_natural? {j : Json} {n : Nat} (h : j.natural? = some n) :
    n ≤ Numeral.maxNatural := by
  unfold natural? at h
  split at h
  · split at h
    · rename_i hn
      cases h
      rw [Bool.and_eq_true] at hn
      exact of_decide_eq_true hn.2
    · cases h
  · cases h

theorem Json.bounds_of_integer? {j : Json} {n : Int} (h : j.integer? = some n) :
    -(Numeral.maxInteger + 1) ≤ n ∧ n ≤ Numeral.maxInteger := by
  unfold integer? at h
  split at h
  · split at h
    · split at h
      · rename_i hn
        cases h
        exact hn
      · cases h
    · cases h
  · cases h

theorem Json.isFinite_of_float? {j : Json} {x : Binary64} (h : j.float? = some x) :
    x.isFinite = true := by
  unfold float? at h
  split at h
  · rw [Numeral.toBinary64?, Decimal.toBinary64?_eq] at h
    exact Binary64.isFinite_of_ofRatio? h
  · cases h

theorem Position.fits_of_ofJson? {j : Json} {p : Position} (h : ofJson? j = some p) : p.Fits := by
  unfold ofJson? at h
  split at h
  · rename_i line column offset _
    simp only [Option.bind_eq_bind, Option.bind_eq_some_iff] at h
    obtain ⟨l, hl, c, hc, o, ho, heq⟩ := h
    cases heq
    exact ⟨Json.le_of_natural? hl, Json.le_of_natural? hc, Json.le_of_natural? ho⟩
  · cases h

theorem Value.fits_of_ofJson? {j : Json} {v : Value} (h : ofJson? j = some v) :
    v.Fits ∧ v.IsFinite := by
  unfold ofJson? at h
  split at h
  · obtain ⟨s, -, rfl⟩ := Option.map_eq_some_iff.1 h
    exact ⟨trivial, trivial⟩
  · obtain ⟨n, hn, rfl⟩ := Option.map_eq_some_iff.1 h
    exact ⟨Json.bounds_of_integer? hn, trivial⟩
  · obtain ⟨x, hx, rfl⟩ := Option.map_eq_some_iff.1 h
    exact ⟨trivial, Json.isFinite_of_float? hx⟩
  · cases h

/-! ## Tokens -/

namespace Token

/-- The numbers of the token have the bits that are stored. -/
structure Fits (t : Token) : Prop where
  value : t.value.Fits
  position : t.position.Fits

theorem fields?_toJson (t : Token) : t.toJson.fields? fieldNames =
    some [t.kind.toJson, t.value.toJson, t.position.toJson] := by
  have hnames : fieldNames.Nodup := by decide
  exact Json.fields?_ofFields hnames

theorem ofJson?_toJson {t : Token} (h : t.Fits) (hfinite : t.value.IsFinite) :
    ofJson? t.toJson = some t := by
  rw [ofJson?, fields?_toJson]
  simp only [Kind.ofJson?_toJson, Value.ofJson?_toJson h.value hfinite,
    Position.ofJson?_toJson h.position]
  rfl

theorem ofJson?_toJson_eq_none {t : Token} (h : ¬ t.value.IsFinite) :
    ofJson? t.toJson = none := by
  rw [ofJson?, fields?_toJson]
  simp only [Kind.ofJson?_toJson, Value.ofJson?_toJson_eq_none h]
  rfl

theorem fits_of_ofJson? {j : Json} {t : Token} (h : ofJson? j = some t) :
    t.Fits ∧ t.value.IsFinite := by
  unfold ofJson? at h
  split at h
  · simp only [Option.bind_eq_bind, Option.bind_eq_some_iff] at h
    obtain ⟨k, -, v, hv, p, hp, heq⟩ := h
    cases heq
    obtain ⟨hfits, hfinite⟩ := Value.fits_of_ofJson? hv
    exact ⟨⟨hfits, Position.fits_of_ofJson? hp⟩, hfinite⟩
  · cases h

/-- What is stored keeps to the grammar. -/
theorem isStrict_toJson (t : Token) : t.toJson.IsStrict := by
  have hnumber : ∀ n : Int, (Json.number (.ofInt n)).IsStrict := Numeral.isStrict_ofInt
  have hvalue : t.value.toJson.IsStrict := by
    rcases t.value with s | n | x
    · exact ⟨trivial, trivial⟩
    · exact ⟨hnumber n, trivial⟩
    · refine ⟨?_, trivial⟩
      split
      · exact Numeral.isStrict_ofBinary64 Value.storedStyle x
      · trivial
  exact ⟨trivial, hvalue, ⟨hnumber _, hnumber _, hnumber _, trivial⟩, trivial⟩

/-- The stored text is read as the values that were printed. -/
theorem read?_store (ts : List Token) : Json.read? (store ts) = some (.array (ts.map toJson)) := by
  have hitems : Json.ItemsAreStrict (ts.map toJson) := by
    induction ts with
    | nil => trivial
    | cons t ts ih => exact ⟨t.isStrict_toJson, ih⟩
  exact Json.read?_print hitems

theorem load_store_of_finite {ts : List Token} (h : ∀ t ∈ ts, t.Fits ∧ t.value.IsFinite) :
    load (store ts) = .ok ts := by
  have hall : (ts.map toJson).mapM ofJson? = some ts := by
    rw [mapM_eq_some_iff, List.map_map]
    exact List.map_congr_left fun t ht => ofJson?_toJson (h t ht).1 (h t ht).2
  simp only [load, read?_store, hall]

theorem load_store_of_not_finite {ts : List Token} {t : Token} (ht : t ∈ ts)
    (h : ¬ t.value.IsFinite) : load (store ts) = .error .badTokens := by
  have hnone : (ts.map toJson).mapM ofJson? = none := by
    rw [Option.eq_none_iff_forall_ne_some]
    intro us hus
    rw [mapM_eq_some_iff, List.map_map] at hus
    have hmem : ofJson? t.toJson ∈ us.map some := hus ▸ List.mem_map_of_mem ht
    rw [ofJson?_toJson_eq_none h] at hmem
    obtain ⟨u, -, hu⟩ := List.mem_map.1 hmem
    cases hu
  simp only [load, read?_store, hnone]

/-- Whatever is loaded has the bits that are stored, and only finite numbers. -/
theorem fits_of_load {cs : List Char} {ts : List Token} (h : load cs = .ok ts) :
    ∀ t ∈ ts, t.Fits ∧ t.value.IsFinite := by
  unfold load at h
  split at h
  · split at h
    · rename_i items _ _ us hus
      cases h
      intro t ht
      rw [mapM_eq_some_iff] at hus
      have hmem : some t ∈ items.map ofJson? := hus ▸ List.mem_map_of_mem ht
      obtain ⟨j, -, hj⟩ := List.mem_map.1 hmem
      exact fits_of_ofJson? hj
    · cases h
  · cases h

/-! ## The laws -/

/-- Storing tokens loses nothing. A list of tokens is loaded again as it was stored if all its
floating point numbers are finite, and refused if one is not; and what has been loaded from any
text can be stored and loaded again. -/
theorem stored_tokens_are_loaded_again :
    (∀ ts : List Token, (∀ t ∈ ts, t.Fits) →
      ((∀ t ∈ ts, t.value.IsFinite) → load (store ts) = .ok ts) ∧
      ((∃ t ∈ ts, ¬ t.value.IsFinite) →
        ∃ e, load (store ts) = .error e ∧ e.kind = .json)) ∧
    ∀ (cs : List Char) (ts : List Token), load cs = .ok ts →
      (∀ t ∈ ts, t.value.IsFinite) ∧ load (store ts) = .ok ts := by
  refine ⟨fun ts hfits => ⟨fun hfinite => ?_, ?_⟩, fun cs ts h => ?_⟩
  · exact load_store_of_finite fun t ht => ⟨hfits t ht, hfinite t ht⟩
  · rintro ⟨t, ht, hnot⟩
    exact ⟨.badTokens, load_store_of_not_finite ht hnot, rfl⟩
  · have hloaded := fits_of_load h
    exact ⟨fun t ht => (hloaded t ht).2, load_store_of_finite hloaded⟩

/-- A text with a quote and a newline, the least integer and the negative zero are loaded as they
were stored; infinity is refused; a record in the form of an array is loaded, and stored in
another form. -/
theorem tokens_at_the_limits_are_loaded_again :
    let ts : List Token :=
      [⟨.literal .string, .text "\"\n", ⟨1, 1, 0⟩⟩,
        ⟨.literal .integer, .integer (-(Numeral.maxInteger + 1)), ⟨2, 3, 5⟩⟩,
        ⟨.literal .float, .float (.zero true), ⟨2, 5, Numeral.maxNatural⟩⟩]
    let infinite : Token :=
      ⟨.literal .float, .float ⟨false, Binary64.infinity, by decide⟩, ⟨1, 1, 0⟩⟩
    let comma : Token := ⟨.delimiter .comma, .text ",", ⟨1, 2, 1⟩⟩
    let text := "[[\"Comma\",\x7b\"Text\":\",\"\x7d,[1,2,1]]]".toList
    load (store ts) = .ok ts ∧
      (∃ e, load (store [infinite]) = .error e ∧ e.kind = .json) ∧
      load text = .ok [comma] ∧ load (store [comma]) = .ok [comma] := by
  intro ts infinite comma text
  obtain ⟨hstore, hload⟩ := stored_tokens_are_loaded_again
  have hfits : ∀ t ∈ ts, t.Fits := by
    simp only [ts, List.forall_mem_cons]
    exact ⟨⟨trivial, by decide, by decide, by decide⟩,
      ⟨⟨Int.le_refl _, by decide⟩, by decide, by decide, by decide⟩,
      ⟨trivial, by decide, by decide, by decide⟩, fun t ht => absurd ht List.not_mem_nil⟩
  have hfinite : ∀ t ∈ ts, t.value.IsFinite := by
    simp only [ts, List.forall_mem_cons]
    exact ⟨trivial, trivial, rfl, fun t ht => absurd ht List.not_mem_nil⟩
  have hone : ∀ t ∈ [infinite], t.Fits := by
    rw [List.forall_mem_singleton]
    exact ⟨trivial, by decide, by decide, by decide⟩
  have hinfinite : ∃ t ∈ [infinite], ¬ t.value.IsFinite :=
    ⟨infinite, List.mem_singleton_self _, Bool.false_ne_true⟩
  have htext : load text = .ok [comma] := by decide +kernel
  exact ⟨(hstore ts hfits).1 hfinite, (hstore [infinite] hone).2 hinfinite, htext,
    (hload text [comma] htext).2⟩

end Token

end SqlTokens
