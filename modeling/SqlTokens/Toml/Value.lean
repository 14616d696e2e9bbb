-- TOML values, and tables that grow entry by entry. A table remembers how it came
-- into being, because that decides what may still be added to it.
import SqlTokens.Binary64

namespace SqlTokens.Toml

/-- A key, without its quotes. -/
abbrev Key := List Char

/-- How a table came into being. -/
inductive Origin where
  /-- Written in braces. Nothing is added to it later. -/
  | inline
  /-- Opened by its own header, which happens once. -/
  | header
  /-- A table on the way to a header. Its own header may still come. -/
  | implied
  /-- A table on the way to the last part of a dotted key. -/
  | dotted
  deriving DecidableEq

/-- A value of a document. An integer is absent when its text has the form of one but spells no
number, and a floating point number when it is too large. Of a date or a time only its presence
is kept. -/
inductive Value where
  | string (text : List Char)
  | integer (n : Option Int)
  | float (x : Option Binary64)
  | boolean (b : Bool)
  | moment
  | array (items : List Value)
  /-- The tables of a repeated header. -/
  | tables (items : List Value)
  | table (origin : Origin) (entries : List (Key × Value))

/-- A table that is being filled. -/
structure Table where
  origin : Origin
  entries : List (Key × Value)

namespace Table

def toValue (t : Table) : Value := .table t.origin t.entries

/-- The value of a key. -/
def get? (t : Table) (key : Key) : Option Value := t.entries.lookup key

/-- The table with another value for a key. A new key goes to the end. -/
def set (t : Table) (key : Key) (v : Value) : Table :=
  if (t.get? key).isSome then
    { t with entries := t.entries.map fun e => if e.1 = key then (key, v) else e }
  else { t with entries := t.entries ++ [(key, v)] }

/-- Changes what a key holds, unless `f` refuses what it holds now. -/
def update (t : Table) (key : Key) (f : Option Value → Option Value) : Option Table :=
  (f (t.get? key)).map (t.set key)

/-- Adds an entry with a new key. -/
def add (t : Table) (key : Key) (v : Value) : Option Table :=
  t.update key fun
    | none => some v
    | some _ => none

/-- The origin that a table of origin `o` has once a path that makes tables of origin `way` went
through it. A header passes all but inline tables. A dotted key passes only tables without a
header, and a table that was on the way to a header cannot have its own one any more. -/
def passed? (way o : Origin) : Option Origin :=
  match way with
  | .dotted => if o = .implied ∨ o = .dotted then some .dotted else none
  | _ => if o = .inline then none else some o

/-- Changes the table at the end of a path. Missing tables on the way are made, with origin
`way`. A repeated header on the way stands for its last table. -/
def within (way : Origin) : List Key → (Table → Option Table) → Table → Option Table
  | [], f, t => f t
  | key :: path, f, t =>
    t.update key fun
      | none => (within way path f ⟨way, []⟩).map toValue
      | some (.table o entries) =>
        (passed? way o).bind fun o => (within way path f ⟨o, entries⟩).map toValue
      | some (.tables items) =>
        match items.getLast? with
        | some (.table o entries) =>
          (within way path f ⟨o, entries⟩).map fun t => .tables (items.dropLast ++ [t.toValue])
        | _ => none
      | some _ => none

end Table

/-! ## Documents -/

/-- A dotted key with its value: the keys on the way, and the last one. -/
structure Pair where
  path : List Key
  key : Key
  value : Value

/-- A header: the keys on the way, the last one, and whether it may come again. -/
structure Header where
  path : List Key
  key : Key
  repeated : Bool

/-- The pairs below one header, or before the first one. -/
structure Section where
  header : Option Header
  pairs : List Pair

namespace Table

/-- Adds a pair. The table that gets the value is this one, or one made by dotted keys. -/
def insert (t : Table) (p : Pair) : Option Table :=
  t.within .dotted p.path fun parent =>
    if p.path.isEmpty = decide (parent.origin = .dotted) then none
    else parent.add p.key p.value

/-- Adds pairs in their order. -/
def fill (t : Table) (pairs : List Pair) : Option Table := pairs.foldlM insert t

/-- Adds a section. A header opens a new table, or one that was on the way to another; a
repeated header opens a further table each time. -/
def addSection (root : Table) (s : Section) : Option Table :=
  match s.header with
  | none => root.fill s.pairs
  | some h =>
    root.within .implied h.path fun parent => parent.update h.key fun held =>
      match held, h.repeated with
      | none, false => (fill ⟨.header, []⟩ s.pairs).map toValue
      | none, true => (fill ⟨.header, []⟩ s.pairs).map fun t => .tables [t.toValue]
      | some (.table .implied entries), false => (fill ⟨.header, entries⟩ s.pairs).map toValue
      | some (.tables items), true =>
        (fill ⟨.header, []⟩ s.pairs).map fun t => .tables (items ++ [t.toValue])
      | _, _ => none

/-- The table that the sections of a document make. -/
def ofSections (sections : List Section) : Option Table :=
  sections.foldlM addSection ⟨.header, []⟩

end Table

end SqlTokens.Toml
