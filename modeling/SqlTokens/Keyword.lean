-- The words that the language keeps for itself, in four tables: how a word is
-- written, the list of all words, the look-up by spelling, and the stored name.

namespace SqlTokens

/-- A reserved word. -/
inductive Keyword where
  | SELECT | FROM | WHERE | INSERT | INTO | VALUES | UPDATE | SET | DELETE
  | CREATE | TABLE | DROP | ALTER | ADD | PRIMARY | KEY
  | INTEGER | VARCHAR
  | AND | OR | NOT | NULL
  deriving DecidableEq

namespace Keyword

/-- All keywords: those that read and change rows, those that define tables, the column
types, and the connectives. -/
def all : List Keyword :=
  [.SELECT, .FROM, .WHERE, .INSERT, .INTO, .VALUES, .UPDATE, .SET, .DELETE,
   .CREATE, .TABLE, .DROP, .ALTER, .ADD, .PRIMARY, .KEY,
   .INTEGER, .VARCHAR,
   .AND, .OR, .NOT, .NULL]

/-- How a keyword is written in capitals. -/
def spelling : Keyword → String
  | .SELECT => "SELECT"
  | .FROM => "FROM"
  | .WHERE => "WHERE"
  | .INSERT => "INSERT"
  | .INTO => "INTO"
  | .VALUES => "VALUES"
  | .UPDATE => "UPDATE"
  | .SET => "SET"
  | .DELETE => "DELETE"
  | .CREATE => "CREATE"
  | .TABLE => "TABLE"
  | .DROP => "DROP"
  | .ALTER => "ALTER"
  | .ADD => "ADD"
  | .PRIMARY => "PRIMARY"
  | .KEY => "KEY"
  | .INTEGER => "INTEGER"
  | .VARCHAR => "VARCHAR"
  | .AND => "AND"
  | .OR => "OR"
  | .NOT => "NOT"
  | .NULL => "NULL"

/-- The name under which a keyword is stored. -/
def name : Keyword → String
  | .SELECT => "Select"
  | .FROM => "From"
  | .WHERE => "Where"
  | .INSERT => "Insert"
  | .INTO => "Into"
  | .VALUES => "Values"
  | .UPDATE => "Update"
  | .SET => "Set"
  | .DELETE => "Delete"
  | .CREATE => "Create"
  | .TABLE => "Table"
  | .DROP => "Drop"
  | .ALTER => "Alter"
  | .ADD => "Add"
  | .PRIMARY => "Primary"
  | .KEY => "Key"
  | .INTEGER => "Integer"
  | .VARCHAR => "Varchar"
  | .AND => "And"
  | .OR => "Or"
  | .NOT => "Not"
  | .NULL => "Null"

/-- The spellings of all keywords, in the order of `all`. -/
def spellings : List String :=
  ["SELECT", "FROM", "WHERE", "INSERT", "INTO", "VALUES", "UPDATE", "SET", "DELETE",
   "CREATE", "TABLE", "DROP", "ALTER", "ADD", "PRIMARY", "KEY",
   "INTEGER", "VARCHAR",
   "AND", "OR", "NOT", "NULL"]

/-- The look-up table from a spelling to its keyword. -/
def table : List (String × Keyword) :=
  [("SELECT", .SELECT), ("FROM", .FROM), ("WHERE", .WHERE), ("INSERT", .INSERT),
   ("INTO", .INTO), ("VALUES", .VALUES), ("UPDATE", .UPDATE), ("SET", .SET),
   ("DELETE", .DELETE), ("CREATE", .CREATE), ("TABLE", .TABLE), ("DROP", .DROP),
   ("ALTER", .ALTER), ("ADD", .ADD), ("PRIMARY", .PRIMARY), ("KEY", .KEY),
   ("INTEGER", .INTEGER), ("VARCHAR", .VARCHAR), ("AND", .AND), ("OR", .OR),
   ("NOT", .NOT), ("NULL", .NULL)]

/-- The keyword that a word is, in any mix of letter cases. Only the letters A to Z have a
case here. -/
def ofWord? (word : List Char) : Option Keyword :=
  table.lookup (String.ofList (word.map Char.toUpper))

end Keyword

end SqlTokens
