-- What a token is: a keyword, an identifier, a literal, an operator, a
-- delimiter, or the report of an error. Each kind has a label, which is shown,
-- and a name, under which it is stored.
import SqlTokens.Keyword

namespace SqlTokens

/-- Which type of value a literal has. -/
inductive LiteralType where
  | integer | float | string
  deriving DecidableEq

/-- Comparisons and arithmetic. -/
inductive Operator where
  | equal | notEqual | less | greater | lessEqual | greaterEqual
  | plus | minus | multiply | divide
  deriving DecidableEq

/-- The marks between the parts of a statement. -/
inductive Delimiter where
  | leftParen | rightParen | comma | semicolon | dot
  deriving DecidableEq

/-- The kind of a token. -/
inductive Kind where
  | keyword (word : Keyword)
  | identifier
  | literal (type : LiteralType)
  | operator (sign : Operator)
  | delimiter (mark : Delimiter)
  | error
  deriving DecidableEq

namespace LiteralType

def all : List LiteralType := [.integer, .float, .string]

def label : LiteralType → String
  | .integer => "INTEGER_LITERAL"
  | .float => "FLOAT"
  | .string => "STRING"

def name : LiteralType → String
  | .integer => "IntegerLiteral"
  | .float => "FloatLiteral"
  | .string => "StringLiteral"

end LiteralType

namespace Operator

def all : List Operator :=
  [.equal, .notEqual, .less, .greater, .lessEqual, .greaterEqual, .plus, .minus, .multiply,
   .divide]

def label : Operator → String
  | .equal => "EQUALS"
  | .notEqual => "NOT_EQUAL"
  | .less => "LESS_THAN"
  | .greater => "GREATER_THAN"
  | .lessEqual => "LESS_EQUAL"
  | .greaterEqual => "GREATER_EQUAL"
  | .plus => "PLUS"
  | .minus => "MINUS"
  | .multiply => "MULTIPLY"
  | .divide => "DIVIDE"

def name : Operator → String
  | .equal => "Equal"
  | .notEqual => "NotEqual"
  | .less => "Less"
  | .greater => "Greater"
  | .lessEqual => "LessEqual"
  | .greaterEqual => "GreaterEqual"
  | .plus => "Plus"
  | .minus => "Minus"
  | .multiply => "Multiply"
  | .divide => "Divide"

end Operator

namespace Delimiter

def all : List Delimiter := [.leftParen, .rightParen, .comma, .semicolon, .dot]

def label : Delimiter → String
  | .leftParen => "LEFT_PAREN"
  | .rightParen => "RIGHT_PAREN"
  | .comma => "COMMA"
  | .semicolon => "SEMICOLON"
  | .dot => "DOT"

def name : Delimiter → String
  | .leftParen => "LeftParen"
  | .rightParen => "RightParen"
  | .comma => "Comma"
  | .semicolon => "Semicolon"
  | .dot => "Dot"

end Delimiter

namespace Kind

/-- All kinds. -/
def all : List Kind :=
  Keyword.all.map .keyword ++ [.identifier] ++ LiteralType.all.map .literal ++
    Operator.all.map .operator ++ Delimiter.all.map .delimiter ++ [.error]

/-- The kind as it is shown. A keyword shows its spelling. -/
def label : Kind → String
  | .keyword word => word.spelling
  | .identifier => "IDENTIFIER"
  | .literal type => type.label
  | .operator sign => sign.label
  | .delimiter mark => mark.label
  | .error => "ERROR"

/-- The kind as it is stored. -/
def name : Kind → String
  | .keyword word => word.name
  | .identifier => "Identifier"
  | .literal type => type.name
  | .operator sign => sign.name
  | .delimiter mark => mark.name
  | .error => "Error"

/-- The kind that is stored under a name. -/
def ofName? (name : String) : Option Kind := all.find? fun k => k.name == name

/-- The kinds that count as keywords: those that read and change rows, those that define tables,
the column types, and the connectives. -/
def keywords : List Kind :=
  [.keyword .SELECT, .keyword .FROM, .keyword .WHERE, .keyword .INSERT, .keyword .INTO,
   .keyword .VALUES, .keyword .UPDATE, .keyword .SET, .keyword .DELETE,
   .keyword .CREATE, .keyword .TABLE, .keyword .DROP, .keyword .ALTER, .keyword .ADD,
   .keyword .PRIMARY, .keyword .KEY,
   .keyword .INTEGER, .keyword .VARCHAR,
   .keyword .AND, .keyword .OR, .keyword .NOT, .keyword .NULL]

def isKeyword (kind : Kind) : Bool := keywords.contains kind

def isLiteral : Kind → Bool
  | .literal _ => true
  | _ => false

def isOperator : Kind → Bool
  | .operator _ => true
  | _ => false

def isDelimiter : Kind → Bool
  | .delimiter _ => true
  | _ => false

end Kind

end SqlTokens
