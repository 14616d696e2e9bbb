-- One token read off the front of a text: how many characters belong to it, what
-- kind it is, and what value it has. Every first character starts a token; one
-- that starts no token of the language is an error by itself.
import SqlTokens.Token
import SqlTokens.Text.Find

namespace SqlTokens

/-- A stretch of text that makes one token. -/
structure Lexeme where
  kind : Kind
  value : Value
  length : Nat
  deriving DecidableEq

namespace Lexeme

def isWordStart (c : Char) : Bool := c.isAlpha || c == '_'

def isWordPart (c : Char) : Bool := c.isAlphanum || c == '_'

/-- A lexeme whose value is a text. -/
def ofText (kind : Kind) (cs : List Char) (length : Nat) : Lexeme :=
  ⟨kind, .text (String.ofList cs), length⟩

/-! ## Errors -/

/-- A character that starts no token. -/
def unexpected (c : Char) : Lexeme :=
  ofText .error ("Unexpected character: '".toList ++ [c, '\'']) 1

/-- An integer literal of more bits than a signed number has. -/
def integerTooLarge (digits : List Char) : Lexeme :=
  ofText .error ("Integer literal out of range: ".toList ++ digits) digits.length

/-- A literal with a fraction whose nearest floating point number is infinite. -/
def floatTooLarge (literal : List Char) : Lexeme :=
  ofText .error ("Float literal out of range: ".toList ++ literal) literal.length

/-! ## Words, quoted texts, numbers, operators -/

/-- A word is as long as possible. A keyword has its capital spelling as text. -/
def word (cs : List Char) : Lexeme :=
  let w := cs.takeWhile isWordPart
  match Keyword.ofWord? w with
  | some keyword => ofText (.keyword keyword) (w.map Char.toUpper) w.length
  | none => ofText .identifier w w.length

/-- The text between a quote, which has been read, and the next one. Nothing is escaped. -/
def quoted? (quote : Char) (kind : Kind) (cs : List Char) : Option Lexeme :=
  (Text.find? [quote] cs).map fun n => ofText kind (cs.take n) (n + 2)

/-- A literal without a fraction. -/
def integer (digits : List Char) : Lexeme :=
  if Numeral.valueOf digits ≤ Numeral.maxInteger then
    ⟨.literal .integer, .integer (Numeral.valueOf digits), digits.length⟩
  else integerTooLarge digits

/-- A literal with a fraction. -/
def float (n : Numeral) : Lexeme :=
  match Binary64.ofRatio? false n.decimal.num n.decimal.den with
  | some x => ⟨.literal .float, .float x, n.text.length⟩
  | none => floatTooLarge n.text

/-- A number has a fraction only where a digit follows the point. -/
def number (cs : List Char) : Lexeme :=
  let whole := cs.takeWhile Char.isDigit
  match cs.dropWhile Char.isDigit with
  | '.' :: more =>
    let fraction := more.takeWhile Char.isDigit
    if fraction.isEmpty then integer whole else float ⟨false, whole, fraction, none⟩
  | _ => integer whole

/-- The operator at the front of a text. One of two characters goes before one of a single
character. -/
def operator? : List Char → Option Lexeme
  | '<' :: '=' :: _ => some (ofText (.operator .lessEqual) ['<', '='] 2)
  | '>' :: '=' :: _ => some (ofText (.operator .greaterEqual) ['>', '='] 2)
  | '<' :: '>' :: _ => some (ofText (.operator .notEqual) ['<', '>'] 2)
  | '!' :: '=' :: _ => some (ofText (.operator .notEqual) ['!', '='] 2)
  | '=' :: _ => some (ofText (.operator .equal) ['='] 1)
  | '<' :: _ => some (ofText (.operator .less) ['<'] 1)
  | '>' :: _ => some (ofText (.operator .greater) ['>'] 1)
  | '+' :: _ => some (ofText (.operator .plus) ['+'] 1)
  | '-' :: _ => some (ofText (.operator .minus) ['-'] 1)
  | '*' :: _ => some (ofText (.operator .multiply) ['*'] 1)
  | '/' :: _ => some (ofText (.operator .divide) ['/'] 1)
  | _ => none

/-- The delimiter that a character is. -/
def delimiter? : Char → Option Lexeme
  | '(' => some (ofText (.delimiter .leftParen) ['('] 1)
  | ')' => some (ofText (.delimiter .rightParen) [')'] 1)
  | ',' => some (ofText (.delimiter .comma) [','] 1)
  | ';' => some (ofText (.delimiter .semicolon) [';'] 1)
  | '.' => some (ofText (.delimiter .dot) ['.'] 1)
  | _ => none

/-- The lexeme at the front of a text that starts with `c`. -/
def scan (c : Char) (cs : List Char) : Lexeme :=
  if isWordStart c then word (c :: cs)
  else if c.isDigit then number (c :: cs)
  else if c = '"' then (quoted? c .identifier cs).getD (unexpected c)
  else if c = '\'' then (quoted? c (.literal .string) cs).getD (unexpected c)
  else ((operator? (c :: cs)).or (delimiter? c)).getD (unexpected c)

end Lexeme

end SqlTokens
