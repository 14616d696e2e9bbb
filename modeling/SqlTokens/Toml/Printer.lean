-- Writing a text as a quoted TOML text: of five forms the first one that fits.
import SqlTokens.Text.Find
import SqlTokens.Text.Hex

namespace SqlTokens.Toml

/-- A control character that no form holds as it is: all but tab and newline. -/
def isControl (c : Char) : Bool :=
  (decide (c.toNat < 0x20) && c != '\t' && c != '\n') || c == '\x7f'

/-- How a character is written where a backslash escapes. -/
def escape (c : Char) : List Char :=
  match c with
  | '\x08' => ['\\', 'b']
  | '\t' => ['\\', 't']
  | '\n' => ['\\', 'n']
  | '\x0c' => ['\\', 'f']
  | '\r' => ['\\', 'r']
  | '"' => ['\\', '"']
  | '\\' => ['\\', '\\']
  | c => if isControl c then '\\' :: 'u' :: (Text.hex4 c.toNat).map Char.toUpper else [c]

/-- The characters between three double quotes. Newlines stand for themselves, and so do quotes,
except for the third one in a row. -/
def escapeLong : Nat → List Char → List Char
  | _, [] => []
  | n, '"' :: cs => if n = 2 then '\\' :: '"' :: escapeLong 0 cs else '"' :: escapeLong (n + 1) cs
  | _, '\n' :: cs => '\n' :: escapeLong 0 cs
  | _, c :: cs => escape c ++ escapeLong 0 cs

/-- Between double quotes. -/
def basic (cs : List Char) : List Char := '"' :: cs.flatMap escape ++ ['"']

/-- Between single quotes. -/
def literal (cs : List Char) : List Char := '\'' :: cs ++ ['\'']

/-- The newline behind three quotes that is not part of the text. -/
def lead (cs : List Char) : List Char := if '\n' ∈ cs then ['\n'] else []

/-- Between three double quotes. -/
def longBasic (cs : List Char) : List Char :=
  ['"', '"', '"'] ++ lead cs ++ escapeLong 0 cs ++ ['"', '"', '"']

/-- Between three single quotes. -/
def longLiteral (cs : List Char) : List Char :=
  ['\'', '\'', '\''] ++ lead cs ++ cs ++ ['\'', '\'', '\'']

/-- Three quotes in a row occur. -/
def hasThree (quote : Char) (cs : List Char) : Bool :=
  (Text.find? [quote, quote, quote] cs).isSome

/-- A quoted text. One line goes before several, and no escapes before escapes, as far as the
characters allow. -/
def quote (cs : List Char) : List Char :=
  let control := cs.any isControl
  let newline := cs.contains '\n'
  let backslash := cs.contains '\\'
  if !control && !newline && !backslash && !cs.contains '"' then basic cs
  else if !control && !newline && !cs.contains '\'' then literal cs
  else if !control && !backslash && !hasThree '"' cs then longBasic cs
  else if !control && !hasThree '\'' cs then longLiteral cs
  else if newline then longBasic cs
  else basic cs

end SqlTokens.Toml
