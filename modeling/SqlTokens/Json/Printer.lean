-- JSON values as text without any blanks.
import SqlTokens.Json
import SqlTokens.Text.Hex

namespace SqlTokens.Json

/-- How a character of a string is written. Quotes, backslashes and control characters are
escaped, all others stand for themselves. -/
def escape (c : Char) : List Char :=
  match c with
  | '"' => ['\\', '"']
  | '\\' => ['\\', '\\']
  | '\x08' => ['\\', 'b']
  | '\x0c' => ['\\', 'f']
  | '\n' => ['\\', 'n']
  | '\r' => ['\\', 'r']
  | '\t' => ['\\', 't']
  | c => if c.toNat < 0x20 then '\\' :: 'u' :: Text.hex4 c.toNat else [c]

/-- A string between quotes. One that is no text is written as half of a surrogate pair. -/
def quote : Option (List Char) → List Char
  | some cs => '"' :: cs.flatMap escape ++ ['"']
  | none => "\"\\ud800\"".toList

mutual

/-- A value as text. -/
def print : Json → List Char
  | .null => ['n', 'u', 'l', 'l']
  | .boolean true => ['t', 'r', 'u', 'e']
  | .boolean false => ['f', 'a', 'l', 's', 'e']
  | .number n => n.text
  | .string s => quote s
  | .array items => '[' :: printItems items ++ [']']
  | .object members => '\x7b' :: printMembers members ++ ['\x7d']

/-- Values with commas between them. -/
def printItems : List Json → List Char
  | [] => []
  | [j] => j.print
  | j :: js => j.print ++ ',' :: printItems js

/-- Members with commas between them. -/
def printMembers : List (Option (List Char) × Json) → List Char
  | [] => []
  | [(name, j)] => quote name ++ ':' :: j.print
  | (name, j) :: ms => quote name ++ ':' :: j.print ++ ',' :: printMembers ms

end

end SqlTokens.Json
