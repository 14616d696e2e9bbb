-- Reading a text character by character, with the place of the next one.
import SqlTokens.Position
import SqlTokens.Text.Find

namespace SqlTokens

/-- A place between the characters of a text: what is left to read, the position of its
first character, and the length of the whole text. -/
structure Cursor where
  rest : List Char
  position : Position
  size : Nat
  deriving DecidableEq

namespace Cursor

/-- The start of a text. -/
def ofText (cs : List Char) : Cursor := ⟨cs, .start, cs.length⟩

/-- The whole text has no characters. -/
def isEmpty (c : Cursor) : Bool := c.size == 0

def isAtEnd (c : Cursor) : Bool := c.rest.isEmpty

/-- The next character. -/
def peek (c : Cursor) : Option Char := c.rest.head?

/-- The character `n` places behind the next one. -/
def peekAhead (c : Cursor) (n : Nat) : Option Char := c.rest[n]?

def startsWith (c : Cursor) (pat : List Char) : Bool := pat.isPrefixOf c.rest

/-- The first occurrence of a pattern `n` characters or more ahead, counted from the next
character. The empty pattern is not looked for. -/
def findFrom (c : Cursor) (n : Nat) (pat : List Char) : Option Nat :=
  if pat.isEmpty || decide (c.rest.length < n) then none
  else (Text.find? pat (c.rest.drop n)).map (n + ·)

/-- The cursor behind the next `n` characters, or at the end when there are fewer. -/
def skip (c : Cursor) (n : Nat) : Cursor :=
  { c with rest := c.rest.drop n, position := c.position.past (c.rest.take n) }

/-- Reads one character. -/
def advance (c : Cursor) : Option Char × Cursor := (c.peek, c.skip 1)

/-- Reads `n` characters, fewer at the end. -/
def consume (c : Cursor) (n : Nat) : List Char × Cursor := (c.rest.take n, c.skip n)

/-- Reads characters as long as they satisfy `p`. -/
def consumeWhile (c : Cursor) (p : Char → Bool) : List Char × Cursor :=
  c.consume (c.rest.takeWhile p).length

/-! ## Any series of calls -/

/-- One call on a cursor. -/
inductive Call where
  | peek
  | peekAhead (n : Nat)
  | advance
  | consume (n : Nat)
  | consumeWhile (p : Char → Bool)
  | startsWith (pat : List Char)
  | findFrom (n : Nat) (pat : List Char)
  | size
  | isEmpty
  | isAtEnd
  | save
  | restore

/-- What a call answers. -/
inductive Reply where
  | character (c : Option Char)
  | text (cs : List Char)
  | flag (b : Bool)
  | count (n : Option Nat)
  | done
  deriving DecidableEq

/-- The answer of a call and the cursor after it. A saved cursor is kept beside it, and is
taken back by `restore`. -/
def call (saved c : Cursor) : Call → Reply × Cursor
  | .peek => (.character c.peek, c)
  | .peekAhead n => (.character (c.peekAhead n), c)
  | .advance => (.character c.advance.1, c.advance.2)
  | .consume n => (.text (c.consume n).1, (c.consume n).2)
  | .consumeWhile p => (.text (c.consumeWhile p).1, (c.consumeWhile p).2)
  | .startsWith pat => (.flag (c.startsWith pat), c)
  | .findFrom n pat => (.count (c.findFrom n pat), c)
  | .size => (.count (some c.size), c)
  | .isEmpty => (.flag c.isEmpty, c)
  | .isAtEnd => (.flag c.isAtEnd, c)
  | .save => (.done, c)
  | .restore => (.done, saved)

/-- The cursor that is saved after a call. -/
def savedAfter (saved c : Cursor) : Call → Cursor
  | .save => c
  | _ => saved

/-- The answers of a series of calls, with the cursor after each. -/
def runFrom (saved c : Cursor) : List Call → List (Reply × Cursor)
  | [] => []
  | call :: calls =>
    let answer := Cursor.call saved c call
    answer :: runFrom (savedAfter saved c call) answer.2 calls

/-- The answers of a series of calls. Before anything is saved, the start counts as saved. -/
def run (c : Cursor) (calls : List Call) : List (Reply × Cursor) := runFrom c c calls

end Cursor

end SqlTokens
