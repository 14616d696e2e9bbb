-- Reading a TOML document: keys, values, headers, and the lines that hold them.
import SqlTokens.Toml.Quoted
import SqlTokens.Toml.Scalar
import SqlTokens.Toml.Value

namespace SqlTokens.Toml

/-- How deep arrays and inline tables may be nested. -/
def maxDepth : Nat := 80

/-- How many parts a dotted key may have. -/
def maxParts : Nat := 80

/-! ## Blanks, comments, lines -/

/-- A text without the blanks at its front. -/
def skipBlanks (cs : List Char) : List Char := cs.dropWhile fun c => c == ' ' || c == '\t'

/-- Reads a newline, or the end of the text. -/
def newline? : List Char → Option (List Char)
  | [] => some []
  | '\n' :: rest => some rest
  | '\r' :: '\n' :: rest => some rest
  | _ => none

/-- Reads the end of a line, perhaps with a comment in front of it. -/
def lineEnd? (cs : List Char) : Option (List Char) :=
  match skipBlanks cs with
  | '#' :: cs => newline? (cs.dropWhile isPlain)
  | cs => newline? cs

/-- A text without the blanks, newlines and comments at its front. The flag says that the text
starts inside a comment. -/
def skipGap? : Bool → List Char → Option (List Char)
  | _, [] => some []
  | _, '\n' :: cs => skipGap? false cs
  | _, '\r' :: '\n' :: cs => skipGap? false cs
  | true, c :: cs => if isPlain c then skipGap? true cs else none
  | false, c :: cs =>
    if c = ' ' ∨ c = '\t' then skipGap? false cs
    else if c = '#' then skipGap? true cs
    else some (c :: cs)

/-! ## Keys -/

/-- The characters of a key without quotes. -/
def isKeyPart (c : Char) : Bool := c.isAlphanum || c == '_' || c == '-'

/-- Reads one part of a key. -/
def key? : List Char → Option (Key × List Char)
  | '"' :: cs => basic? cs
  | '\'' :: cs => literal? cs
  | cs =>
    let key := cs.takeWhile isKeyPart
    if key.isEmpty then none else some (key, cs.dropWhile isKeyPart)

/-- Reads a dotted key of at most so many parts, and the blanks behind it: the parts on the way,
and the last one. -/
def path? : Nat → List Char → Option ((List Key × Key) × List Char)
  | 0, _ => none
  | n + 1, cs => do
    let (key, rest) ← key? cs
    match skipBlanks rest with
    | '.' :: rest =>
      (path? n (skipBlanks rest)).map fun ((way, last), rest) => ((key :: way, last), rest)
    | rest => return (([], key), rest)

/-- Reads the key of a line and the sign behind it. Only blanks stand around the sign. -/
def lineKey? (cs : List Char) : Option ((List Key × Key) × List Char) := do
  let (path, rest) ← path? maxParts cs
  match rest with
  | '=' :: rest => return (path, skipBlanks rest)
  | _ => none

/-- Reads a key inside braces and the sign behind it. Newlines and comments may stand around the
sign, too. -/
def innerKey? (cs : List Char) : Option ((List Key × Key) × List Char) := do
  let (path, rest) ← path? maxParts cs
  match ← skipGap? false rest with
  | '=' :: rest => return (path, ← skipGap? false rest)
  | _ => none

/-! ## Values -/

mutual

/-- Reads a value that starts with the first character. The first argument bounds the search;
twice the length of the text and one is enough. The second one is the depth that is left for
brackets. -/
def value? : Nat → Nat → List Char → Option (Value × List Char)
  | n + 1, depth + 1, '[' :: cs => (items? n depth cs).map fun (vs, rest) => (.array vs, rest)
  | n + 1, depth + 1, '\x7b' :: cs => do
    let (pairs, rest) ← pairs? n depth cs
    let t ← Table.fill ⟨.inline, []⟩ pairs
    return (t.toValue, rest)
  | _ + 1, _, cs => ((quoted? cs).map fun (text, rest) => (.string text, rest)).or (scalar? cs)
  | 0, _, _ => none

/-- Reads the values of an array and the bracket that ends it. A comma may follow the last
value. -/
def items? : Nat → Nat → List Char → Option (List Value × List Char)
  | 0, _, _ => none
  | n + 1, depth, cs => do
    match ← skipGap? false cs with
    | ']' :: rest => return ([], rest)
    | cs =>
      let (v, rest) ← value? n depth cs
      match ← skipGap? false rest with
      | ',' :: rest => (items? n depth rest).map fun (vs, rest) => (v :: vs, rest)
      | ']' :: rest => return ([v], rest)
      | _ => none

/-- Reads the pairs of an inline table and the brace that ends it. A comma may follow the last
pair. -/
def pairs? : Nat → Nat → List Char → Option (List Pair × List Char)
  | 0, _, _ => none
  | n + 1, depth, cs => do
    match ← skipGap? false cs with
    | '\x7d' :: rest => return ([], rest)
    | cs =>
      let ((way, key), rest) ← innerKey? cs
      let (v, rest) ← value? n depth rest
      match ← skipGap? false rest with
      | ',' :: rest => (pairs? n depth rest).map fun (ps, rest) => (⟨way, key, v⟩ :: ps, rest)
      | '\x7d' :: rest => return ([⟨way, key, v⟩], rest)
      | _ => none

end

/-! ## Documents -/

/-- What a line says. -/
inductive Statement where
  | pair (p : Pair)
  | header (h : Header)

/-- Reads a header. The brackets of a repeated one stand side by side. -/
def header? : List Char → Option (Header × List Char)
  | '[' :: '[' :: cs => do
    let ((way, key), rest) ← path? maxParts (skipBlanks cs)
    match rest with
    | ']' :: ']' :: rest => return (⟨way, key, true⟩, rest)
    | _ => none
  | '[' :: cs => do
    let ((way, key), rest) ← path? maxParts (skipBlanks cs)
    match rest with
    | ']' :: rest => return (⟨way, key, false⟩, rest)
    | _ => none
  | _ => none

/-- Reads a key and its value, which may go on over further lines. -/
def pair? (cs : List Char) : Option (Pair × List Char) := do
  let ((way, key), rest) ← lineKey? cs
  let (v, rest) ← value? (2 * rest.length + 1) maxDepth rest
  return (⟨way, key, v⟩, rest)

/-- Reads what a line says. -/
def statement? (cs : List Char) : Option (Statement × List Char) :=
  match cs with
  | '[' :: _ => (header? cs).map fun (h, rest) => (.header h, rest)
  | cs => (pair? cs).map fun (p, rest) => (.pair p, rest)

/-- Reads all lines. The first argument bounds their number. -/
def statements? : Nat → List Char → Option (List Statement)
  | _, [] => some []
  | 0, _ :: _ => none
  | n + 1, cs =>
    match lineEnd? cs with
    | some rest => statements? n rest
    | none => do
      let (s, rest) ← statement? (skipBlanks cs)
      let rest ← lineEnd? rest
      return s :: (← statements? n rest)

/-- The pairs before the first header, and the sections below the headers. -/
def sections : List Statement → List Pair × List Section
  | [] => ([], [])
  | .pair p :: more => (p :: (sections more).1, (sections more).2)
  | .header h :: more => ([], ⟨some h, (sections more).1⟩ :: (sections more).2)

/-- Reads a document. A byte order mark at its front is skipped. -/
def read? (cs : List Char) : Option Table := do
  let cs := match cs with
    | '\ufeff' :: cs => cs
    | cs => cs
  let (pairs, more) := sections (← statements? cs.length cs)
  Table.ofSections (⟨none, pairs⟩ :: more)

end SqlTokens.Toml
