-- Where a character stands in a text: its line, its column, and how many
-- characters come before it. Only reading characters moves a position.

namespace SqlTokens

/-- A place in a text. Lines and columns count from 1, the offset from 0, and all
three count characters. -/
structure Position where
  line : Nat
  column : Nat
  offset : Nat
  deriving DecidableEq

namespace Position

/-- The place of the first character of a text. -/
def start : Position := ⟨1, 1, 0⟩

instance : Inhabited Position := ⟨start⟩

/-- The place behind one character. A newline opens the next line. -/
def step (p : Position) (c : Char) : Position :=
  if c = '\n' then ⟨p.line + 1, 1, p.offset + 1⟩
  else ⟨p.line, p.column + 1, p.offset + 1⟩

/-- The place behind a stretch of text. -/
def past (p : Position) (cs : List Char) : Position := cs.foldl step p

/-- A position in words: the line and the column. -/
def display (p : Position) : String := p.line.repr ++ ":" ++ p.column.repr

/-! ## Moving along a text -/

@[simp] theorem past_nil (p : Position) : p.past [] = p := rfl

@[simp] theorem past_cons (p : Position) (c : Char) (cs : List Char) :
    p.past (c :: cs) = (p.step c).past cs := rfl

theorem past_append (p : Position) (a b : List Char) : p.past (a ++ b) = (p.past a).past b := by
  simp [past]

theorem offset_step (p : Position) (c : Char) : (p.step c).offset = p.offset + 1 := by
  unfold step; split <;> rfl

theorem offset_past (p : Position) (cs : List Char) :
    (p.past cs).offset = p.offset + cs.length := by
  induction cs generalizing p with
  | nil => rfl
  | cons c cs ih => rw [past_cons, ih, offset_step, List.length_cons]; omega

end Position

end SqlTokens
