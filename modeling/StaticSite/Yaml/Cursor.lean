/-!
A place in a YAML text, with its line and column. The text ends at its first NUL. Main statement:
advancing over a part of the rest drops that part (`rest_advanceBy`).
-/
namespace StaticSite.Yaml

-- Whether `c` ends a line.
def isBreak (c : Char) : Bool :=
  c == '\n' || c == '\r'

-- Whether `c` parts words on one line.
def isGap (c : Char) : Bool :=
  c == ' ' || c == '\t'

-- The characters of anchors, tag handles and directive names.
def isWordChar (c : Char) : Bool :=
  c.isAlphanum || c == '_' || c == '-'

-- The brackets of flow collections and the comma between their entries.
def isFlowIndicator (c : Char) : Bool :=
  c == ',' || c == '[' || c == ']' || c == '\x7b' || c == '\x7d'

-- Whether the text ends here or a gap or a line break follows.
def endsWord : Option Char → Bool
  | none => true
  | some c => isGap c || isBreak c

structure Cursor where
  rest : List Char
  index : Nat
  line : Nat
  column : Nat

namespace Cursor

variable (c : Cursor)

def ofText (text : String) : Cursor :=
  ⟨text.toList.takeWhile (· ≠ '\x00'), 0, 0, 0⟩

-- The next character, or the one `n` places after it.
def peek? (n : Nat := 0) : Option Char :=
  c.rest[n]?

-- Moves over one character. Only a line feed starts a new line.
def advance : Cursor → Cursor
  | ⟨[], i, l, k⟩ => ⟨[], i, l, k⟩
  | ⟨'\n' :: rest, i, l, _⟩ => ⟨rest, i + 1, l + 1, 0⟩
  | ⟨_ :: rest, i, l, k⟩ => ⟨rest, i + 1, l, k + 1⟩

def advanceBy : Nat → Cursor → Cursor
  | 0, c => c
  | n + 1, c => advanceBy n c.advance

def skipWhile (p : Char → Bool) : Cursor :=
  c.advanceBy (c.rest.takeWhile p).length

-- Moves over one line break, if one follows; a carriage return and a line feed are one.
def skipBreak : Cursor :=
  match c.rest with
  | '\r' :: '\n' :: _ => c.advanceBy 2
  | x :: _ => if isBreak x then c.advance else c
  | [] => c

-- Moves to the end of a comment, if one follows.
def skipComment : Cursor :=
  if c.peek? = some '#' then c.skipWhile (!isBreak ·) else c

def atBreak : Bool :=
  c.peek?.any isBreak

def atLineEnd : Bool :=
  c.peek?.all isBreak

-- Whether a line begins here with `---` or `...` on its own.
def atDocumentMark : Bool :=
  c.column = 0 && endsWord (c.peek? 3) &&
    (c.rest.take 3 == ['-', '-', '-'] || c.rest.take 3 == ['.', '.', '.'])

@[simp]
theorem rest_advance : c.advance.rest = c.rest.tail := by
  unfold advance
  split <;> rfl

@[simp]
theorem rest_advanceBy (n : Nat) : (c.advanceBy n).rest = c.rest.drop n := by
  induction n generalizing c with
  | zero => rfl
  | succ n ih => simp [advanceBy, ih]

end Cursor

end StaticSite.Yaml
