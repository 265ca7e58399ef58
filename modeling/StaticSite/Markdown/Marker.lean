import StaticSite.Markdown.Tag
/-!
The markers that start blocks: list markers, thematic breaks, the marks of headings and code
fences, and which of them may end a paragraph that is still open.
-/
namespace StaticSite.Markdown

-- The marker of a list item. Items of one list share their `delimiter`.
structure ListMarker where
  delimiter : Char
  -- The number of an ordered item; zero for a bullet.
  number : Nat
  -- How far the contents of the item are indented.
  indent : Nat
  deriving DecidableEq, Repr

namespace Marker

def isBullet (c : Char) : Bool :=
  c == '-' || c == '+' || c == '*'

-- A thematic break: three or more of one mark, with blanks between them. Gives the next line.
def rule? (s : Source) (i : Nat) : Option Nat :=
  match s.get? i with
  | none => none
  | some c =>
    let stop := i + s.countWhile (fun x => x == c || x == ' ' || x == '\t') i
    if ['*', '-', '_'].contains c ∧ (s.slice i stop).count c ≥ 3 then s.break? stop else none

-- The level of the heading that number signs open.
def heading? (s : Source) (i : Nat) : Option Nat :=
  let level := s.countWhile (· == '#') i
  if 1 ≤ level ∧ level ≤ 6 ∧ (s.get? (i + level)).all isSpace then some level else none

-- The level of the heading that a line of equals signs or hyphens underlines.
def underline? (s : Source) (i : Nat) : Option (Nat × Nat) :=
  match s.get? i with
  | some '=' => (s.blank? (i + s.countWhile (· == '=') i)).map (1, ·)
  | some '-' => (s.blank? (i + s.countWhile (· == '-') i)).map (2, ·)
  | _ => none

-- The mark and the width of a fence that opens a block of code.
def fence? (s : Source) (i : Nat) : Option (Char × Nat) :=
  match s.get? i with
  | none => none
  | some c =>
    let width := s.countWhile (· == c) i
    if width < 3 then none
    else if c = '~' then some (c, width)
    else if c = '\x60' ∧ !(s.slice (i + width) (s.nextLine (i + width))).contains c then
      some (c, width)
    else none

-- Where the line of a closing fence ends. The end of the source closes every block of code.
def closingFence? (s : Source) (c : Char) (width i : Nat) : Option Nat :=
  let found := s.countWhile (· == c) i
  let stop := i + found + s.countWhile (· == ' ') (i + found)
  if s.stop ≤ i then some i
  else if width ≤ found ∧ s.isAtBreak stop then some stop
  else none

-- The number at `i`, which has at most nine digits, and how many it has.
def number (s : Source) (i : Nat) : Nat × Nat :=
  let width := s.countWhile Char.isDigit i
  ((s.slice i (i + width)).foldl (fun n c => n * 10 + (c.toNat - '0'.toNat)) 0, width)

-- The indentation of an item's contents, whose marker is `indent` columns wide with one blank
-- behind it. Five blanks or more are a block of code behind one blank.
def finishItem (s : Source) (indent : Nat) (m : Margin) : Nat × Margin :=
  if (s.blank? m.pos).isSome then (indent, m)
  else match m.take s 4 with
    | (0, _) => (indent, m)
    | (missing, m) => (indent + (4 - missing), m)

-- Reads a list marker and the blanks behind it.
def listItem? (s : Source) (m : Margin) : Option (ListMarker × Margin) := do
  let (missing, start) := m.take s 4
  let before := 4 - missing
  if missing = 0 then none
  let c ← s.get? start.pos
  let (delimiter, number, width) ←
    if isBullet c then
      if (rule? s start.pos).isSome then none else some (c, 0, 1)
    else
      let (number, digits) := number s start.pos
      match s.get? (start.pos + digits) with
      | some d =>
        if 1 ≤ digits ∧ digits ≤ 9 ∧ (d = '.' ∨ d = ')') then some (d, number, digits + 1)
        else none
      | none => none
  let (missing, behind) := (start.advance width).take s 1
  if missing = 0 || s.isAtBreak behind.pos then
    let (indent, m) := finishItem s (before + width + 1) behind
    some (⟨delimiter, number, indent⟩, m)
  else none

-- The box of a task, which stands at the start of an item: whether it is checked.
def task? (s : Source) (m : Margin) : Option (Bool × Margin) := do
  let m := (m.take s 3).2
  let [opener, box, closer, gap] := s.slice m.pos (m.pos + 4) | none
  if opener ≠ '[' ∨ closer ≠ ']' ∨ !isGap gap then none
  if isGap box then some (false, m.advance 3)
  else if box = 'x' ∨ box = 'X' then some (true, m.advance 3)
  else none

-- The delimiter and the number of a list marker at `i`, and the position behind it.
def bareItem? (s : Source) (i : Nat) : Option (Char × Nat × Nat) := do
  let c ← s.get? i
  let (delimiter, number, stop) ←
    if isBullet c then some (c, 0, i + 1)
    else
      let (number, digits) := number s i
      match s.get? (i + digits) with
      | some '.' => some ('.', number, i + digits + 1)
      | some ')' => some (')', number, i + digits + 1)
      | _ => none
  match s.get? stop with
  | some ' ' | some '\t' => some (delimiter, number, stop)
  | _ => if s.isAtBreak stop then some (delimiter, number, stop) else none

-- Whether a list marker at `i` ends an open paragraph. Outside of lists, an item of which two lines
-- are empty does not, nor does a number other than one.
def listInterrupts (s : Source) (isInList : Bool) (i : Nat) : Bool :=
  (bareItem? s i).any fun (delimiter, number, stop) =>
    isInList || (!((s.blank? stop).any fun next => (s.blank? next).isSome) &&
      (isBullet delimiter || number == 1))

-- Whether the line ends an open paragraph, list markers aside.
def interrupts (s : Source) (i : Nat) : Bool :=
  s.isAtBreak i || (rule? s i).isSome || (heading? s i).isSome || (fence? s i).isSome ||
    s.get? i == some '>' ||
    (s.get? i == some '<' && ((Tag.blockEnd? s (i + 1)).isSome || Tag.startsBlock s (i + 1)))

end Marker

end StaticSite.Markdown
