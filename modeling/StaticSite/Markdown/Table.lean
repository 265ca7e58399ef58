import StaticSite.Markdown.Block
import StaticSite.Markdown.Marker
/-!
Tables. The line under the head of a table sets the number of columns and their alignments; rows
are filled up or cut to that number.
-/
namespace StaticSite.Markdown.Table

-- A column of the line under the head while it is read.
structure Column where
  isEmpty : Bool
  alignment : Alignment

def Column.new : Column where
  isEmpty := true
  alignment := .unset

-- A colon aligns its column to the side where it stands.
def Column.align (c : Column) : Column where
  isEmpty := false
  alignment := match c.isEmpty, c.alignment with
    | true, .unset => .left
    | false, .left => .center
    | false, .unset => .right
    | _, alignment => alignment

-- Reads the columns of the line under a head and tells how long the line is.
def readColumns : Column → List Char → Option (List Alignment × Nat)
  | c, [] => some (if c.isEmpty then [] else [c.alignment], 0)
  | c, x :: xs =>
    if isBreak x then some (if c.isEmpty then [] else [c.alignment], 0)
    else if x = '|' then
      (readColumns .new xs).map fun (columns, n) => (c.alignment :: columns, n + 1)
    else
      let next? :=
        if x = ' ' then some c
        else if x = ':' then some c.align
        else if x = '-' then some { c with isEmpty := false }
        else none
      next?.bind fun c => (readColumns c xs).map fun (columns, n) => (columns, n + 1)

-- Reads the line under a head, which is indented by three blanks at most. A bar at its very start
-- opens the first column; behind blanks a bar ends an empty column.
def columns? (s : Source) (i : Nat) : Option (List Alignment × Nat) :=
  let blanks := s.countWhile (· == ' ') i
  if blanks > 3 ∨ s.get? (i + blanks) = some '\t' ∨ s.stop ≤ i then none
  else
    let start := if s.get? i = some '|' then i + 1 else i
    (readColumns .new (s.rest start)).map fun (columns, n) =>
      (columns, (s.break? (start + n)).getD s.stop)

-- How many columns the bars of a head make, which starts at `i`.
def headColumns (s : Source) (line : Line) (i : Nat) : Nat :=
  let inner := if s.get? (s.skipGaps i) = some '|' then line.bars - 1 else line.bars
  if (s.blank? (line.lastBar + 1)).isSome then inner else inner + 1

-- Cuts the end of the text that the last token carries.
def dropLast (n : Nat) : List Token → List Token
  | [] => []
  | t :: ts => { t with stop := t.stop - n } :: ts

-- Reads the cells of a row, and where the next line starts.
def readCells (s : Source) : Nat → Nat → List Cell × Nat
  | 0, i => ([], i)
  | n + 1, i =>
    let i := if s.get? i = some '|' then i + 1 else i
    let i := s.skipGaps i
    match s.break? i with
    | some next => ([], next)
    | none =>
      let line := Line.readCell s i
      let tokens := dropLast (s.countBack isSpace line.stop) line.tokens
      let (cells, next) := readCells s n line.stop
      (⟨tokens.reverse, line.stop⟩ :: cells, next)

-- Reads a row of `columns` cells.
def readRow (s : Source) (columns i : Nat) : List Cell × Nat :=
  let (cells, next) := readCells s (2 * s.stop + 2) i
  let missing : Cell := ⟨[], next⟩
  ((cells ++ List.replicate (columns - cells.length) missing).take columns, next)

-- Reads rows up to a line that is blank, starts another block or belongs to another one.
def readRows (s : Source) (containers : List Container) (columns : Nat) :
    Nat → Nat → List (List Cell) × Nat
  | 0, i => ([], i)
  | n + 1, i => match (Margin.ofLine i).enterAll? s containers with
    | none => ([], i)
    | some m =>
      let start := (m.skipBlanks s).pos
      if Marker.interrupts s start || (s.blank? start).isSome then ([], i)
      else
        let (row, next) := readRow s columns start
        let (rows, next) := readRows s containers columns n next
        (row :: rows, next)

-- The table whose head is the line that starts at `i`, and where the table ends.
def read? (s : Source) (containers : List Container) (line : Line) (i : Nat) :
    Option (Block × Nat) := do
  if line.bars = 0 ∨ line.lineBreak = none then none
  let m ← (Margin.ofLine line.next).enterAll? s containers
  let (alignments, body) ← columns? s m.pos
  if alignments.length ≠ headColumns s line i then none
  let (head, _) := readRow s alignments.length i
  let (rows, next) := readRows s containers alignments.length (s.stop + 1) body
  some (.table i next alignments head rows, next)

theorem length_readRow {s : Source} {columns i : Nat} :
    (readRow s columns i).1.length = columns := by
  simp only [readRow, List.length_take, List.length_append, List.length_replicate]
  omega

end StaticSite.Markdown.Table
