import StaticSite.Markdown.Entity
import StaticSite.Markdown.Source
import StaticSite.Text.Blank
import StaticSite.Text.Punctuation
/-!
The tokens of a line of text: the marks that may turn into emphasis, code, links, images or HTML,
the text between them and the break at the end of the line. What the marks turn into depends on
what follows, and is decided when the text is complete.
-/
namespace StaticSite.Markdown

open Text

inductive Token.Kind where
  | text
  -- A run of one mark, which may open or close emphasis.
  | run (mark : Char) (canOpen canClose : Bool)
  -- A run of backticks. A backslash takes the first of them from the opening of a span.
  | backticks (isEscaped : Bool)
  | opener (isImage : Bool)
  -- A closing bracket. It may turn out to close no reference.
  | closer (canRefer : Bool)
  | angle
  -- Stands for a text that the source spells in another way.
  | meaning (text : List Char)
  | html
  | softBreak
  | hardBreak
  deriving DecidableEq, Repr

structure Token where
  start : Nat
  stop : Nat
  kind : Token.Kind
  deriving DecidableEq, Repr

namespace Token

def width (t : Token) : Nat :=
  t.stop - t.start

def isLineBreak (t : Token) : Bool :=
  t.kind = .softBreak || t.kind = .hardBreak

-- Adds a text to tokens whose last comes first. Texts that touch are one token.
def addText (start stop : Nat) (tokens : List Token) : List Token :=
  if stop ≤ start then tokens
  else match tokens with
    | ⟨first, last, .text⟩ :: rest =>
      if last = start then ⟨first, stop, .text⟩ :: rest else ⟨start, stop, .text⟩ :: tokens
    | _ => ⟨start, stop, .text⟩ :: tokens

-- Whether a run of a mark may open emphasis: something follows it, and a mark other than `*`, or
-- one in front of punctuation, does not stand behind a letter.
def canOpen (before : Option Char) (mark : Char) (behind : Option Char) : Bool :=
  behind.any fun next => !isBlank next && match before with
    | none => true
    | some prev => (mark == '*' && !isPunctuation next) || isBlank prev || isPunctuation prev

-- Whether a run of a mark may close emphasis: closing is opening, read backwards.
def canClose (before : Option Char) (mark : Char) (behind : Option Char) : Bool :=
  before.any fun prev => !isBlank prev && match behind with
    | none => true
    | some next => (mark == '*' && !isPunctuation prev) || isBlank next || isPunctuation next

theorem canClose_eq_canOpen {before behind : Option Char} {mark : Char} :
    canClose before mark behind = canOpen behind mark before := by
  cases before <;> cases behind <;> rfl

end Token

-- A line of text. `tokens` holds its last token first.
structure Line where
  tokens : List Token
  -- Where the text ends.
  stop : Nat
  -- Where the next line starts.
  next : Nat
  -- The break behind the text; none at the end of the source.
  lineBreak : Option Token
  -- How many bars may part the line into cells, and where the last of them stands.
  bars : Nat
  lastBar : Nat

namespace Line

open Token

-- Ends a line whose text goes on from `start` to the break at `i`.
def finish (s : Source) (tokens : List Token) (start i next bars lastBar : Nat) : Line :=
  let gaps := s.countBack isGap i
  if s.countBack (· == '\\') i % 2 = 1 ∧ next < s.stop then
    { tokens := addText start (i - 1) tokens, stop := i, next, bars, lastBar
      lineBreak := some ⟨i - 1, next, .hardBreak⟩ }
  else if gaps ≥ 2 then
    { tokens := addText start (i - gaps) tokens, stop := i, next, bars, lastBar
      lineBreak := some ⟨i - gaps, next, .hardBreak⟩ }
  else
    { tokens := addText start i tokens, stop := i, next, bars, lastBar
      lineBreak := some ⟨i, next, .softBreak⟩ }

-- Reads a line from `i` on, with a text open since `start`. In a cell the line ends at a bar.
def readFrom (s : Source) (isCell : Bool) :
    Nat → List Token → Nat → Nat → Nat → Nat → Line
  | 0, tokens, start, i, bars, lastBar =>
    { tokens := addText start i tokens, stop := i, next := i, lineBreak := none, bars, lastBar }
  | n + 1, tokens, start, i, bars, lastBar =>
    let leave (width : Nat) := readFrom s isCell n tokens start (i + width) bars lastBar
    let add (kind : Kind) (width : Nat) :=
      readFrom s isCell n (⟨i, i + width, kind⟩ :: addText start i tokens) (i + width) (i + width)
        bars lastBar
    let stop : Line :=
      { tokens := addText start i tokens, stop := i, next := i, lineBreak := none, bars, lastBar }
    match s.get? i with
    | none => stop
    | some '\n' | some '\r' =>
      if isCell then stop else finish s tokens start i ((s.break? i).getD i) bars lastBar
    | some '\\' =>
      if (s.get? (i + 1)).any isAsciiPunctuation then
        let width := s.countWhile (· == '\x60') (i + 1)
        if width = 0 then readFrom s isCell n (addText start i tokens) (i + 1) (i + 2) bars lastBar
        else
          let next := i + 1 + width
          readFrom s isCell n (⟨i + 1, next, .backticks true⟩ :: addText start i tokens)
            next next bars lastBar
      else leave 1
    | some '\x60' => add (.backticks false) (s.countWhile (· == '\x60') i)
    | some '<' => add .angle 1
    | some '!' => if s.get? (i + 1) = some '[' then add (.opener true) 2 else leave 1
    | some '[' => add (.opener false) 1
    | some ']' => add (.closer true) 1
    | some '&' => match Entity.scan (s.rest (i + 1)) with
      | some (text, width) => add (.meaning text) (width + 1)
      | none => leave 1
    | some '|' =>
      if isCell then stop else readFrom s isCell n tokens start (i + 1) (bars + 1) i
    | some c =>
      if c = '*' ∨ c = '_' ∨ c = '~' then
        let width := s.countWhile (· == c) i
        let before := s.before? i
        let behind := s.get? (i + width)
        let opens := canOpen before c behind
        let closes := canClose before c behind
        if (opens || closes) && (c != '~' || width == 2) then add (.run c opens closes) width
        else leave width
      else leave 1

-- Reads the line of text that starts at `i`.
def read (s : Source) (i : Nat) : Line :=
  readFrom s false (s.stop + 1) [] i i 0 i

-- Reads the cell of a table that starts at `i`.
def readCell (s : Source) (i : Nat) : Line :=
  readFrom s true (s.stop + 1) [] i i 0 i

end Line

end StaticSite.Markdown
