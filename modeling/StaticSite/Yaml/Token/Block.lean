import StaticSite.Yaml.Cursor
import StaticSite.Yaml.Error
/-!
Block scalars: literal ones, which keep their line breaks, and folded ones, in which a single break
between two lines of text becomes a space.
-/
namespace StaticSite.Yaml.Block

-- What becomes of the line breaks at the end of a block scalar.
inductive Chomping where
  | strip
  | clip
  | keep
  deriving DecidableEq

-- The text after `|` or `>`; `indent` is zero if it is not given.
structure Header where
  chomping : Chomping
  indent : Nat

def chomping? : Option Char → Option Chomping
  | some '+' => some .keep
  | some '-' => some .strip
  | _ => none

-- Reads an indentation from one to nine, if a digit follows.
def indentation (c : Cursor) : Except Error (Nat × Cursor) :=
  match c.peek? with
  | some '0' => .error .badBlockHeader
  | some d => .ok (if d.isDigit then (d.toNat - '0'.toNat, c.advance) else (0, c))
  | none => .ok (0, c)

def header (c : Cursor) : Except Error (Header × Cursor) :=
  match chomping? c.peek? with
  | some chomping => do
    let (indent, c) ← indentation c.advance
    return (⟨chomping, indent⟩, c)
  | none => do
    let (indent, c) ← indentation c
    match if indent = 0 then none else chomping? c.peek? with
    | some chomping => return (⟨chomping, indent⟩, c.advance)
    | none => return (⟨.clip, indent⟩, c)

-- Skips empty lines and the indentation of the next line. `indent` is zero until the first line of
-- text tells it. Gives the widest indentation seen and the number of breaks.
def leading (indent : Nat) : Nat → Nat → Nat → Cursor → Except Error (Nat × Nat × Cursor)
  | 0, widest, breaks, c => .ok (widest, breaks, c)
  | n + 1, widest, breaks, c =>
    let blanks := (c.rest.takeWhile (· == ' ')).length
    let c := c.advanceBy (if indent = 0 then blanks else min blanks (indent - c.column))
    let widest := max widest c.column
    if (indent = 0 ∨ c.column < indent) ∧ c.peek? = some '\t' then .error .tabInIndentation
    else if c.atBreak then leading indent n widest (breaks + 1) c.skipBreak
    else .ok (widest, breaks, c)

-- Like `leading`, and settles the indentation if it is not known: that of the first line of text,
-- but deeper than the `parent`.
def leadingFrom (parent : Int) (indent : Nat) (c : Cursor) :
    Except Error (Nat × Nat × Cursor) := do
  let (widest, breaks, c) ← leading indent (c.rest.length + 1) 0 0 c
  return (if indent = 0 then max widest (max 1 (parent + 1).toNat) else indent, breaks, c)

-- What has been read of a block scalar.
structure Partial where
  -- The text, reversed.
  text : List Char := []
  -- Whether a break ends the last line, and is not in `text` yet.
  broken : Bool := false
  -- The empty lines after that break.
  breaks : Nat
  -- Whether the last line began with a gap.
  indented : Bool := false

-- Adds a line. A folded scalar joins two lines that begin without a gap.
def Partial.addLine (literal : Bool) (s : Partial) (line : List Char) : Partial :=
  let indented := line.head?.any isGap
  let joined :=
    if !literal ∧ s.broken ∧ !s.indented ∧ !indented then
      if s.breaks = 0 then [' '] else []
    else if s.broken then ['\n'] else []
  { text := line.reverse ++ (List.replicate s.breaks '\n' ++ (joined ++ s.text))
    breaks := 0, indented }

def Partial.finish (chomping : Chomping) (s : Partial) : String :=
  let last := if s.broken ∧ chomping ≠ .strip then ['\n'] else []
  let more := if chomping = .keep then List.replicate s.breaks '\n' else []
  .ofList (more ++ (last ++ s.text)).reverse

-- Reads the rest of a block scalar, after its indicator, inside a block indented by `parent`.
def scan (literal : Bool) (parent : Int) (c : Cursor) : Except Error (String × Cursor) := do
  let (header, c) ← header c
  let c := (c.skipWhile isGap).skipComment
  if !c.atLineEnd then .error .badBlockHeader
  let indent := if header.indent = 0 then 0 else header.indent + parent.toNat
  let (indent, breaks, c) ← leadingFrom parent indent c.skipBreak
  lines header.chomping indent (c.rest.length + 1) { breaks } c
where
  lines (chomping : Chomping) (indent : Nat) :
      Nat → Partial → Cursor → Except Error (String × Cursor)
  | 0, s, c => .ok (s.finish chomping, c)
  | n + 1, s, c =>
    if c.column ≠ indent ∨ c.rest.isEmpty then .ok (s.finish chomping, c)
    else do
      let line := c.rest.takeWhile (!isBreak ·)
      let c := c.advanceBy line.length
      let s := s.addLine literal line
      if c.rest.isEmpty then return (s.finish chomping, c)
      let (_, breaks, c) ← leading indent (c.rest.length + 1) 0 0 c.skipBreak
      lines chomping indent n { s with broken := true, breaks } c

end StaticSite.Yaml.Block
