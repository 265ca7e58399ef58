import StaticSite.Text.Digits
import StaticSite.Yaml.Cursor
import StaticSite.Yaml.Error
/-!
Scalars between quotes. Line breaks inside are folded: one becomes a space, of several the first
is dropped; gaps around a break vanish.
-/
namespace StaticSite.Yaml.Quoted

open Text

-- The characters that a backslash and one letter stand for.
def escapes : List (Char × Char) :=
  [('0', '\x00'), ('a', '\x07'), ('b', '\x08'), ('t', '\t'), ('\t', '\t'), ('n', '\n'),
   ('v', '\x0b'), ('f', '\x0c'), ('r', '\r'), ('e', '\x1b'), (' ', ' '), ('"', '"'),
   ('\'', '\''), ('\\', '\\'), ('N', '\u0085'), ('_', '\u00a0'), ('L', '\u2028'),
   ('P', '\u2029')]

-- How many hexadecimal digits follow an escape that names a code point.
def codeLength? : Char → Option Nat
  | 'x' => some 2
  | 'u' => some 4
  | 'U' => some 8
  | _ => none

-- Reads what follows a backslash.
def escaped (c : Cursor) : Except Error (Char × Cursor) :=
  match c.peek? with
  | none => .error .badEscape
  | some letter => match escapes.lookup letter, codeLength? letter with
    | some meaning, _ => .ok (meaning, c.advance)
    | none, none => .error .badEscape
    | none, some n =>
      let digits := c.advance.rest.take n
      let code := ofHex digits
      if digits.length = n ∧ digits.all isHexDigit ∧ code.isValidChar then
        .ok (.ofNat code, c.advanceBy (n + 1))
      else .error .badEscape

-- What stopped a run of characters that are neither gaps nor breaks.
inductive Stop where
  | quote
  | escapedBreak
  | blank

-- Reads up to the closing quote, a gap, a break or an escaped break. `text` is reversed.
def run (quote : Char) : Nat → List Char → Cursor → Except Error (Stop × List Char × Cursor)
  | 0, _, _ => .error .unclosedQuote
  | n + 1, text, c => match c.peek?, c.peek? 1 with
    | none, _ => .ok (.blank, text, c)
    | some x, y =>
      if isGap x || isBreak x then .ok (.blank, text, c)
      else if x = quote then
        if quote = '\'' ∧ y = some '\'' then run quote n ('\'' :: text) (c.advanceBy 2)
        else .ok (.quote, text, c.advance)
      else if x = '\\' ∧ quote = '"' then
        if y.any isBreak then .ok (.escapedBreak, text, c.advance.skipBreak)
        else do
          let (meaning, c) ← escaped c.advance
          run quote n (meaning :: text) c
      else run quote n (x :: text) c.advance

-- The blanks between two runs: the gaps before the first break, the last of them first, and how
-- many breaks follow the first.
structure Blanks where
  gaps : List Char := []
  broken : Bool
  breaks : Nat := 0

-- What blanks stand for; `escaped` tells that they began with an escaped break.
def Blanks.fold (b : Blanks) (escaped : Bool) : List Char :=
  if escaped then List.replicate b.breaks '\n'
  else if !b.broken then b.gaps
  else if b.breaks = 0 then [' ']
  else List.replicate b.breaks '\n'

-- Collects gaps and breaks.
def blanks (escaped : Bool) : Nat → Blanks → Cursor → Blanks × Cursor
  | 0, b, c => (b, c)
  | n + 1, b, c => match c.peek? with
    | none => (b, c)
    | some x =>
      if isGap x then
        blanks escaped n (if b.broken then b else { b with gaps := x :: b.gaps }) c.advance
      else if isBreak x then
        blanks escaped n
          (if b.broken then { b with breaks := b.breaks + 1 } else { b with broken := true })
          c.skipBreak
      else (b, c)

-- Reads the rest of a quoted scalar, after its opening quote.
def scan (quote : Char) (c : Cursor) : Except Error (String × Cursor) :=
  go (c.rest.length + 1) [] c
where
  go : Nat → List Char → Cursor → Except Error (String × Cursor)
  | 0, _, _ => .error .unclosedQuote
  | n + 1, text, c =>
    if c.atDocumentMark ∨ c.rest.isEmpty then .error .unclosedQuote
    else do
      let (stop, text, c) ← run quote (c.rest.length + 1) text c
      let resume (escaped : Bool) :=
        let (b, c) := blanks escaped (c.rest.length + 1) { broken := escaped } c
        go n (b.fold escaped ++ text) c
      match stop with
      | .quote => .ok (.ofList text.reverse, c)
      | .escapedBreak => resume true
      | .blank => resume false

end StaticSite.Yaml.Quoted
