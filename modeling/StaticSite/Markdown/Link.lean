import StaticSite.Markdown.Escape
import StaticSite.Markdown.Margin
/-!
The parts of links: destinations, titles and labels. A label is compared with its blanks
collapsed, so that it may be broken over two lines.
-/
namespace StaticSite.Markdown

open Text

-- Where a link leads and the title that it shows.
structure Target where
  destination : List Char
  title : List Char
  deriving DecidableEq, Repr

namespace Link

-- How far a destination in angle brackets goes, without the closing bracket.
def bracketedLength? : List Char → Option Nat
  | [] => none
  | '>' :: _ => some 0
  | '\\' :: c :: cs =>
    if isAsciiPunctuation c then (bracketedLength? cs).map (· + 2)
    else (bracketedLength? (c :: cs)).map (· + 1)
  | c :: cs => if isBreak c ∨ c = '<' then none else (bracketedLength? cs).map (· + 1)

-- How far a bare destination goes. It ends at a blank or a control character, or at a parenthesis
-- that it has not opened; at most `limit + 1` may be open at once.
def bareLength? (limit : Nat) : Nat → List Char → Option Nat
  | _, [] => some 0
  | depth, '\\' :: c :: cs =>
    if isAsciiPunctuation c then (bareLength? limit depth cs).map (· + 2)
    else (bareLength? limit depth (c :: cs)).map (· + 1)
  | depth, c :: cs =>
    if c ≤ ' ' then some 0
    else if c = '(' then
      if depth > limit then none else (bareLength? limit (depth + 1) cs).map (· + 1)
    else if c = ')' then
      if depth = 0 then some 0 else (bareLength? limit (depth - 1) cs).map (· + 1)
    else (bareLength? limit depth cs).map (· + 1)

-- Reads a destination as it is written, and the position behind it.
def destination? (s : Source) (limit i : Nat) : Option (List Char × Nat) :=
  match s.rest i with
  | '<' :: cs => (bracketedLength? cs).map fun n => (cs.take n, i + n + 2)
  | cs => (bareLength? limit 0 cs).map fun n => (cs.take n, i + n)

-- What closes a title that opens with `c`.
def titleEnd? (c : Char) : Option Char :=
  if c = '"' ∨ c = '\'' then some c else if c = '(' then some ')' else none

-- Reads the title of a link up to `close`. `next` tells where the contents go on behind a line
-- break, past the margin of the line. `text` is reversed.
def readTitle (s : Source) (next : Nat → Option Nat) (opener close : Char) :
    Nat → Nat → List Char → Option (List Char × Nat)
  | 0, _, _ => none
  | n + 1, i, text => match s.get? i with
    | none => none
    | some c =>
      if c = close then some (text.reverse, i + 1)
      else if c = opener then none
      else if isBreak c then match next (i + 1) with
        | some j =>
          if i < j then readTitle s next opener close n j ('\n' :: text)
          else readTitle s next opener close n (i + 1) (c :: text)
        | none => readTitle s next opener close n (i + 1) (c :: text)
      else if c = '&' then match Entity.scan (s.rest (i + 1)) with
        | some (meaning, k) =>
          readTitle s next opener close n (i + 1 + k) (meaning.reverse ++ text)
        | none => readTitle s next opener close n (i + 1) (c :: text)
      else if c = '\\' then match s.get? (i + 1) with
        | some e =>
          if isAsciiPunctuation e then readTitle s next opener close n (i + 2) (e :: text)
          else readTitle s next opener close n (i + 1) (c :: text)
        | none => none
      else readTitle s next opener close n (i + 1) (c :: text)

def title? (s : Source) (next : Nat → Option Nat) (i : Nat) : Option (List Char × Nat) := do
  let opener ← s.get? i
  let close ← titleEnd? opener
  readTitle s next opener close (s.stop + 1) (i + 1) []

-- Reads the target of a link, from its opening parenthesis on.
def target? (s : Source) (next : Nat → Option Nat) (i : Nat) : Option (Target × Nat) := do
  if s.get? i ≠ some '(' then none
  let skip (i : Nat) := i + s.countWhile isSpace i
  let (destination, i) ← destination? s 5 (skip (i + 1))
  let (title, i) := match title? s next (skip i) with
    | some (title, i) => (title, skip i)
    | none => ([], skip i)
  if s.get? i = some ')' then some (⟨unescape destination, title⟩, i + 1) else none

end Link

namespace Label

-- Passes blanks with at most one line break; `margin` passes the margin of the next line.
def skipSpace (s : Source) (margin : Nat → Option Nat) : Nat → Bool → Nat → Option Nat
  | 0, _, _ => none
  | n + 1, wasBroken, i => match s.get? i with
    | none => some i
    | some c =>
      if isBreak c then
        if wasBroken then none
        else ((s.break? i).bind margin).bind (skipSpace s margin n true)
      else if isGap c then skipSpace s margin n wasBroken (i + 1)
      else some i

-- What a character counts toward the length of a label: letters of ASCII are free.
def weight (c : Char) : Nat :=
  if c.toNat < 128 then 0 else c.utf8Size

-- Reads a label up to its closing bracket. `text` is reversed.
def read (s : Source) (margin : Nat → Option Nat) :
    Nat → Nat → Nat → Bool → List Char → Option (List Char × Nat)
  | 0, _, _, _, _ => none
  | n + 1, i, length, isBlank, text =>
    if length ≥ 1000 then none
    else match s.get? i with
      | none | some '[' => none
      | some ']' => if isBlank then none else some (text.reverse, i + 1)
      | some '\\' => match s.get? (i + 1) with
        | none => none
        | some c => read s margin n (i + 2) (length + 1 + c.utf8Size) false (c :: '\\' :: text)
      | some c =>
        if isSpace c then match skipSpace s margin (s.stop + 1) false i with
          | none => none
          | some j => read s margin n j (length + (j - i)) isBlank (' ' :: text)
        else read s margin n (i + 1) (length + weight c) false (c :: text)

-- Reads the label whose text starts at `i`, and the position behind its closing bracket.
def scan (s : Source) (margin : Nat → Option Nat) (i : Nat) : Option (List Char × Nat) :=
  read s margin (s.stop + 1) i 0 true []

end Label

end StaticSite.Markdown
