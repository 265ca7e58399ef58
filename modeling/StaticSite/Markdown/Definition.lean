import StaticSite.Markdown.Link
import StaticSite.Markdown.Marker
/-!
Link definitions: a label in brackets, a colon, a destination and a title if there is one.
-/
namespace StaticSite.Markdown.Definition

-- Passes blanks with at most one line break, into a line of the same containers. Gives the position
-- behind them and whether there was a break.
def skipSpace (s : Source) (containers : List Container) : Nat → Bool → Nat → Option (Nat × Bool)
  | 0, _, _ => none
  | n + 1, wasBroken, i =>
    let i := s.skipGaps i
    match s.break? i with
    | none => some (i, wasBroken)
    | some next =>
      if wasBroken then none
      else ((Margin.ofLine next).enterAll? s containers).bind fun m =>
        skipSpace s containers n true m.pos

-- How far a title goes up to `close`, as it is written. It may hold no blank line.
def titleLength? (close : Char) : List Char → Option Nat
  | [] => none
  | '\\' :: cs => match cs with
    | [] => none
    | _ :: cs => (titleLength? close cs).map (· + 2)
  | c :: cs =>
    if c = close then some 0
    else if c = '\n' ∧ (cs.dropWhile isGap).head?.all (· == '\n') then none
    else (titleLength? close cs).map (· + 1)

-- Reads a title as it is written.
def title? (s : Source) (i : Nat) : Option (List Char × Nat) := do
  let close ← (s.get? i).bind Link.titleEnd?
  let n ← titleLength? close (s.rest (i + 1))
  some (s.slice (i + 1) (i + 1 + n), i + n + 2)

-- Reads what follows the colon. A title that does not end its line counts as none if it stands on a
-- line of its own, and otherwise spoils the definition.
def target? (s : Source) (containers : List Container) (i : Nat) : Option (Target × Nat) := do
  let skip := skipSpace s containers 3 false
  let (start, _) ← skip i
  let (destination, stop) ← Link.destination? s 1 start
  if stop = start then none
  let destination := unescape destination
  let untitled := some (⟨destination, []⟩, stop)
  match skip stop with
  | none => untitled
  | some (i, wasBroken) =>
    if i = stop then none
    else
      let titled := do
        let (title, stop) ← title? s i
        if (s.blank? stop).isNone then none
        some (⟨destination, unescape title⟩, stop)
      titled <|> (if wasBroken then untitled else none)

-- Passes the margin of a line that a label goes on in. The label ends where another block starts.
def labelMargin (s : Source) (containers : List Container) (isInList : Bool) (i : Nat) :
    Option Nat :=
  let i := ((Margin.ofLine i).enter s containers).1.pos
  if Marker.listInterrupts s isInList i || Marker.interrupts s i then none else some i

-- Reads a label with the colon behind it. Its text starts at `i`.
def label? (s : Source) (containers : List Container) (isInList : Bool) (i : Nat) :
    Option (List Char × Nat) := do
  let (label, stop) ← Label.scan s (labelMargin s containers isInList) i
  if s.get? stop = some ':' then some (label, stop + 1) else none

-- Reads the definition at `i`: its label, its target and the position behind it.
def read? (s : Source) (containers : List Container) (isInList : Bool) (i : Nat) :
    Option (List Char × Target × Nat) := do
  if s.get? i ≠ some '[' then none
  let (label, stop) ← label? s containers isInList (i + 1)
  let (target, stop) ← target? s containers stop
  some (label, target, stop)

end StaticSite.Markdown.Definition
