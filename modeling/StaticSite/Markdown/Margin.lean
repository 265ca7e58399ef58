import StaticSite.Markdown.Source
/-!
The left margin of a line: the blanks and markers by which the line belongs to the containers
that are open. A tab reaches to the next multiple of four columns, so a container may use a part
of a tab and leave the rest of its columns to what follows.
-/
namespace StaticSite.Markdown

-- What a line has to carry to belong to an open block.
inductive Container where
  | quote
  -- An item asks for the indentation of its contents.
  | item (indent : Nat)
  -- Lists and footnotes ask for nothing.
  | plain
  deriving DecidableEq, Repr, Inhabited

-- A place in the margin of a line. `columns` are left over from the tab in front of `pos`.
structure Margin where
  pos : Nat
  -- Where tabs are counted from: the start of the line or the end of the last tab.
  base : Nat
  columns : Nat
  deriving DecidableEq, Repr

namespace Margin

-- The margin of the line that starts at `i`.
def ofLine (i : Nat) : Margin where
  pos := i
  base := i
  columns := 0

-- Takes at most `n` columns, and tells how many of them were missing.
def take (s : Source) : Nat → Margin → Nat × Margin
  | 0, m => (0, m)
  | n + 1, m =>
    if m.columns > 0 then take s n { m with columns := m.columns - 1 }
    else match s.get? m.pos with
      | some ' ' => take s n { m with pos := m.pos + 1 }
      | some '\t' =>
        take s n { pos := m.pos + 1, base := m.pos + 1, columns := 3 - (m.pos - m.base) % 4 }
      | _ => (n + 1, m)

-- Takes exactly `n` columns.
def take? (s : Source) (n : Nat) (m : Margin) : Option Margin :=
  match m.take s n with
  | (0, m) => some m
  | _ => none

def skipBlanks (s : Source) (m : Margin) : Margin where
  pos := m.pos + s.countWhile (fun c => c == ' ' || c == '\t') m.pos
  base := m.base
  columns := 0

def advance (n : Nat) (m : Margin) : Margin :=
  { m with pos := m.pos + n }

-- The mark of a block quote, with the blank that may follow it.
def quote? (s : Source) (m : Margin) : Option Margin :=
  let m := (m.take s 3).2
  if s.get? m.pos = some '>' then some ((m.advance 1).take s 1).2 else none

-- Enters one container. A line that ends early belongs to an item all the same.
def enter? (s : Source) (m : Margin) : Container → Option Margin
  | .quote => m.quote? s
  | .item indent =>
    let (missing, m) := m.take s indent
    if missing = 0 || s.isAtBreak m.pos then some m else none
  | .plain => some m

-- Enters containers, the outermost first, as long as the line belongs to them, and tells which it
-- does not belong to.
def enter (s : Source) (m : Margin) : List Container → Margin × List Container
  | [] => (m, [])
  | c :: cs => match m.enter? s c with
    | some m => m.enter s cs
    | none => (m, c :: cs)

-- Enters all of the containers.
def enterAll? (s : Source) (m : Margin) (cs : List Container) : Option Margin :=
  match m.enter s cs with
  | (m, []) => some m
  | _ => none

@[simp]
theorem take_zero {s : Source} {m : Margin} : m.take s 0 = (0, m) := by
  simp [take]

theorem take_fst_le {s : Source} {n : Nat} {m : Margin} : (m.take s n).1 ≤ n := by
  fun_induction take s n m <;> simp_all <;> omega

@[simp]
theorem enter_nil {s : Source} {m : Margin} : m.enter s [] = (m, []) :=
  rfl

theorem enterAll?_cons {s : Source} {m : Margin} {c : Container} {cs : List Container} :
    m.enterAll? s (c :: cs) = (m.enter? s c).bind (·.enterAll? s cs) := by
  cases h : m.enter? s c <;> simp [enterAll?, enter, h]

end Margin

end StaticSite.Markdown
