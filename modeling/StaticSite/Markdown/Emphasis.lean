import StaticSite.Markdown.Mark
/-!
Emphasis. Runs of `*`, `_` and `~` are matched from left to right, each that may close with the
nearest one before it that may open. Every character of a run has a slot of its own, which holds
the character until it turns into an end of an element.
-/
namespace StaticSite.Markdown

-- A piece of text whose links and code are settled: a run that may be emphasis, or marks.
inductive Atom where
  | run (mark : Char) (count : Nat) (canOpen canClose : Bool)
  | marks (marks : List Mark)
  deriving DecidableEq, Repr

namespace Emphasis

-- A run, or what is left of it, that may open emphasis.
structure Opener where
  slot : Nat
  count : Nat
  mark : Char
  -- Whether the run may both open and close.
  isBoth : Bool
  deriving DecidableEq, Repr

-- The kinds of closing runs that fail alike.
inductive Family where
  | underscore (isBoth : Bool)
  | asterisk (remainder : Nat)
  | asteriskClosing
  | tilde
  deriving DecidableEq, Repr

structure State where
  slots : Array (List Mark)
  -- Openers, the first one at the bottom.
  stack : Array Opener
  -- Below which height of the stack a family of closing runs finds no opener.
  bounds : List (Family × Nat)

def State.bound (f : Family) (st : State) : Nat :=
  (st.bounds.lookup f).getD 0

def State.raise (f : Family) (st : State) : State :=
  { st with bounds := (f, st.stack.size) :: st.bounds.filter (·.1 ≠ f) }

-- A run that may close emphasis, or what is left of it.
structure Closer where
  slot : Nat
  count : Nat
  mark : Char
  isBoth : Bool

def lowerBound (st : State) (c : Closer) : Nat :=
  if c.mark = '_' then st.bound (.underscore c.isBoth)
  else if c.mark = '*' then
    let bound := st.bound (.asterisk (c.count % 3))
    if c.isBoth then bound else min bound (st.bound .asteriskClosing)
  else st.bound .tilde

-- Notes that no opener of the stack fits a run.
def raiseBound (st : State) (c : Closer) : State :=
  if c.mark = '_' then st.raise (.underscore c.isBoth)
  else if c.mark = '*' then
    let st := st.raise (.asterisk (c.count % 3))
    if c.isBoth then st else st.raise .asteriskClosing
  else st.raise .tilde

-- Whether an opener fits. If one of the runs may both open and close, their lengths may not add up
-- to a multiple of three, unless both are one.
def fits (c : Closer) (o : Opener) : Bool :=
  o.mark == c.mark &&
    ((!c.isBoth && !o.isBoth) || (c.count + o.count) % 3 != 0 || c.count % 3 == 0)

-- The highest place from `bound` on and below the given one whose opener fits.
def place? (st : State) (bound : Nat) (c : Closer) : Nat → Option Nat
  | 0 => none
  | i + 1 =>
    if i < bound then none
    else if (st.stack[i]?).any (fits c) then some i
    else place? st bound c i

-- Takes the nearest opener that fits, and drops those behind it.
def takeOpener (st : State) (c : Closer) : Option Opener × State :=
  match place? st (min st.stack.size (lowerBound st c)) c st.stack.size with
  | none => (none, raiseBound st c)
  | some i =>
    (st.stack[i]?, { st with
      stack := st.stack.take i
      bounds := st.bounds.map fun (f, bound) => (f, min bound i) })

-- Turns `n` characters of two runs into ends of elements, from the inside out. `start` is the slot
-- behind the opening ones and `stop` the first closing one.
def wrap (mark : Char) : Nat → Nat → Nat → Array (List Mark) → Array (List Mark)
  | 0, _, _, slots => slots
  | 1, start, stop, slots =>
    (slots.setIfInBounds (start - 1) [.enter .emphasis]).setIfInBounds stop [.leave .emphasis]
  | n + 2, start, stop, slots =>
    let e : Element := if mark = '~' then .strikethrough else .strong
    let slots := (slots.setIfInBounds (start - 2) [.enter e]).setIfInBounds (start - 1) []
    let slots := (slots.setIfInBounds stop []).setIfInBounds (stop + 1) [.leave e]
    wrap mark n (start - 2) (stop + 2) slots

-- Matches a closing run with openers as long as any of it is left.
def close : Nat → Closer → State → Closer × State
  | 0, c, st => (c, st)
  | fuel + 1, c, st =>
    if c.count = 0 then (c, st)
    else match takeOpener st c with
      | (none, st) => (c, st)
      | (some o, st) =>
        let n := min c.count o.count
        let slots := wrap c.mark n (o.slot + o.count) c.slot st.slots
        let stack := if n < o.count then
          st.stack.push { o with count := o.count - n, isBoth := c.isBoth } else st.stack
        close fuel { c with slot := c.slot + n, count := c.count - n } { st with slots, stack }

-- Matches the run that starts at a slot.
def addRun (slot : Nat) (mark : Char) (count : Nat) (canOpen canClose : Bool) (st : State) :
    State :=
  let isBoth := canOpen && canClose
  let c : Closer := { slot, count, mark, isBoth }
  let (c, st) := if canClose then close count c st else (c, st)
  if canOpen && c.count > 0 then
    { st with stack := st.stack.push { slot := c.slot, count := c.count, mark, isBoth } }
  else st

def slotsOf : Atom → List (List Mark)
  | .run mark count .. => List.replicate count [.text [mark]]
  | .marks marks => [marks]

-- Matches the runs among atoms, whose first slot is given.
def addRuns : Nat → List Atom → State → State
  | _, [], st => st
  | slot, a :: as, st =>
    let st := match a with
      | .run mark count canOpen canClose => addRun slot mark count canOpen canClose st
      | .marks _ => st
    addRuns (slot + (slotsOf a).length) as st

end Emphasis

-- The marks of atoms, with their runs turned into emphasis where they match.
def Atom.settle (atoms : List Atom) : List Mark :=
  let st : Emphasis.State :=
    { slots := (atoms.flatMap Emphasis.slotsOf).toArray, stack := #[], bounds := [] }
  (Emphasis.addRuns 0 atoms st).slots.toList.flatten

namespace Emphasis

@[simp]
theorem size_wrap {mark : Char} {n start stop : Nat} {slots : Array (List Mark)} :
    (wrap mark n start stop slots).size = slots.size := by
  fun_induction wrap mark n start stop slots <;> simp_all +zetaDelta

end Emphasis

end StaticSite.Markdown
