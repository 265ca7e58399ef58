/-!
The text of a document with positions in it, counted in characters. What a scanner reads is what
stands before the source's end, so that cutting a source keeps a scanner inside a part of it.
-/
namespace StaticSite.Markdown

-- Blanks within a line.
def isGap (c : Char) : Bool :=
  c == ' ' || c == '\t' || c == '\x0b' || c == '\x0c'

def isBreak (c : Char) : Bool :=
  c == '\n' || c == '\r'

def isSpace (c : Char) : Bool :=
  isGap c || isBreak c

structure Source where
  chars : Array Char
  stop : Nat

namespace Source

def ofText (text : String) : Source where
  chars := text.toList.toArray
  stop := text.length

-- The source up to a position.
def upTo (s : Source) (i : Nat) : Source :=
  { s with stop := min i s.stop }

def get? (s : Source) (i : Nat) : Option Char :=
  if i < s.stop then s.chars[i]? else none

-- The character in front of a position.
def before? (s : Source) : Nat → Option Char
  | 0 => none
  | i + 1 => s.chars[i]?

def slice (s : Source) (start stop : Nat) : List Char :=
  (s.chars.extract start (min stop s.stop)).toList

-- All that stands at and behind a position.
def rest (s : Source) (i : Nat) : List Char :=
  s.slice i s.stop

-- How many characters from a position on satisfy `p` in a row.
def countWhile (s : Source) (p : Char → Bool) (i : Nat) : Nat :=
  go (s.stop - i) i
where
  go : Nat → Nat → Nat
    | 0, _ => 0
    | n + 1, i => if (s.get? i).any p then go n (i + 1) + 1 else 0

-- How many characters in front of a position satisfy `p` in a row.
def countBack (s : Source) (p : Char → Bool) : Nat → Nat
  | 0 => 0
  | i + 1 => if (s.chars[i]?).any p then s.countBack p i + 1 else 0

-- The position behind the line break at `i`. The end of the source counts as a line break.
def break? (s : Source) (i : Nat) : Option Nat :=
  match s.get? i with
  | none => some i
  | some '\n' => some (i + 1)
  | some '\r' => some (if s.get? (i + 1) = some '\n' then i + 2 else i + 1)
  | some _ => none

def isAtBreak (s : Source) (i : Nat) : Bool :=
  (s.break? i).isSome

def skipGaps (s : Source) (i : Nat) : Nat :=
  i + s.countWhile isGap i

-- The position behind the line, if only gaps are left of it.
def blank? (s : Source) (i : Nat) : Option Nat :=
  s.break? (s.skipGaps i)

-- The position behind the gaps and the line break at `i`, or `i` where the line goes on.
def skipBlank (s : Source) (i : Nat) : Nat :=
  (s.blank? i).getD i

-- The start of the next line; only line feeds end lines here.
def nextLine (s : Source) (i : Nat) : Nat :=
  min s.stop (i + s.countWhile (· != '\n') i + 1)

def startsWith (s : Source) (i : Nat) (text : String) : Bool :=
  text.toList.isPrefixOf (s.rest i)

theorem get?_eq_none {s : Source} {i : Nat} (h : s.stop ≤ i) : s.get? i = none := by
  simp [get?, Nat.not_lt.mpr h]

theorem le_skipGaps (s : Source) (i : Nat) : i ≤ s.skipGaps i :=
  Nat.le_add_right ..

theorem countWhile.go_le {s : Source} {p : Char → Bool} (n i : Nat) :
    countWhile.go s p n i ≤ n := by
  induction n generalizing i
  case zero => simp [go]
  case succ n hi =>
    rw [go]
    split
    · exact Nat.succ_le_succ (hi _)
    · exact Nat.zero_le _

theorem countWhile_le {s : Source} {p : Char → Bool} {i : Nat} :
    s.countWhile p i ≤ s.stop - i :=
  countWhile.go_le ..

end Source

end StaticSite.Markdown
