import StaticSite.Markdown.Autolink
import StaticSite.Markdown.Emphasis
import StaticSite.Markdown.Tag
import StaticSite.Text.CaseFold
/-!
The contents of a block: its tokens are read from left to right and turn into code, HTML, links and
images where what follows them allows it, and into text where it does not. Emphasis is settled
last, for the contents of every link on their own.
-/
namespace StaticSite.Markdown

open Text

-- A piece of the contents of a block: a token, or a block that stands between tokens.
inductive Piece where
  | token (t : Token)
  | block (start stop : Nat) (marks : List Mark)
  deriving DecidableEq, Repr

namespace Piece

def start : Piece → Nat
  | token t => t.start
  | block start .. => start

def stop : Piece → Nat
  | token t => t.stop
  | block _ stop _ => stop

-- Drops what stands before a position; the piece across it keeps what stands behind it.
def dropTo (i : Nat) (pieces : List Piece) : List Piece :=
  match pieces.dropWhile (·.stop ≤ i) with
  | token t :: rest => token { t with start := max t.start i } :: rest
  | rest => rest

-- Where the first piece that goes on behind a position starts.
def startBehind (pieces : List Piece) (i : Nat) : Option Nat :=
  (pieces.dropWhile (·.stop ≤ i)).head?.map start

def isLineBreak : Piece → Bool
  | token t => t.isLineBreak
  | block .. => false

-- The end of a span of code that opens with `count` backticks: what stands before it, the closing
-- token and what follows.
def splitCode? (count : Nat) : List Piece → Option (List Piece × Token × List Piece)
  | [] => none
  | p :: ps =>
    let isEnd := match p with
      | token ⟨start, stop, .backticks _⟩ => stop - start == count
      | _ => false
    match p, isEnd with
    | token t, true => some ([], t, ps)
    | _, _ => (splitCode? count ps).map fun (before, close, after) => (p :: before, close, after)

end Piece

-- What the contents of a block are read in.
structure Scope where
  -- The source up to the end of the block.
  source : Source
  -- The containers around the block, the outermost first.
  containers : List Container
  definitions : List (List Char × Target)

namespace Scope

def text (x : Scope) (start stop : Nat) : Mark :=
  .text (x.source.slice start stop)

-- The position behind the margin of the line that starts at `i`.
def margin (x : Scope) (i : Nat) : Option Nat :=
  some ((Margin.ofLine i).enter x.source x.containers).1.pos

-- The target of a label. The first definition of a label counts.
def find? (x : Scope) (label : List Char) : Option Target :=
  (x.definitions.find? fun (l, _) => foldCase l = foldCase label).map (·.2)

end Scope

namespace CodeSpan

-- Joins the lines of a span of code with spaces. The first line is taken as a whole, from `start`
-- on. Breaks at the ends of a span fall away with the blanks there if it is trimmed.
def join (s : Source) (stop : Nat) (isTrimmed : Bool) :
    Option (List Char) → Nat → Bool → List Piece → List Char
  | text, start, _, [] => text.getD (s.slice start stop)
  | text, start, isFirst, p :: ps =>
    let isLast := ps.isEmpty
    if p.isLineBreak then
      if isTrimmed && isFirst then
        let next := (ps.head?.map Piece.start).getD stop
        join s stop isTrimmed text (min stop next) false ps
      else if isTrimmed && isLast then join s stop isTrimmed text start false ps
      else
        let lineEnd := p.start + s.countWhile (!isBreak ·) p.start
        let line := match text with
          | none => s.slice start lineEnd
          | some text => text ++ s.slice p.start lineEnd
        join s stop isTrimmed (some (line ++ [' '])) start false ps
    else
      let piece := s.slice p.start (if isLast then stop else p.stop)
      join s stop isTrimmed (text.map (· ++ piece)) start false ps

-- The text of a span of code between two runs of backticks.
def text (s : Source) (start stop : Nat) (pieces : List Piece) : List Char :=
  let text := s.slice start stop
  let isEnd (c : Char) := c == ' ' || isBreak c
  if text.all (· == ' ') then text
  else
    let isTrimmed := text.head?.any isEnd && text.getLast?.any isEnd
    let (start, stop) :=
      if isTrimmed then (start + 1, if start + 1 < stop then stop - 1 else stop) else (start, stop)
    join s stop isTrimmed none start true pieces

end CodeSpan

-- A bracket that may open a link or an image.
structure Bracket where
  -- Where the bracket stands among the atoms.
  place : Nat
  stop : Nat
  isImage : Bool
  -- Links do not contain links: within a link that is settled, no bracket opens another.
  isDisabled : Bool
  deriving DecidableEq, Repr

-- How a reference goes on behind its first closing bracket.
inductive Reference where
  -- With a label of its own, up to a position.
  | full (label : List Char) (stop : Nat)
  -- With an empty pair of brackets.
  | collapsed
  | shortcut

namespace Inline

-- The state of reading: what is settled, the last atom first, and the open brackets, the innermost
-- first.
structure State where
  atoms : List Atom
  brackets : List Bracket

namespace State

def add (m : Mark) (st : State) : State :=
  { st with atoms := .marks [m] :: st.atoms }

-- Turns all behind a bracket, and the bracket itself, into one atom.
def replace (b : Bracket) (marks : List Mark → List Mark) (st : State) : State :=
  let contents := st.atoms.take (st.atoms.length - (b.place + 1))
  let before := st.atoms.drop (st.atoms.length - b.place)
  { st with atoms := .marks (marks (Atom.settle contents.reverse)) :: before }

-- Settles a link or an image.
def link (b : Bracket) (target : Target) (st : State) : State :=
  let e : Element := if b.isImage then .image target else .link target
  let brackets := if b.isImage then st.brackets
    else st.brackets.map fun b => if b.isImage then b else { b with isDisabled := true }
  { st.replace b (Mark.within e) with brackets }

end State

variable (x : Scope)

-- Reads what an angle bracket at `start` opens, when the next piece starts at `i`: the marks and
-- the position behind them.
def angle? (start i : Nat) : Option (List Mark × Nat) :=
  let s := x.source
  let address := s.slice i
  let shown (stop : Nat) := [x.text (start + 1) stop]
  match Autolink.resource? s i with
  | some stop => some (Mark.within (.link ⟨address stop, []⟩) (shown stop), stop + 1)
  | none => match Autolink.mailbox? s i with
    | some stop => some (Mark.within (.mail (address stop)) (shown stop), stop + 1)
    | none =>
      if s.get? i = some '!' ∨ s.get? i = some '?' then
        (Tag.special? s i).map fun stop => ([.html (s.slice start stop)], stop)
      else (Tag.scan s (some x.containers) (i - 1)).map fun t =>
        ([.html (if t.text = [] then s.slice start t.pos else t.contents s)], t.pos)

-- How a reference goes on with the given pieces.
def reference (pieces : List Piece) : Reference :=
  let s := x.source
  match pieces with
  | [] => .shortcut
  | p :: _ =>
    if s.startsWith p.start "[]" then .collapsed
    else if s.get? p.start ≠ some '[' ∨ s.get? (p.start + 1) = some '^' then .shortcut
    else match Label.scan s x.margin (p.start + 1) with
      | some (label, stop) => .full label stop
      | none => .shortcut

-- The label between the brackets of a reference, and whether it is one of a footnote.
def ownLabel? (b : Bracket) (stop : Nat) : Option (Bool × List Char) :=
  let s := x.source.upTo stop
  if s.get? b.stop = some '^' then (Label.scan s x.margin (b.stop + 1)).map fun (l, _) => (true, l)
  else (Label.scan s x.margin b.stop).map fun (l, _) => (false, l)

-- Marks the bracket that closes a label as one that closes no reference of its own.
def settleCloser (stop : Nat) : List Piece → List Piece
  | [] => []
  | .token t :: ps =>
    if t.stop < stop then .token t :: settleCloser stop ps
    else .token { t with kind := .closer false } :: ps
  | p :: ps => if p.stop < stop then p :: settleCloser stop ps else p :: ps

-- Reads the pieces behind a closing bracket that a bracket before it may match.
def closeBracket (b : Bracket) (t : Token) (canRefer : Bool) (pieces : List Piece) (st : State) :
    State × List Piece :=
  let closeText := st.add (x.text t.start t.stop)
  match Link.target? x.source (Piece.startBehind pieces) t.stop with
  | some (target, stop) => (st.link b target, Piece.dropTo stop pieces)
  | none =>
    let follow (label : Option (Bool × List Char)) (rest pieces : List Piece) :=
      match label with
      | none => (closeText, pieces)
      | some (true, label) =>
        ({ st.replace b (fun _ => [.footnoteReference label]) with brackets := [] }, rest)
      | some (false, label) => match x.find? label with
        | some target => (st.link b target, rest)
        | none => (closeText, pieces)
    match reference x pieces with
    | .full label stop =>
      follow (some (false, label)) (pieces.dropWhile (·.stop < stop)).tail
        (settleCloser stop pieces)
    | .collapsed =>
      if canRefer then follow (ownLabel? x b t.stop) (pieces.drop 2) pieces
      else (closeText, pieces)
    | .shortcut =>
      if canRefer then follow (ownLabel? x b t.stop) pieces pieces else (closeText, pieces)

-- Reads one token in front of other pieces.
def step (t : Token) (pieces : List Piece) (st : State) : State × List Piece :=
  let s := x.source
  let text := x.text t.start t.stop
  match t.kind with
  | .text => (st.add text, pieces)
  | .meaning cs => (st.add (.text cs), pieces)
  | .html => (st.add (.html (s.slice t.start t.stop)), pieces)
  | .softBreak => (st.add .softBreak, pieces)
  | .hardBreak => (st.add .hardBreak, pieces)
  | .run mark canOpen canClose =>
    ({ st with atoms := .run mark t.width canOpen canClose :: st.atoms }, pieces)
  | .backticks isEscaped =>
    let count := if isEscaped then t.width - 1 else t.width
    match if count = 0 then none else Piece.splitCode? count pieces with
    | none => (st.add text, pieces)
    | some (between, close, rest) =>
      let code := Mark.code (CodeSpan.text s t.stop close.start between)
      let st := if isEscaped then st.add (x.text t.start (t.start + 1)) else st
      (st.add code, rest)
  | .angle => match pieces with
    | [] => (st.add text, pieces)
    | p :: _ => match angle? x t.start p.start with
      | some (marks, stop) =>
        ({ st with atoms := .marks marks :: st.atoms }, Piece.dropTo stop pieces)
      | none => (st.add text, pieces)
  | .opener isImage =>
    let bracket : Bracket :=
      { place := st.atoms.length, stop := t.stop, isImage, isDisabled := false }
    ({ st.add text with brackets := bracket :: st.brackets }, pieces)
  | .closer canRefer => match st.brackets with
    | [] => (st.add text, pieces)
    | b :: brackets =>
      let st := { st with brackets }
      if b.isDisabled then (st.add text, pieces) else closeBracket x b t canRefer pieces st

-- Reads pieces. Every piece is read at most once, so there are as many steps as pieces.
def read : Nat → List Piece → State → State
  | _, [], st | 0, _, st => st
  | n + 1, .block _ _ marks :: pieces, st =>
    read n pieces { st with atoms := .marks marks :: st.atoms }
  | n + 1, .token t :: pieces, st =>
    let (st, pieces) := step x t pieces st
    read n pieces st

-- The marks of the contents of a block.
def marks (pieces : List Piece) : List Mark :=
  Atom.settle (read x pieces.length pieces ⟨[], []⟩).atoms.reverse

end Inline

end StaticSite.Markdown
