import StaticSite.Markdown.Leaf
/-!
A document as a whole: its blocks and its link definitions.
-/
namespace StaticSite.Markdown

namespace Outline

variable (s : Source)

-- Starts a footnote, if its label stands at the margin. What follows the label is read as a line of
-- its own.
def startFootnote? (m : Margin) (o : Outline) : Option (Outline × Nat) := do
  if !s.startsWith m.pos "[^" then none
  let (label, i) ← Definition.label? s o.containers o.isInList (m.pos + 2)
  some ((o.endList m.pos).enter (.footnote label) m.pos, s.skipBlank i)

-- Opens the quotes and list items that a line starts. A line that holds nothing but the marker of
-- an item ends with it.
def openContainers (line : Nat) : Nat → Margin → Outline → Outline × (Nat ⊕ Margin)
  | 0, m, o => (o, .inr m)
  | n + 1, m, o => match Marker.listItem? s m with
    | some (marker, behind) =>
      let o := (o.continueList m.pos marker).enter (.item marker.indent) m.pos
      match s.blank? behind.pos with
      | some next => ({ o with isItemBlank := true }, .inl next)
      | none => match Marker.task? s behind with
        | some (isChecked, m) =>
          openContainers line n m (o.add (.task behind.pos m.pos isChecked))
        | none => openContainers line n behind o
    | none => match m.quote? s with
      | some behind => openContainers line n behind ((o.endList line).enter .quote m.pos)
      | none => (o, .inr m)

-- Reads the block without blocks in it that starts behind a margin.
def addLeaf (m : Margin) (o : Outline) : Outline × Nat :=
  let containers := o.containers
  let add (leaf : Block × Nat) : Outline × Nat := (o.add leaf.1, leaf.2)
  match m.take s 4 with
  | (0, m) =>
    let (code, next, endsBlank) := Leaf.indentedCode s containers m
    ({ o.add code with wasBlank := endsBlank }, next)
  | (missing, behind) =>
    let i := behind.pos
    match Leaf.html? s containers m.columns i with
    | some (lines, next) => (o.addAll lines, next)
    | none => match Marker.rule? s i with
      | some next => add (.rule i next, next)
      | none => match Marker.heading? s i with
        | some level => add (Leaf.heading s level i)
        | none => match Definition.read? s containers o.isInList i with
          | some (label, target, stop) => (o.define label target, s.skipBlank stop)
          | none => match Marker.fence? s i with
            | some (mark, width) => add (Leaf.fencedCode s containers (4 - missing) mark width i)
            | none => add (Leaf.paragraph s containers o.isInList i)

-- Reads the line at `i` and the lines that the block it starts goes on in, and tells where the next
-- block starts.
def step (i : Nat) (o : Outline) : Outline × Nat :=
  let (m, unmatched) := (Margin.ofLine i).enter s o.containers
  let o := o.closeMany i unmatched.length
  let o := if o.wasBlank && o.frames.head?.any Frame.isFootnote then o.close i else o
  let (o, i, m) := match o.startFootnote? s m with
    | some (o, i) => (o, i, Margin.ofLine i)
    | none => (o, i, m)
  match o.openContainers s i (s.stop + 1) m with
  | (o, .inl next) => (o, next)
  | (o, .inr m) => match s.blank? m.pos with
    | some next => (o.addBlank i, next)
    | none => { o with isItemBlank := false }.endList i |>.addLeaf s m

-- Reads blocks up to the end of the source, and closes all that is open there.
def readFrom : Nat → Nat → Outline → Outline
  | 0, i, o => o.closeMany i o.frames.length
  | n + 1, i, o =>
    if s.stop ≤ i then o.closeMany i o.frames.length
    else
      let (o, next) := o.step s i
      readFrom n next o

end Outline

-- The blocks of a text and the targets that its definitions give to labels.
structure Document where
  source : Source
  blocks : List Block
  definitions : List (List Char × Target)

def Document.ofText (text : String) : Document :=
  let source := Source.ofText text
  let outline := Outline.empty.readFrom source (source.stop + 1) 0
  { source, blocks := outline.blocks.reverse, definitions := outline.definitions }

end StaticSite.Markdown
