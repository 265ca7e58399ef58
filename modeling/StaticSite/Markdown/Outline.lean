import StaticSite.Markdown.Definition
import StaticSite.Markdown.Table
/-!
The outline of a document: its blocks, and the link definitions between them. Lines are read one
block after another; containers stay open as long as their lines go on.
-/
namespace StaticSite.Markdown

-- A container that is still open.
inductive Frame.Kind where
  | quote
  | list (isTight : Bool) (delimiter : Char) (first : Nat)
  | item (indent : Nat)
  | footnote (label : List Char)
  deriving DecidableEq, Repr

-- An open container and the blocks in it, the last one first.
structure Frame where
  kind : Frame.Kind
  start : Nat
  contents : List Block

namespace Frame

def container (f : Frame) : Container :=
  match f.kind with
  | .quote => .quote
  | .item indent => .item indent
  | .list .. | .footnote _ => .plain

def isList (f : Frame) : Bool :=
  match f.kind with
  | .list .. => true
  | _ => false

def isFootnote (f : Frame) : Bool :=
  match f.kind with
  | .footnote _ => true
  | _ => false

-- Only lists can be loose.
def loosen (f : Frame) : Frame :=
  match f.kind with
  | .list _ delimiter first => { f with kind := .list false delimiter first }
  | _ => f

def close (f : Frame) (stop : Nat) : Block :=
  let contents := f.contents.reverse
  match f.kind with
  | .quote => .quote f.start stop contents
  | .list isTight delimiter first =>
    let first? := if Marker.isBullet delimiter then none else some first
    .list f.start stop isTight first? contents
  | .item indent => .item f.start stop indent contents
  | .footnote label => .footnote f.start stop label contents

end Frame

structure Outline where
  -- The open containers, the innermost first.
  frames : List Frame
  -- The blocks outside of open containers, the last one first.
  blocks : List Block
  definitions : List (List Char × Target)
  -- How many lists were opened and not yet ended by what followed them.
  nesting : Nat
  -- Whether the line before was blank and the blocks around it may tell.
  wasBlank : Bool
  -- Whether an item has started with a blank line.
  isItemBlank : Bool

namespace Outline

def empty : Outline where
  frames := []
  blocks := []
  definitions := []
  nesting := 0
  wasBlank := false
  isItemBlank := false

-- The open containers, the outermost first.
def containers (o : Outline) : List Container :=
  o.frames.reverse.map Frame.container

def isInList (o : Outline) : Bool :=
  o.nesting > 0

def add (b : Block) (o : Outline) : Outline :=
  match o.frames with
  | [] => { o with blocks := b :: o.blocks }
  | f :: fs => { o with frames := { f with contents := b :: f.contents } :: fs }

def addAll (bs : List Block) (o : Outline) : Outline :=
  bs.foldl (fun o b => o.add b) o

def enter (kind : Frame.Kind) (start : Nat) (o : Outline) : Outline :=
  { o with frames := ⟨kind, start, []⟩ :: o.frames }

-- Closes the innermost container.
def close (stop : Nat) (o : Outline) : Outline :=
  match o.frames with
  | [] => o
  | f :: fs => add (f.close stop) { o with frames := fs }

def closeMany (stop : Nat) : Nat → Outline → Outline
  | 0, o => o
  | n + 1, o => closeMany stop n (o.close stop)

-- Ends the list in which no item is open. A blank line before what comes next makes the list around
-- it loose.
def endList (stop : Nat) (o : Outline) : Outline :=
  let o := if o.frames.head?.any Frame.isList then
    { o.close stop with nesting := o.nesting - 1 } else o
  if o.wasBlank then
    let frames := match o.frames with
      | f :: g :: fs => f :: g.loosen :: fs
      | fs => fs
    { o with frames, wasBlank := false }
  else o

-- Starts a new list for an item.
def startList (start : Nat) (marker : ListMarker) (o : Outline) : Outline :=
  { o.enter (.list true marker.delimiter marker.number) start with
    nesting := o.nesting + 1, wasBlank := false }

-- Goes on with the list that the marker of an item continues, or starts a new one.
def continueList (start : Nat) (marker : ListMarker) (o : Outline) : Outline :=
  match o.frames with
  | [] => o.startList start marker
  | f :: fs => match f.kind with
    | .list _ delimiter _ =>
      if delimiter = marker.delimiter then
        if o.wasBlank then { o with frames := f.loosen :: fs, wasBlank := false } else o
      else (o.endList start).startList start marker
    | _ => (o.endList start).startList start marker

-- A line that holds blanks only. An item can start with one such line.
def addBlank (start : Nat) (o : Outline) : Outline :=
  match o.frames with
  | [] => o
  | f :: _ =>
    if f.kind = .quote then o
    else { (if o.isItemBlank then o.close start else o) with wasBlank := true }

def define (label : List Char) (target : Target) (o : Outline) : Outline :=
  { o with definitions := o.definitions ++ [(label, target)] }

end Outline

end StaticSite.Markdown
