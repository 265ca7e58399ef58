import StaticSite.Markdown.Document
import StaticSite.Markdown.Inline
/-!
The marks of a document. In the items of tight lists, paragraphs do not stand on their own: their
tokens are contents of the item, beside the blocks in it.
-/
namespace StaticSite.Markdown

namespace Document

-- The marks of the contents of a block that stops at a position and stands in containers.
def contents (d : Document) (containers : List Container) (stop : Nat) (pieces : List Piece) :
    List Mark :=
  Inline.marks ⟨d.source.upTo stop, containers, d.definitions⟩ pieces

def textOf (d : Document) (containers : List Container) (stop : Nat) (tokens : List Token) :
    List Mark :=
  d.contents containers stop (tokens.map .token)

def row (d : Document) (containers : List Container) (cells : List Cell) : List Mark :=
  cells.flatMap fun c => Mark.within .tableCell (d.textOf containers c.stop c.tokens)

end Document

namespace Block

-- The piece that a block is to the blocks around it, given its marks.
def pieces (isTight : Bool) (marks : List Mark) (b : Block) : List Piece :=
  match b with
  | html line => [.token line]
  | paragraph start stop [] => [.block start stop marks]
  | paragraph start stop tokens => if isTight then tokens.map .token else [.block start stop marks]
  | b => [.block b.start b.stop marks]

def startsEmpty : List Block → Bool
  | paragraph _ _ [] :: _ => true
  | _ => false

mutual

-- The marks of a block that stands in containers, the outermost first. `isTight` tells of the list
-- that an item stands in; a tight item that starts with an empty paragraph shows nothing.
def marks (d : Document) (containers : List Container) (isTight : Bool) : Block → List Mark
  | paragraph _ stop tokens => Mark.within .paragraph (d.textOf containers stop tokens)
  | heading _ stop level tokens => Mark.within (.heading level) (d.textOf containers stop tokens)
  | rule .. => [.rule]
  | code _ _ info text => Mark.within (.code info) (if text = [] then [] else [.text text])
  | html line => d.contents containers d.source.stop [.token line]
  | task _ _ isChecked => [.task isChecked]
  | table _ _ alignments head rows =>
    Mark.within (.table alignments) <| Mark.within .tableHead (d.row containers head) ++
      rows.flatMap fun cells => Mark.within .tableRow (d.row containers cells)
  | quote _ stop blocks =>
    let inside := containers ++ [.quote]
    Mark.within .quote (d.contents inside stop (allPieces d inside false blocks))
  | list _ _ isTight first items => Mark.within (.list first) (allMarks d containers isTight items)
  | item _ stop indent blocks =>
    let inside := containers ++ [.item indent]
    let pieces := allPieces d inside isTight blocks
    Mark.within .item
      (if isTight && startsEmpty blocks then [] else d.contents inside stop pieces)
  | footnote _ stop label blocks =>
    Mark.within (.footnote label)
      (d.contents containers stop (allPieces d containers false blocks))

def allMarks (d : Document) (containers : List Container) (isTight : Bool) :
    List Block → List Mark
  | [] => []
  | b :: bs => marks d containers isTight b ++ allMarks d containers isTight bs

def allPieces (d : Document) (containers : List Container) (isTight : Bool) :
    List Block → List Piece
  | [] => []
  | b :: bs =>
    pieces isTight (marks d containers false b) b ++ allPieces d containers isTight bs

end

end Block

-- The marks of a document.
def Document.marks (d : Document) : List Mark :=
  Block.allMarks d [] false d.blocks

end StaticSite.Markdown
