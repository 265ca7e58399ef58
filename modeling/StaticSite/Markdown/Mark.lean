import StaticSite.Markdown.Block
import StaticSite.Markdown.Link
/-!
Marks: a document in the order in which it is written out, with the elements that are entered and
left and the texts between them.
-/
namespace StaticSite.Markdown

inductive Element where
  | paragraph
  | heading (level : Nat)
  | quote
  | code (info : Option (List Char))
  | list (first : Option Nat)
  | item
  | footnote (label : List Char)
  | table (alignments : List Alignment)
  | tableHead
  | tableRow
  | tableCell
  | emphasis
  | strong
  | strikethrough
  | link (target : Target)
  -- A link to a mailbox.
  | mail (address : List Char)
  | image (target : Target)
  deriving DecidableEq, Repr

inductive Mark where
  | enter (e : Element)
  | leave (e : Element)
  | text (text : List Char)
  | code (text : List Char)
  | html (text : List Char)
  | softBreak
  | hardBreak
  | rule
  | footnoteReference (label : List Char)
  | task (isChecked : Bool)
  deriving DecidableEq, Repr

namespace Mark

-- Marks within an element.
def within (e : Element) (marks : List Mark) : List Mark :=
  enter e :: (marks ++ [leave e])

end Mark

end StaticSite.Markdown
