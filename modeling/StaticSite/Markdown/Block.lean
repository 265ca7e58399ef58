import StaticSite.Markdown.Margin
import StaticSite.Markdown.Token
/-!
The blocks of a document. Every block knows where it starts and stops in the source. The text of
a block is kept as tokens.
-/
namespace StaticSite.Markdown

-- How the cells of a column are aligned.
inductive Alignment where
  | unset
  | left
  | center
  | right
  deriving DecidableEq, Repr

-- A cell of a table.
structure Cell where
  tokens : List Token
  stop : Nat
  deriving DecidableEq, Repr

inductive Block where
  | paragraph (start stop : Nat) (tokens : List Token)
  | heading (start stop level : Nat) (tokens : List Token)
  | rule (start stop : Nat)
  -- Code between fences has an info string, which may be empty; indented code has none.
  | code (start stop : Nat) (info : Option (List Char)) (text : List Char)
  -- A line of HTML, or the blanks in front of one.
  | html (line : Token)
  -- The box of a task.
  | task (start stop : Nat) (isChecked : Bool)
  | table (start stop : Nat) (alignments : List Alignment) (head : List Cell)
    (rows : List (List Cell))
  | quote (start stop : Nat) (contents : List Block)
  -- Ordered lists have a first number.
  | list (start stop : Nat) (isTight : Bool) (first : Option Nat) (items : List Block)
  | item (start stop indent : Nat) (contents : List Block)
  | footnote (start stop : Nat) (label : List Char) (contents : List Block)
  deriving Repr, Inhabited

namespace Block

def start : Block → Nat
  | paragraph start .. | heading start .. | rule start .. | code start .. | task start ..
  | table start .. | quote start .. | list start .. | item start .. | footnote start .. => start
  | html line => line.start

def stop : Block → Nat
  | paragraph _ stop .. | heading _ stop .. | rule _ stop | code _ stop .. | task _ stop ..
  | table _ stop .. | quote _ stop .. | list _ stop .. | item _ stop ..
  | footnote _ stop .. => stop
  | html line => line.stop

end Block

end StaticSite.Markdown
