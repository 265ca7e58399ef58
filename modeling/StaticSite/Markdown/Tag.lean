import StaticSite.Markdown.Margin
/-!
HTML inside a document: tags with their attributes, comments, processing instructions,
declarations and character data sections, and the tags that open blocks of HTML.
-/
namespace StaticSite.Markdown

-- A tag while it is read. `text` is the tag up to `mark`, without the margins of its lines.
structure Tag where
  pos : Nat
  mark : Nat
  text : List Char

namespace Tag

variable (s : Source)

-- What was read so far.
def contents (t : Tag) : List Char :=
  t.text ++ s.slice t.mark t.pos

def advance (n : Nat) (t : Tag) : Tag :=
  { t with pos := t.pos + n }

-- Takes one character.
def take? (c : Char) (t : Tag) : Option Tag :=
  if s.get? t.pos = some c then some (t.advance 1) else none

-- Passes a line break and the margin of the next line. Without containers, a tag has to stay on its
-- line; nothing can stay open at the end of the source.
def nextLine? (containers : Option (List Container)) (t : Tag) : Option Tag := do
  let cs ← containers
  let next ← s.break? t.pos
  let pos := ((Margin.ofLine next).enter s cs).1.pos
  if next = t.pos then none
  else if pos = next then some { t with pos }
  else some { pos, mark := pos, text := t.text ++ s.slice t.mark next }

-- Passes blanks and line breaks.
def skipSpace (containers : Option (List Container)) : Nat → Tag → Option Tag
  | 0, _ => none
  | n + 1, t =>
    let t := { t with pos := s.skipGaps t.pos }
    if s.isAtBreak t.pos then (t.nextLine? s containers).bind (skipSpace containers n)
    else some t

-- Reads up to a closing quote.
def quoted (containers : Option (List Container)) (quote : Char) : Nat → Tag → Option Tag
  | 0, _ => none
  | n + 1, t =>
    if s.get? t.pos = some quote then some (t.advance 1)
    else if s.isAtBreak t.pos then (t.nextLine? s containers).bind (quoted containers quote n)
    else quoted containers quote n (t.advance 1)

def endsValue (c : Char) : Bool :=
  isBreak c || [' ', '"', '\'', '=', '<', '>', '\x60'].contains c

def value (containers : Option (List Container)) (t : Tag) : Option Tag :=
  match s.get? t.pos with
  | none => none
  | some c =>
    if c = '"' ∨ c = '\'' then quoted s containers c (s.stop + 1) (t.advance 1)
    else if endsValue c then none
    else some (t.advance (s.countWhile (!endsValue ·) t.pos))

def startsName (c : Char) : Bool :=
  c.isAlpha || c == '_' || c == ':'

def continuesName (c : Char) : Bool :=
  startsName c || c.isDigit || c == '.' || c == '-'

-- Reads a name and the value that may follow it.
def readAttribute (containers : Option (List Container)) (t : Tag) : Option Tag :=
  if (s.get? t.pos).any startsName then
    let t := t.advance (s.countWhile continuesName t.pos)
    match (skipSpace s containers (s.stop + 1) t).bind (·.take? s '=') with
    | none => some t
    | some t => (skipSpace s containers (s.stop + 1) t).bind (·.value s containers)
  else none

-- Reads attributes, each behind a blank, up to the end of the tag.
def attributes (containers : Option (List Container)) : Nat → Tag → Option Tag
  | 0, _ => none
  | n + 1, t => do
    let next ← skipSpace s containers (s.stop + 1) t
    if (s.get? next.pos).any fun c => c == '/' || c == '>' then some next
    else if next.pos = t.pos then none
    else (next.readAttribute s containers).bind (attributes containers n)

-- Reads an opening or a closing tag, whose angle bracket stands at `i`.
def scan (containers : Option (List Container)) (i : Nat) : Option Tag := do
  let isClosing := s.get? (i + 1) = some '/'
  let start := if isClosing then i + 2 else i + 1
  if !(s.get? start).any Char.isAlpha then none
  let pos := start + s.countWhile (fun c => c.isAlphanum || c == '-') start
  let t := { pos, mark := i, text := [] }
  if isClosing then ({ t with pos := s.skipGaps t.pos } : Tag).take? s '>'
  else
    let t ← attributes s containers (s.stop + 1) t
    ((t.take? s '/').getD t).take? s '>'

-- The position behind the first `ending` at or behind `i`.
def behind? (ending : List Char) (i : Nat) : Option Nat :=
  go i (s.rest i)
where
  go (i : Nat) : List Char → Option Nat
    | [] => none
    | c :: cs =>
      if ending.isPrefixOf (c :: cs) then some (i + ending.length) else go (i + 1) cs

-- Reads a comment. Its text does not start with `>` or `->` and holds no two hyphens.
def comment? (i : Nat) : Option Nat :=
  if s.startsWith i ">" || s.startsWith i "->" then none
  else do
    let stop ← behind? s ['-', '-'] i
    if s.get? stop = some '>' then some (stop + 1) else none

-- Reads a declaration: capital letters, a blank and any text up to the next `>`.
def declaration? (i : Nat) : Option Nat :=
  let behindName := i + s.countWhile Char.isUpper i
  if (s.get? behindName).any isSpace then behind? s ['>'] behindName else none

-- Reads character data, which ends at its first run of closing brackets.
def characterData? (i : Nat) : Option Nat :=
  let brackets := i + s.countWhile (· != ']') i
  let stop := brackets + s.countWhile (· == ']') brackets
  if brackets < stop ∧ s.get? stop = some '>' then some (stop + 1) else none

-- Reads what is not a tag. Its second character stands at `i`.
def special? (i : Nat) : Option Nat :=
  if s.startsWith i "!--" then comment? s (i + 3)
  else if s.startsWith i "![CDATA[" then characterData? s (i + 8)
  else if s.startsWith i "!" then
    if (s.get? (i + 1)).any Char.isUpper then declaration? s (i + 1) else none
  else if s.startsWith i "?" then behind? s ['?', '>'] (i + 1)
  else none

-- The names of the tags that open a block of HTML wherever a line may start one.
def blockNames : List String :=
  ["address", "article", "aside", "base", "basefont", "blockquote", "body", "caption", "center",
   "col", "colgroup", "dd", "details", "dialog", "dir", "div", "dl", "dt", "fieldset",
   "figcaption", "figure", "footer", "form", "frame", "frameset", "h1", "h2", "h3", "h4", "h5",
   "h6", "head", "header", "hr", "html", "iframe", "legend", "li", "link", "main", "menu",
   "menuitem", "nav", "noframes", "ol", "optgroup", "option", "p", "param", "section", "source",
   "summary", "table", "tbody", "td", "tfoot", "th", "thead", "title", "tr", "track", "ul"]

-- Whether a block of HTML starts with the tag whose name or slash stands at `i`.
def startsBlock (i : Nat) : Bool :=
  let i := if s.get? i = some '/' then i + 1 else i
  let stop := i + s.countWhile Char.isAlphanum i
  blockNames.contains (.ofList ((s.slice i stop).map Char.toLower)) &&
    match s.get? stop with
    | none => true
    | some c => [' ', '\t', '\r', '\n', '>'].contains c || s.startsWith stop "/>"

-- The names whose contents are not markup, with the tags that end them.
def verbatimNames : List (String × String) :=
  [("pre", "</pre>"), ("style", "</style>"), ("script", "</script>")]

-- What ends the block of HTML that starts with verbatim contents, a comment, an instruction,
-- character data or a declaration, whose second character stands at `i`.
def blockEnd? (i : Nat) : Option String :=
  let name := i + s.countWhile Char.isAlphanum i
  match verbatimNames.lookup (.ofList ((s.slice i name).map Char.toLower)) with
  | some ending =>
    if (s.get? name).all fun c => isSpace c || c == '>' then some ending else none
  | none =>
    if s.startsWith i "!--" then some "-->"
    else if s.startsWith i "?" then some "?>"
    else if s.startsWith i "![CDATA[" then some "]]>"
    else if s.startsWith i "!" && (s.get? (i + 1)).any Char.isUpper then some ">"
    else none

-- Whether a complete tag stands alone on the line, which opens a block of HTML too.
def isAlone (i : Nat) : Bool :=
  (scan s none i).any fun t => (s.blank? t.pos).isSome

end Tag

end StaticSite.Markdown
