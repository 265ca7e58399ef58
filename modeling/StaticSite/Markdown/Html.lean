import StaticSite.Markdown.Mark
import StaticSite.Text.Digits
/-!
HTML, written from marks. Blocks start on lines of their own; footnotes are numbered in the order
in which their labels are first written.
-/
namespace StaticSite.Markdown.Html

open Text

def escapeChar (c : Char) : List Char :=
  match c with
  | '"' => "&quot;".toList
  | '&' => "&amp;".toList
  | '<' => "&lt;".toList
  | '>' => "&gt;".toList
  | c => [c]

-- Text in which no character is taken for markup.
def escape (cs : List Char) : List Char :=
  cs.flatMap escapeChar

-- The characters that stand for themselves in an address.
def isSafe (c : Char) : Bool :=
  c.isAlphanum || "!#$%()*+,-./:;=?@_".toList.contains c

-- A byte in the percent encoding.
def encodeByte (b : UInt8) : List Char :=
  ['%', (hexChar (b.toNat / 16)).toUpper, (hexChar (b.toNat % 16)).toUpper]

-- An address in an attribute.
def escapeAddress (cs : List Char) : List Char :=
  cs.flatMap fun c =>
    if isSafe c then [c]
    else if c = '&' then "&amp;".toList
    else if c = '\'' then "&#x27;".toList
    else (String.singleton c).toUTF8.toList.flatMap encodeByte

-- The description of an image, which the marks within the image make up.
structure Description where
  title : List Char
  -- How many elements are open within the image.
  depth : Nat

-- A document while it is written.
structure Writer where
  -- What was written, the last piece first.
  output : List String
  -- Whether the last line is complete.
  isLineStart : Bool
  -- The labels of footnotes, in the order of their numbers.
  footnotes : List (List Char)
  alignments : List Alignment
  isHead : Bool
  cell : Nat
  description : Option Description

namespace Writer

def empty : Writer where
  output := []
  isLineStart := true
  footnotes := []
  alignments := []
  isHead := false
  cell := 0
  description := none

def write (text : String) (w : Writer) : Writer :=
  if text.isEmpty then w
  else { w with output := text :: w.output, isLineStart := text.endsWith "\n" }

-- Writes text. Empty text counts as the start of a line that goes on.
def writeText (text : List Char) (w : Writer) : Writer :=
  { w with output := .ofList (escape text) :: w.output, isLineStart := text.getLast? == some '\n' }

-- Starts a new line, if the last one is not complete.
def startLine (w : Writer) : Writer :=
  if w.isLineStart then w else w.write "\n"

-- The number of a footnote. A label that is new gets the next one.
def number (label : List Char) (w : Writer) : Nat × Writer :=
  match w.footnotes.idxOf? label with
  | some i => (i + 1, w)
  | none => (w.footnotes.length + 1, { w with footnotes := w.footnotes ++ [label] })

def writeTitle (title : List Char) (w : Writer) : Writer :=
  if title.isEmpty then w else (w.write "\" title=\"").write (.ofList (escape title))

def alignment (w : Writer) : String :=
  match w.alignments[w.cell]? with
  | some .left => " align=\"left\">"
  | some .center => " align=\"center\">"
  | some .right => " align=\"right\">"
  | _ => ">"

-- The language of a block of code: its info string up to the first space.
def language (info : Option (List Char)) : List Char :=
  (info.getD []).takeWhile (· != ' ')

def enter (e : Element) (w : Writer) : Writer :=
  match e with
  | .paragraph => w.startLine.write "<p>"
  | .heading level => w.startLine.write ("<h" ++ toString level ++ ">")
  | .quote => w.startLine.write "<blockquote>\n"
  | .code info =>
    let w := w.startLine
    let language := language info
    if language.isEmpty then w.write "<pre><code>"
    else
      let w := w.write "<pre><code class=\"language-"
      (w.write (.ofList (escape language))).write "\">"
  | .list none => w.startLine.write "<ul>\n"
  | .list (some first) =>
    if first = 1 then w.startLine.write "<ol>\n"
    else w.startLine.write ("<ol start=\"" ++ toString first ++ "\">\n")
  | .item => w.startLine.write "<li>"
  | .footnote label =>
    let w := w.startLine.write "<div class=\"footnote-definition\" id=\""
    let w := (w.write (.ofList (escape label))).write
      "\"><sup class=\"footnote-definition-label\">"
    let (n, w) := w.number label
    w.write (toString n ++ "</sup>")
  | .table alignments => { w with alignments }.write "<table>"
  | .tableHead => { w with isHead := true, cell := 0 }.write "<thead><tr>"
  | .tableRow => { w with cell := 0 }.write "<tr>"
  | .tableCell => w.write ((if w.isHead then "<th" else "<td") ++ w.alignment)
  | .emphasis => w.write "<em>"
  | .strong => w.write "<strong>"
  | .strikethrough => w.write "<del>"
  | .link target =>
    let w := (w.write "<a href=\"").write (.ofList (escapeAddress target.destination))
    (w.writeTitle target.title).write "\">"
  | .mail address =>
    ((w.write "<a href=\"mailto:").write (.ofList (escapeAddress address))).write "\">"
  | .image target =>
    let w := (w.write "<img src=\"").write (.ofList (escapeAddress target.destination))
    { w.write "\" alt=\"" with description := some ⟨target.title, 0⟩ }

def leave (e : Element) (w : Writer) : Writer :=
  match e with
  | .paragraph => w.write "</p>\n"
  | .heading level => w.write ("</h" ++ toString level ++ ">\n")
  | .quote => w.write "</blockquote>\n"
  | .code _ => w.write "</code></pre>\n"
  | .list none => w.write "</ul>\n"
  | .list (some _) => w.write "</ol>\n"
  | .item => w.write "</li>\n"
  | .footnote _ => w.write "</div>\n"
  | .table _ => w.write "</tbody></table>\n"
  | .tableHead => { w.write "</tr></thead><tbody>\n" with isHead := false }
  | .tableRow => w.write "</tr>\n"
  | .tableCell =>
    let w := w.write (if w.isHead then "</th>" else "</td>")
    { w with cell := w.cell + 1 }
  | .emphasis => w.write "</em>"
  | .strong => w.write "</strong>"
  | .strikethrough => w.write "</del>"
  | .link _ | .mail _ => w.write "</a>"
  | .image _ => w

-- Writes a mark that stands within an image, where only text is left of it.
def describe (d : Description) (m : Mark) (w : Writer) : Writer :=
  match m with
  | .enter _ => { w with description := some { d with depth := d.depth + 1 } }
  | .leave _ =>
    if d.depth = 0 then ({ w with description := none }.writeTitle d.title).write "\" />"
    else { w with description := some { d with depth := d.depth - 1 } }
  | .text cs | .code cs | .html cs => w.writeText cs
  | .softBreak | .hardBreak | .rule => w.write " "
  | .footnoteReference label =>
    let (n, w) := w.number label
    w.write ("[" ++ toString n ++ "]")
  | .task isChecked => w.write (if isChecked then "[x]" else "[ ]")

def writeMark (w : Writer) (m : Mark) : Writer :=
  match w.description with
  | some d => w.describe d m
  | none => match m with
    | .enter e => w.enter e
    | .leave e => w.leave e
    | .text cs => w.writeText cs
    | .code cs => ((w.write "<code>").write (.ofList (escape cs))).write "</code>"
    | .html cs => w.write (.ofList cs)
    | .softBreak => w.write "\n"
    | .hardBreak => w.write "<br />\n"
    | .rule => w.startLine.write "<hr />\n"
    | .footnoteReference label =>
      let w := w.write "<sup class=\"footnote-reference\"><a href=\"#"
      let w := (w.write (.ofList (escape label))).write "\">"
      let (n, w) := w.number label
      w.write (toString n ++ "</a></sup>")
    | .task isChecked =>
      w.write (if isChecked then "<input disabled=\"\" type=\"checkbox\" checked=\"\"/>\n"
        else "<input disabled=\"\" type=\"checkbox\"/>\n")

def toText (w : Writer) : String :=
  String.join w.output.reverse

end Writer

-- The HTML of marks.
def ofMarks (marks : List Mark) : String :=
  (marks.foldl Writer.writeMark .empty).toText

@[simp]
theorem escape_nil : escape [] = [] :=
  rfl

theorem escape_append {cs ds : List Char} : escape (cs ++ ds) = escape cs ++ escape ds := by
  simp [escape]

-- Escaped text holds no angle bracket.
theorem lt_notMem_escape {cs : List Char} : '<' ∉ escape cs := by
  simp only [escape, List.mem_flatMap, not_exists, not_and]
  intro c _
  unfold escapeChar
  split <;> simp_all [eq_comm]

end StaticSite.Markdown.Html
