import StaticSite.Markdown.Outline
/-!
Blocks without blocks in them: code, HTML, headings and paragraphs. Each is read from its first
line on, past the margins of the containers that it stands in, up to where the next line starts
that does not belong to it.
-/
namespace StaticSite.Markdown.Leaf

variable (s : Source) (containers : List Container)

-- The two parts of a line around the carriage return in front of its line feed.
def lineParts (start stop : Nat) : (Nat × Nat) × (Nat × Nat) :=
  if stop ≥ 2 ∧ s.chars[stop - 2]? = some '\r' then ((start, stop - 2), (stop - 1, stop))
  else ((start, stop), (stop, stop))

-- A line of code, behind the columns that a tab has left over.
def codeLine (columns start stop : Nat) : List Char :=
  let ((a, b), (c, d)) := lineParts s start stop
  List.replicate columns ' ' ++ s.slice a b ++ s.slice c d

-- Reads the lines of a fenced block, and where the block stops.
def fencedLines (indent : Nat) (mark : Char) (width : Nat) : Nat → Nat → List Char × Nat
  | 0, i => ([], i)
  | n + 1, i => match (Margin.ofLine i).enterAll? s containers with
    | none => ([], i)
    | some m =>
      let m := (m.take s indent).2
      let closing := match m.take s 4 with
        | (0, _) => none
        | (_, m) => Marker.closingFence? s mark width m.pos
      match closing with
      | some stop => ([], stop)
      | none =>
        let next := s.nextLine m.pos
        let (text, stop) := fencedLines indent mark width n next
        (codeLine s m.columns m.pos next ++ text, stop)

-- Reads a fenced block whose fence stands at `i`, behind `indent` columns.
def fencedCode (indent : Nat) (mark : Char) (width i : Nat) : Block × Nat :=
  let start := s.skipGaps (i + width)
  let body := s.nextLine start
  let info := s.slice start (max start (body - s.countBack isSpace body))
  let (text, stop) := fencedLines s containers indent mark width (s.stop + 1) body
  (.code i stop (some (unescape info)) text, s.skipBlank stop)

-- Lines of indented code.
structure IndentedLines where
  text : List Char
  -- Where the text stops, without the blank lines at its end.
  stop : Nat
  next : Nat
  -- Whether blank lines were left out at the end.
  endsBlank : Bool

-- Reads indented code. `blanks` are blank lines that count only if more code follows.
def indentedLines : Nat → List Char → List Char → Nat → Bool → Margin → IndentedLines
  | 0, text, _, stop, isBlank, m => ⟨text, stop, m.pos, isBlank⟩
  | n + 1, text, blanks, stop, isBlank, m =>
    let next := s.nextLine m.pos
    let line := codeLine s m.columns m.pos next
    let (text, blanks, stop) :=
      if isBlank then (text, blanks ++ line, stop) else (text ++ blanks ++ line, [], next)
    match (Margin.ofLine next).enterAll? s containers with
    | none => ⟨text, stop, next, isBlank⟩
    | some m =>
      let (missing, m) := m.take s 4
      if (missing ≠ 0 && !s.isAtBreak m.pos) || s.stop ≤ m.pos then ⟨text, stop, next, isBlank⟩
      else indentedLines n text blanks stop (s.blank? m.pos).isSome m

-- Reads indented code from behind its indentation on.
def indentedCode (m : Margin) : Block × Nat × Bool :=
  let lines := indentedLines s containers (s.stop + 1) [] [] m.pos false m
  (.code m.pos lines.stop none lines.text, lines.next, lines.endsBlank)

-- A line of HTML, behind the columns that a tab has left over.
def htmlLine (columns start stop : Nat) : List Block :=
  let blanks := if columns = 0 then []
    else [.html ⟨start, start, .meaning (List.replicate columns ' ')⟩]
  let ((a, b), (c, d)) := lineParts s start stop
  blanks ++ .html ⟨a, b, .html⟩ :: (if c < d then [.html ⟨c, d, .html⟩] else [])

-- Reads lines of HTML, up to a line that holds `ending` or, without one, up to a blank line.
def htmlLines (ending : Option String) : Nat → Nat → Nat → List Block × Nat
  | 0, _, i => ([], i)
  | n + 1, columns, i =>
    let next := s.nextLine i
    let line := htmlLine s columns i next
    let isLast := match ending with
      | some ending => (Tag.behind? (s.upTo next) ending.toList i).isSome
      | none => false
    match (Margin.ofLine next).enterAll? s containers with
    | none => (line, next)
    | some m =>
      if isLast || s.stop ≤ m.pos || (ending.isNone && (s.blank? m.pos).isSome) then (line, next)
      else
        let (lines, stop) := htmlLines ending n m.columns m.pos
        (line ++ lines, stop)

-- Reads a block of HTML, if one starts at `i`.
def html? (columns i : Nat) : Option (List Block × Nat) :=
  if s.get? i ≠ some '<' then none
  else match Tag.blockEnd? s (i + 1) with
    | some ending => some (htmlLines s containers (some ending) (s.stop + 1) columns i)
    | none =>
      if Tag.startsBlock s (i + 1) || Tag.isAlone s i then
        some (htmlLines s containers none (s.stop + 1) columns i)
      else none

-- How long a heading is without the number signs that close it.
def headingLength (text : List Char) : Nat :=
  let text := text.reverse.dropWhile fun c => isBreak c || c == ' '
  let opened := text.dropWhile (· == '#')
  let bare := opened.dropWhile (· == ' ')
  if opened.isEmpty then 0
  else if bare.length < opened.length then bare.length
  else text.length

-- Reads the heading that number signs at `i` open.
def heading (level i : Nat) : Block × Nat :=
  match s.break? (i + level) with
  | some next => (.heading i next level [], next)
  | none =>
    let start := s.skipGaps (i + level)
    let line := Line.read s start
    let stop := start + headingLength (s.slice start line.next)
    let tokens := match line.tokens with
      | [] => []
      | t :: ts => { t with stop } :: ts
    (.heading i line.next level tokens.reverse, line.next)

-- Cuts the gaps behind a heading that is underlined.
def trimLast : List Token → List Token
  | [] => []
  | t :: ts => { t with stop := t.stop - s.countBack isGap t.stop } :: ts

-- The tokens of an underlined heading. A backslash at its end is text.
def underlinedTokens (tokens : List Token) (lineBreak : Option Token) : List Token :=
  let tokens := trimLast s tokens
  match lineBreak with
  | some ⟨start, _, .hardBreak⟩ =>
    if s.get? start = some '\\' then Token.addText start (start + 1) tokens else tokens
  | _ => tokens

-- Reads a paragraph that goes on with `line`, up to a line that ends it. Lines that belong to no
-- open block but start none of their own go on with it too.
def paragraphLines (isInList : Bool) (start : Nat) :
    Nat → List Token → Line → Block × Nat
  | 0, tokens, line => (.paragraph start line.next (line.tokens ++ tokens).reverse, line.next)
  | n + 1, tokens, line =>
    let tokens := line.tokens ++ tokens
    let paragraph := (.paragraph start line.next tokens.reverse, line.next)
    let (m, unmatched) := (Margin.ofLine line.next).enter s containers
    let (missing, m) := m.take s 4
    let underline :=
      if missing ≠ 0 ∧ unmatched = [] then Marker.underline? s m.pos else none
    match underline with
    | some (level, next) =>
      (.heading start next level (underlinedTokens s tokens line.lineBreak).reverse, next)
    | none =>
      if missing ≠ 0 ∧ (Marker.listInterrupts s isInList m.pos || Marker.interrupts s m.pos) then
        paragraph
      else
        let m := m.skipBlanks s
        if s.isAtBreak m.pos then paragraph
        else paragraphLines isInList start n (line.lineBreak.toList ++ tokens) (Line.read s m.pos)

-- Reads the paragraph at `i`, which may turn out to be a heading or a table.
def paragraph (isInList : Bool) (i : Nat) : Block × Nat :=
  let line := Line.read s i
  (Table.read? s containers line i).getD
    (paragraphLines s containers isInList i (s.stop + 1) [] line)

end StaticSite.Markdown.Leaf
