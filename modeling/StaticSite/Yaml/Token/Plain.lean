import StaticSite.Yaml.Token.Quoted
/-!
Scalars without quotes. They end at `: `, at a comment, at a line that is indented less, and inside
a flow collection at its indicators.
-/
namespace StaticSite.Yaml.Plain

-- Whether a scalar ends before the character `x`, which `y` follows.
def endsBefore (inFlow : Bool) (x : Char) (y : Option Char) : Bool :=
  (x == ':' && (endsWord y || (inFlow && y.any isFlowIndicator))) || (inFlow && isFlowIndicator x)

-- The longest run of characters that neither blanks nor indicators end.
def run (inFlow : Bool) : List Char → List Char
  | [] => []
  | x :: rest =>
    if isGap x || isBreak x || endsBefore inFlow x rest.head? then []
    else x :: run inFlow rest

-- Skips gaps and breaks before column `indent`, where a tab may not indent a line.
def blanks (indent : Int) : Nat → Quoted.Blanks → Cursor →
    Except Error (Quoted.Blanks × Cursor)
  | 0, b, c => .ok (b, c)
  | n + 1, b, c => match c.peek? with
    | none => .ok (b, c)
    | some x =>
      if isGap x then
        if b.broken ∧ c.column < indent ∧ x = '\t' then .error .tabInIndentation
        else blanks indent n (if b.broken then b else { b with gaps := x :: b.gaps }) c.advance
      else if isBreak x then
        blanks indent n
          (if b.broken then { b with breaks := b.breaks + 1 } else { b with broken := true })
          c.skipBreak
      else .ok (b, c)

-- Reads a plain scalar whose later lines stand at column `indent` or behind it. Also tells whether
-- the scalar ended after a line break.
def scan (inFlow : Bool) (indent : Int) (c : Cursor) :
    Except Error (String × Bool × Cursor) :=
  go (c.rest.length + 1) [] { broken := false } c
where
  -- `pending` are the blanks since the last run, which count only if another run follows.
  go : Nat → List Char → Quoted.Blanks → Cursor → Except Error (String × Bool × Cursor)
  | 0, text, pending, c => .ok (.ofList text.reverse, pending.broken, c)
  | n + 1, text, pending, c =>
    if c.atDocumentMark ∨ c.peek? = some '#' then .ok (.ofList text.reverse, pending.broken, c)
    else do
      let word := run inFlow c.rest
      let c := c.advanceBy word.length
      let (text, pending) :=
        if word.isEmpty then (text, pending)
        else (word.reverse ++ (pending.fold false ++ text), { broken := false })
      if c.peek?.any (fun x => isGap x || isBreak x) then
        let (pending, c) ← blanks indent (c.rest.length + 1) pending c
        if !inFlow ∧ c.column < indent then .ok (.ofList text.reverse, pending.broken, c)
        else go n text pending c
      else .ok (.ofList text.reverse, pending.broken, c)

end StaticSite.Yaml.Plain
