import StaticSite.Yaml.Token.Block
import StaticSite.Yaml.Token.Label
import StaticSite.Yaml.Token.Plain
/-!
A YAML text as a stream of tokens. Indentation becomes tokens: a block collection opens where a
line is indented deeper and closes where one is indented less. A key is known as such only at its
colon, so every token that may begin one is remembered, and the mark is put before it later.
-/
namespace StaticSite.Yaml

-- A token that may turn out to begin a key.
structure Candidate where
  -- The token's number.
  token : Nat
  index : Nat
  line : Nat
  column : Nat
  -- Whether nothing but a key can stand there.
  required : Bool

structure Lexer where
  cursor : Cursor
  tokens : Array Token := #[]
  -- For every open flow collection, and last for the block around them, the candidate there.
  candidates : List (Option Candidate) := [none]
  -- Whether a key may begin here.
  keyAllowed : Bool := true
  -- The column of the innermost block collection.
  indent : Int := -1
  -- The columns of those around it.
  indents : List Int := []
  -- Where a colon needs no gap behind it, as it follows a quoted scalar.
  afterQuoted : Nat := 0

namespace Lexer

variable (s : Lexer)

-- How many flow collections are open.
def flowLevel : Nat :=
  s.candidates.length - 1

def inFlow : Bool :=
  s.flowLevel ≠ 0

def push (t : Token) : Lexer :=
  { s with tokens := s.tokens.push t }

-- Puts `t` before the token numbered `n`.
def insert (n : Nat) (t : Token) : Lexer :=
  { s with tokens := (s.tokens.extract 0 n).push t ++ s.tokens.extract n s.tokens.size }

def allowKey (b : Bool) : Lexer :=
  { s with keyAllowed := b }

def setCandidate (k : Option Candidate) : Lexer :=
  { s with candidates := k :: s.candidates.tail }

-- Forgets the innermost candidate.
def dropCandidate : Except Error Lexer :=
  match s.candidates.head? with
  | some (some k) => if k.required then .error .keyWithoutColon else .ok (s.setCandidate none)
  | _ => .ok s

-- Remembers the token that begins here, if it may begin a key.
def saveCandidate : Except Error Lexer :=
  if s.keyAllowed then do
    let c := s.cursor
    let s ← s.dropCandidate
    return s.setCandidate
      (some ⟨s.tokens.size, c.index, c.line, c.column, s.inFlow && s.indent == c.column⟩)
  else .ok s

-- Forgets candidates on earlier lines and those more than 1024 characters back.
def dropStale : Except Error Lexer := do
  let candidates ← s.candidates.mapM fun k => match k with
    | none => .ok none
    | some k =>
      if k.line < s.cursor.line ∨ k.index + 1024 < s.cursor.index then
        if k.required then .error .keyWithoutColon else .ok none
      else .ok (some k)
  return { s with candidates }

-- Opens a block collection if `column` is deeper than the block here.
def openBlock (column : Nat) (t : Token) (before : Nat) : Lexer :=
  if s.inFlow ∨ column ≤ s.indent then s
  else { s.insert before t with indents := s.indent :: s.indents, indent := column }

-- Closes the block collections that are deeper than `column`.
def closeBlocks (column : Int) : Lexer :=
  if s.inFlow then s else go s s.indents
where
  go (s : Lexer) : List Int → Lexer
  | [] => { s with indents := [] }
  | outer :: rest =>
    if column < s.indent then go { s.push .blockEnd with indent := outer } rest
    else { s with indents := outer :: rest }

-- Moves to the next token. A tab may not indent a line where a key can begin.
def skipBlanks : Lexer :=
  go (s.cursor.rest.length + 1) s
where
  go : Nat → Lexer → Lexer
  | 0, s => s
  | n + 1, s => match s.cursor.peek? with
    | some ' ' => go n { s with cursor := s.cursor.advance }
    | some '\t' =>
      if s.inFlow || !s.keyAllowed then go n { s with cursor := s.cursor.advance } else s
    | some '\n' | some '\r' =>
      go n { s with cursor := s.cursor.skipBreak, keyAllowed := s.keyAllowed || !s.inFlow }
    | some '#' => go n { s with cursor := s.cursor.skipComment }
    | _ => s

-- Adds `t`, which the next `n` characters spell.
def take (n : Nat) (t : Token) : Lexer :=
  { s.push t with cursor := s.cursor.advanceBy n }

def documentMark (t : Token) : Except Error Lexer := do
  let s ← (s.closeBlocks (-1)).dropCandidate
  return (s.allowKey false).take 3 t

def openFlow (t : Token) : Except Error Lexer := do
  let s ← s.saveCandidate
  if s.flowLevel = 255 then .error .nestedTooDeep
  return ({ s with candidates := none :: s.candidates }.allowKey true).take 1 t

def closeFlow (t : Token) : Except Error Lexer := do
  let s ← s.dropCandidate
  let s := if s.inFlow then { s with candidates := s.candidates.tail } else s
  return (s.allowKey false).take 1 t

def flowEntry : Except Error Lexer := do
  let s ← s.dropCandidate
  return (s.allowKey true).take 1 .flowEntry

def blockEntry : Except Error Lexer := do
  if s.inFlow || !s.keyAllowed then .error .notAllowedHere
  let s ← (s.openBlock s.cursor.column .blockSequenceStart s.tokens.size).dropCandidate
  return (s.allowKey true).take 1 .blockEntry

def key : Except Error Lexer := do
  if !s.inFlow && !s.keyAllowed then .error .notAllowedHere
  let s ← (s.openBlock s.cursor.column .blockMappingStart s.tokens.size).dropCandidate
  return (s.allowKey (!s.inFlow)).take 1 .key

-- A colon: what the candidate began is a key. Without one the key is empty or follows `?`.
def value : Except Error Lexer :=
  match s.candidates.head? with
  | some (some k) =>
    let s := (s.insert k.token .key).openBlock k.column .blockMappingStart k.token
    .ok (((s.setCandidate none).allowKey false).take 1 .value)
  | _ =>
    if !s.inFlow && !s.keyAllowed then .error .notAllowedHere
    else
      let s := s.openBlock s.cursor.column .blockMappingStart s.tokens.size
      .ok ((s.allowKey (!s.inFlow)).take 1 .value)

def anchor (build : String → Token) : Except Error Lexer := do
  let s ← s.saveCandidate
  let (name, cursor) ← Label.name s.cursor.advance
  return { (s.allowKey false).push (build name) with cursor }

def tag : Except Error Lexer := do
  let s ← s.saveCandidate
  let (tag, cursor) ← Label.tag s.cursor
  return { (s.allowKey false).push (.tag tag) with cursor }

def directive : Except Error Lexer := do
  let s ← (s.closeBlocks (-1)).dropCandidate
  let cursor ← Label.directive s.cursor.advance
  return { (s.allowKey false).push .directive with cursor }

def blockScalar (literal : Bool) : Except Error Lexer := do
  let s ← s.saveCandidate
  let (text, cursor) ← Block.scan literal s.indent s.cursor.advance
  return { (s.allowKey true).push (.scalar text false) with cursor }

def quoted (quote : Char) : Except Error Lexer := do
  let s ← s.saveCandidate
  let (text, cursor) ← Quoted.scan quote s.cursor.advance
  return { (s.allowKey false).push (.scalar text false) with cursor, afterQuoted := cursor.index }

def plain : Except Error Lexer := do
  let s ← s.saveCandidate
  let (text, broken, cursor) ← Plain.scan s.inFlow (s.indent + 1) s.cursor
  return { (s.allowKey broken).push (.scalar text true) with cursor }

def streamEnd : Except Error Lexer := do
  let s ← (s.closeBlocks (-1)).dropCandidate
  return s.push .streamEnd

-- Reads the token that begins with `x`.
def next (x : Char) : Except Error Lexer :=
  let c := s.cursor
  let apart := endsWord (c.peek? 1)
  if c.column = 0 ∧ x = '%' then s.directive
  else if c.atDocumentMark then s.documentMark (if x = '-' then .documentStart else .documentEnd)
  else match x with
    | '[' => s.openFlow .flowSequenceStart
    | '\x7b' => s.openFlow .flowMappingStart
    | ']' => s.closeFlow .flowSequenceEnd
    | '\x7d' => s.closeFlow .flowMappingEnd
    | ',' => s.flowEntry
    | '*' => s.anchor .alias
    | '&' => s.anchor .anchor
    | '!' => s.tag
    | '\'' | '"' => s.quoted x
    | '%' | '@' | '\x60' => .error .unexpectedCharacter
    | '-' => if apart then s.blockEntry else s.plain
    | '?' => if apart then s.key else s.plain
    | ':' =>
      if apart ∨ (s.inFlow ∧ ((c.peek? 1).any isFlowIndicator ∨ c.index = s.afterQuoted)) then
        s.value
      else s.plain
    | '|' | '>' => if s.inFlow then s.plain else s.blockScalar (x == '|')
    | _ => s.plain

-- Reads tokens to the end of the stream.
def run : Nat → Lexer → Except Error Lexer
  | 0, s => .ok s
  | n + 1, s => do
    let s ← s.skipBlanks.dropStale
    let s := s.closeBlocks s.cursor.column
    match s.cursor.peek? with
    | none => s.streamEnd
    | some x => run n (← s.next x)

end Lexer

-- The tokens of a YAML text; the last of them is `streamEnd`.
def Token.ofText (text : String) : Except Error (List Token) := do
  let c := Cursor.ofText text
  let s ← Lexer.run (c.rest.length + 2) { cursor := c }
  return s.tokens.toList

end StaticSite.Yaml
