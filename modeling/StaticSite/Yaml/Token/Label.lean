import StaticSite.Text.Digits
import StaticSite.Yaml.Cursor
import StaticSite.Yaml.Token
/-!
Anchors, aliases, tags and directives.
-/
namespace StaticSite.Yaml.Label

open Text

-- Reads the name of an anchor or alias, after its indicator.
def name (c : Cursor) : Except Error (String × Cursor) :=
  let name := c.rest.takeWhile isWordChar
  let c := c.advanceBy name.length
  if name.isEmpty ||
      !(endsWord c.peek? || c.peek?.any ['?', ':', ',', ']', '\x7d', '%', '@', '\x60'].contains)
  then .error .badAnchor
  else .ok (.ofList name, c)

-- Reads `!`, `!!` or `!name!`; a `!name` that no mark ends is part of a longer text.
def handle (c : Cursor) : Except Error (List Char × Cursor) :=
  if c.peek? ≠ some '!' then .error .badTag
  else
    let c := c.advance
    let name := c.rest.takeWhile isWordChar
    let c := c.advanceBy name.length
    if c.peek? = some '!' then .ok ('!' :: name ++ ['!'], c.advance)
    else .ok ('!' :: name, c)

-- The characters of tags that stand for themselves.
def isUriChar (c : Char) : Bool :=
  isWordChar c || ";/?:@&=+$,.!~*'()[]".toList.contains c

-- How many octets the escape of a character has, told by the first.
def octets? (first : Nat) : Option Nat :=
  if first < 0x80 then some 1
  else if first / 32 = 6 then some 2
  else if first / 16 = 14 then some 3
  else if first / 8 = 30 then some 4
  else none

-- Reads one octet written as `%` and two hexadecimal digits.
def octet (c : Cursor) : Except Error (Nat × Cursor) :=
  match c.rest with
  | '%' :: a :: b :: _ =>
    if isHexDigit a && isHexDigit b then .ok (ofHex [a, b], c.advanceBy 3) else .error .badTag
  | _ => .error .badTag

-- Reads the octets of one character. They are joined as they are, eight bits each.
def escapedChar (c : Cursor) : Except Error (Char × Cursor) := do
  let (first, c) ← octet c
  let some width := octets? first | .error .badTag
  let (code, c) ← trail (width - 1) first c
  if code.isValidChar then .ok (.ofNat code, c) else .error .badTag
where
  trail : Nat → Nat → Cursor → Except Error (Nat × Cursor)
  | 0, code, c => .ok (code, c)
  | n + 1, code, c => do
    let (next, c) ← octet c
    if next / 64 = 2 then trail n (code * 256 + next) c else .error .badTag

-- Reads a tag's text, which must not be empty unless `head` has begun it.
def uri (head : List Char) (c : Cursor) : Except Error (List Char × Cursor) := do
  let (text, c) ← go (c.rest.length + 1) head.tail.reverse c
  if text.isEmpty ∧ head.isEmpty then .error .badTag else return (text.reverse, c)
where
  go : Nat → List Char → Cursor → Except Error (List Char × Cursor)
  | 0, text, c => .ok (text, c)
  | n + 1, text, c => match c.peek? with
    | some '%' => do
      let (x, c) ← escapedChar c
      go n (x :: text) c
    | some x => if isUriChar x then go n (x :: text) c.advance else .ok (text, c)
    | none => .ok (text, c)

-- Reads a tag: `!<text>`, `!handle!text` or `!text`.
def tag (c : Cursor) : Except Error (Tag × Cursor) := do
  let (tag, c) ← if c.peek? 1 = some '<' then verbatim c else short c
  if endsWord c.peek? then return (tag, c) else .error .badTag
where
  verbatim (c : Cursor) : Except Error (Tag × Cursor) := do
    let (suffix, c) ← uri [] (c.advanceBy 2)
    if c.peek? = some '>' then return (⟨"", .ofList suffix⟩, c.advance) else .error .badTag
  short (c : Cursor) : Except Error (Tag × Cursor) := do
    let (handle, c) ← handle c
    if 2 ≤ handle.length ∧ handle.getLast? = some '!' then
      let (suffix, c) ← uri [] c
      return (⟨.ofList handle, .ofList suffix⟩, c)
    let (suffix, c) ← uri handle c
    -- A lone mark is a tag of its own.
    return (if suffix.isEmpty then ⟨"", "!"⟩ else ⟨"!", .ofList suffix⟩, c)

-- Skips a number of at most nine digits.
def versionNumber (c : Cursor) : Except Error Cursor :=
  let digits := (c.rest.takeWhile Char.isDigit).length
  if digits = 0 ∨ 9 < digits then .error .badDirective else .ok (c.advanceBy digits)

-- Skips a directive, after its `%`.
def directive (c : Cursor) : Except Error Cursor := do
  let name := c.rest.takeWhile isWordChar
  let c := c.advanceBy name.length
  if name.isEmpty ∨ !endsWord c.peek? then .error .badDirective
  let c ← match String.ofList name with
    | "YAML" => version (c.skipWhile isGap)
    | "TAG" => tagPrefix (c.skipWhile isGap)
    | _ => .ok (c.skipWhile (!isBreak ·))
  let c := (c.skipWhile isGap).skipComment
  if c.atLineEnd then return c.skipBreak else .error .badDirective
where
  version (c : Cursor) : Except Error Cursor := do
    let c ← versionNumber c
    if c.peek? = some '.' then versionNumber c.advance else .error .badDirective
  tagPrefix (c : Cursor) : Except Error Cursor := do
    let (handle, c) ← handle c
    if 2 ≤ handle.length ∧ handle.getLast? ≠ some '!' then .error .badDirective
    let (_, c) ← uri [] (c.skipWhile isGap)
    if endsWord c.peek? then return c else .error .badDirective

end StaticSite.Yaml.Label
