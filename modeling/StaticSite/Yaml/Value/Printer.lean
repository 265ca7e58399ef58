import StaticSite.Yaml.Value.Plain
/-!
Values as YAML text: block collections, each level indented by two columns, and strings in quotes
where their own text would mean something else.
-/
namespace StaticSite.Yaml.Printer

-- The words that some reader of YAML takes for a truth value or for null.
def reservedWords : List String :=
  ["yes", "Yes", "YES", "no", "No", "NO", "True", "TRUE", "true", "False", "FALSE", "false",
   "on", "On", "ON", "off", "Off", "OFF", "null", "Null", "NULL", "~"]

-- The characters that a string without quotes may not begin with.
def startsIndicator (c : Char) : Bool :=
  "&*?|-<>=!%@.".toList.contains c

-- The characters that a string without quotes may not hold.
def isSpecial (c : Char) : Bool :=
  ":\x7b\x7d[],#\x60\"'\\\t\n\r".toList.contains c || c.toNat ≤ 6 ||
    (0xE ≤ c.toNat && c.toNat ≤ 0x1F && c.toNat ≠ 0x1B)

-- Whether `cs` spells a number of one machine word.
def isWord (cs : List Char) : Bool :=
  let (negative, ds) := Plain.splitSign cs
  (Text.ofDigits? 10 ds).any fun n => Plain.fitsSignedWord (if negative then -(n : Int) else n)

-- Whether `cs` spells a number with a point or an exponent, an infinity or no number.
def isNumber (cs : List Char) : Bool :=
  let ds := (Plain.splitSign cs).2
  (Plain.number? cs).isSome ||
    ["inf", "infinity", "nan"].contains (String.ofList (ds.map Char.toLower))

def needsQuotes (s : String) : Bool :=
  let cs := s.toList
  cs.isEmpty || cs.head? == some ' ' || cs.getLast? == some ' ' ||
    cs.head?.any startsIndicator || cs.any isSpecial || reservedWords.contains s ||
    s.startsWith "0x" || isWord cs || isNumber cs

-- The escape of a character in quotes.
def escape (c : Char) : List Char :=
  match c with
  | '"' => ['\\', '"']
  | '\\' => ['\\', '\\']
  | '\x08' => ['\\', 'b']
  | '\t' => ['\\', 't']
  | '\n' => ['\\', 'n']
  | '\x0c' => ['\\', 'f']
  | '\r' => ['\\', 'r']
  | c =>
    if c.toNat < 0x20 ∨ c = '\x7f' then
      ['\\', 'u', '0', '0', Text.hexChar (c.toNat / 16), Text.hexChar (c.toNat % 16)]
    else [c]

def quote (s : String) : String :=
  .ofList ('"' :: (s.toList.flatMap escape ++ ['"']))

def string (s : String) : String :=
  if needsQuotes s then quote s else s

-- A new line, indented for a collection inside `level` others.
def newLine (level : Nat) : String :=
  .ofList ('\n' :: List.replicate (2 * level) ' ')

def isCollection : Value → Bool
  | .sequence _ | .mapping _ => true
  | _ => false

def isEmpty : Value → Bool
  | .sequence items => items.isEmpty
  | .mapping entries => entries.isEmpty
  | _ => true

-- An entry inside `level` collections, around the texts of its key and value. A collection as key
-- is marked; one with entries as value begins on a line of its own.
def entry (level : Nat) (key value : Value) (keyText valueText : String) : String :=
  if isCollection key then "? " ++ keyText ++ newLine level ++ ": " ++ valueText
  else keyText ++ ":" ++ (if isEmpty value then " " else newLine (level + 1)) ++ valueText

mutual

-- The text of a value inside `level` collections.
def text (level : Nat) : Value → String
  | .null => "~"
  | .bool b => if b then "true" else "false"
  | .int n => toString n
  | .float x => x.mixedText
  | .string s => string s
  | .sequence items =>
    if items.isEmpty then "[]" else (newLine level).intercalate (itemTexts level items)
  | .mapping entries =>
    if entries.isEmpty then "\x7b\x7d" else (newLine level).intercalate (entryTexts level entries)

def itemTexts (level : Nat) : List Value → List String
  | [] => []
  | item :: items => ("- " ++ text (level + 1) item) :: itemTexts level items

def entryTexts (level : Nat) : List (Value × Value) → List String
  | [] => []
  | (key, value) :: entries =>
    entry level key value (text (level + 1) key) (text (level + 1) value) ::
      entryTexts level entries

end

end Printer

-- A document that holds the value.
def Value.toText (v : Value) : String :=
  "---\n" ++ Printer.text 0 v ++ "\n"

end StaticSite.Yaml
