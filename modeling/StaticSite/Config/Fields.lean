import StaticSite.Config.Values
import StaticSite.Text.Blank
import StaticSite.Yaml.Value.OfNode
/-!
A configuration text is a mapping. Some of its keys are fields with a meaning of their own, each
given at most once; all others are metadata, and of equal keys the last counts.
-/
namespace StaticSite.Config

open Yaml (Node Decoding)

-- The mapping of a configuration text.
structure Fields where
  -- The nodes of the fields that are given.
  known : List (String × Node) := []
  metadata : Values := .empty

namespace Fields

-- Adds an entry to the fields or to the metadata.
def add (names : List String) (s : Fields) (key value : Node) : Decoding Fields := do
  let key ← Decoding.text key
  if !names.contains key then
    let value ← Decoding.value (Decoding.maxDepth - 1) value
    return { s with metadata := s.metadata.insert key value }
  else if (s.known.lookup key).isSome then throw .duplicateField
  else return { s with known := (key, value) :: s.known }

def ofNode (names : List String) (root : Node) : Decoding Fields := do
  (← Decoding.entries root).foldlM (fun s e => s.add names e.1 e.2) {}

-- The text of a field, unless it is missing or null.
def text? (s : Fields) (name : String) : Decoding (Option String) :=
  match s.known.lookup name with
  | some node => Decoding.text? node
  | none => return none

end Fields

-- Whether a text has nothing but blanks and comments in its lines.
def isBlank (text : String) : Bool :=
  (text.toList.splitOn '\n').all fun line =>
    let line := Text.trim line
    line.isEmpty || line.head? == some '#'

-- Reads a configuration text; one that is blank has no entries.
def decode (text : String) (default : α) (read : Node → Decoding α) : Except Yaml.Error α :=
  if isBlank text then .ok default else do Decoding.decode (← Node.ofText text) read

theorem decode_of_isBlank {text : String} (default : α) (read : Node → Decoding α)
    (h : isBlank text) : decode text default read = .ok default := by
  simp [decode, h]

end StaticSite.Config
