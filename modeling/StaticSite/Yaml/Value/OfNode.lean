import StaticSite.Yaml.Node
import StaticSite.Yaml.Value.Plain
/-!
What a tree means: aliases are replaced by the nodes that they refer to, and scalars take the
values that their tags or their texts give them.
-/
namespace StaticSite.Yaml

-- The anchored nodes of a document.
structure Anchors where
  nodes : List (Nat × Node)

-- Reading values out of a tree. The state counts how many more aliases may be followed, so that a
-- small text cannot unfold to a huge value.
abbrev Decoding := ReaderT Anchors (StateT Nat (Except Error))

namespace Decoding

-- How deep collections may nest.
def maxDepth : Nat := 128

def decode (root : Node) (read : Node → Decoding α) : Except Error α :=
  ((read root).run ⟨root.anchors⟩).run' (root.weight * 100)

-- The node itself, without its anchor, or the one that an alias refers to.
def resolve : Node → Decoding Node
  | .anchored _ node => return node
  | .reference id => do
    if (← get) = 0 then throw .tooManyAliases
    modify (· - 1)
    match (← read).nodes.lookup id with
    | some node => return node
    | none => throw .unknownAnchor
  | node => return node

-- The text of a scalar, whatever value it has.
def text (node : Node) : Decoding String := do
  match ← resolve node with
  | .scalar text .. => return text
  | _ => throw .wrongType

-- Whether a scalar stands for no value.
def isAbsent (text : String) (plain : Bool) (tag : Option Tag) : Except Error Bool :=
  match plain, tag with
  | false, _ => .ok false
  | true, none => .ok (Plain.isNull text)
  | true, some tag =>
    if tag ≠ ⟨"!!", "null"⟩ then .ok false
    else if Plain.isNull text then .ok true
    else .error .badScalarForTag

-- The text of a scalar, or nothing if it is null.
def text? (node : Node) : Decoding (Option String) := do
  match ← resolve node with
  | .scalar text plain tag => return if ← isAbsent text plain tag then none else some text
  | _ => throw .wrongType

-- The entries of a mapping.
def entries (node : Node) : Decoding (List (Node × Node)) := do
  match ← resolve node with
  | .mapping entries => return entries
  | _ => throw .wrongType

-- The value of a scalar with one of the tags that name a type.
def tagged (type text : String) : Except Error Value :=
  match type with
  | "bool" =>
    if text = "true" then .ok (.bool true)
    else if text = "false" then .ok (.bool false)
    else .error .badScalarForTag
  | "int" =>
    let (negative, ds) := Plain.splitSign text.toList
    match (Text.ofDigits? 10 ds).map fun n => if negative then -(n : Int) else n with
    | some n => if Plain.fitsSignedWord n then .ok (.int n) else .error .badScalarForTag
    | none => .error .badScalarForTag
  | "float" => match Plain.float? text with
    | some x => .ok (.float x)
    | none => .error .badScalarForTag
  | "null" => if Plain.isNull text then .ok .null else .error .badScalarForTag
  | _ => .ok (.string text)

def scalar (text : String) (plain : Bool) : Option Tag → Except Error Value
  | some tag => if tag.handle = "!!" then tagged tag.suffix text else .ok (.string text)
  | none => if plain then Plain.value text else .ok (.string text)

-- The value of a node in which collections nest at most `depth` deep.
def value (depth : Nat) (node : Node) : Decoding Value := do
  match ← resolve node with
  | .scalar text plain tag => scalar text plain tag
  | .sequence items => match depth with
    | 0 => throw .nestedTooDeep
    | depth + 1 => return .sequence (← items.mapM (value depth))
  | .mapping entries => match depth with
    | 0 => throw .nestedTooDeep
    | depth + 1 =>
      return .ofEntries (← entries.mapM fun e => return (← value depth e.1, ← value depth e.2))
  -- An anchored node is no alias and has no second anchor.
  | .anchored .. | .reference _ => throw .unexpectedToken

end Decoding

-- The value of a text that holds one document.
def Value.ofText (text : String) : Except Error Value := do
  Decoding.decode (← Node.ofText text) (Decoding.value Decoding.maxDepth)

end StaticSite.Yaml
