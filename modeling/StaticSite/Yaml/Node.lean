import StaticSite.Yaml.Token.Stream
/-!
The tree that the tokens of a YAML document spell. Anchors are numbered in the order in which they
are read; an alias refers to the number that its name has at that place.
-/
namespace StaticSite.Yaml

inductive Node where
  | scalar (text : String) (plain : Bool) (tag : Option Tag)
  | sequence (items : List Node)
  | mapping (entries : List (Node × Node))
  | anchored (id : Nat) (node : Node)
  | reference (id : Nat)

namespace Node

-- What stands where no node is written.
def missing : Node :=
  scalar "~" true none

-- A document still to be read.
structure Source where
  tokens : List Token
  -- The numbers of the anchors, the latest first.
  anchors : List (String × Nat) := []
  anchorCount : Nat := 0

abbrev Reading := StateT Source (Except Error)

namespace Reading

def peek : Reading Token := do
  return (← get).tokens.headD .streamEnd

def skip : Reading Unit :=
  modify fun s => { s with tokens := s.tokens.tail }

def expect (t : Token) : Reading Unit := do
  if (← peek) = t then skip else throw .unexpectedToken

-- Reads an anchor, if one follows, and numbers it.
def anchor? : Reading (Option Nat) := do
  match ← peek with
  | .anchor name =>
    skip
    let s ← get
    set { s with anchors := (name, s.anchorCount) :: s.anchors, anchorCount := s.anchorCount + 1 }
    return some s.anchorCount
  | _ => return none

def tag? : Reading (Option Tag) := do
  match ← peek with
  | .tag tag => skip; return some tag
  | _ => return none

-- Reads an anchor and a tag in either order.
def properties : Reading (Option Nat × Option Tag) := do
  match ← anchor? with
  | some id => return (some id, ← tag?)
  | none => match ← tag? with
    | some tag => return (← anchor?, some tag)
    | none => return (none, none)

mutual

-- Reads a node. `block` tells that block collections may stand here, `indentless` that a block
-- sequence need not be indented.
def node (block indentless : Bool) : Nat → Reading Node
  | 0 => throw .unexpectedToken
  | n + 1 => do
    if let .alias name ← peek then
      skip
      match (← get).anchors.lookup name with
      | some id => return reference id
      | none => throw .unknownAnchor
    let (anchor, tag) ← properties
    let content ← match ← peek with
      | .scalar text plain => skip; pure (scalar text plain tag)
      | .flowSequenceStart => skip; sequence <$> flowItems true n
      | .flowMappingStart => skip; mapping <$> flowEntries true n
      | t =>
        if t = .blockEntry ∧ indentless then sequence <$> looseItems n
        else if t = .blockSequenceStart ∧ block then skip; sequence <$> blockItems n
        else if t = .blockMappingStart ∧ block then skip; mapping <$> blockEntries n
        else if anchor.isSome ∨ tag.isSome then pure (scalar "" true tag)
        else throw .unexpectedToken
    return match anchor with
      | some id => anchored id content
      | none => content

-- Reads a node, unless one of `ends` follows.
def nodeUnless (ends : List Token) (block indentless : Bool) : Nat → Reading Node
  | 0 => throw .unexpectedToken
  | n + 1 => do
    if ends.contains (← peek) then return missing else node block indentless n

def blockItems : Nat → Reading (List Node)
  | 0 => throw .unexpectedToken
  | n + 1 => do
    match ← peek with
    | .blockEnd => skip; return []
    | .blockEntry =>
      skip
      let item ← nodeUnless [.blockEntry, .blockEnd] true false n
      return item :: (← blockItems n)
    | _ => throw .unexpectedToken

-- Reads the items of a sequence that is not indented; nothing closes it.
def looseItems : Nat → Reading (List Node)
  | 0 => throw .unexpectedToken
  | n + 1 => do
    match ← peek with
    | .blockEntry =>
      skip
      let item ← nodeUnless [.blockEntry, .key, .value, .blockEnd] true false n
      return item :: (← looseItems n)
    | _ => return []

def blockEntries : Nat → Reading (List (Node × Node))
  | 0 => throw .unexpectedToken
  | n + 1 => do
    match ← peek with
    | .blockEnd => skip; return []
    | .key =>
      skip
      let key ← nodeUnless [.key, .value, .blockEnd] true true n
      let value ← blockValue n
      return (key, value) :: (← blockEntries n)
    | .value =>
      let value ← blockValue n
      return (missing, value) :: (← blockEntries n)
    | _ => throw .unexpectedToken

def blockValue : Nat → Reading Node
  | 0 => throw .unexpectedToken
  | n + 1 => do
    if (← peek) = .value then
      skip
      nodeUnless [.key, .value, .blockEnd] true true n
    else return missing

def flowEntries (first : Bool) : Nat → Reading (List (Node × Node))
  | 0 => throw .unexpectedToken
  | n + 1 => do
    if (← peek) = .flowMappingEnd then skip; return []
    if !first then expect .flowEntry
    match ← peek with
    | .flowMappingEnd => skip; return []
    | .key =>
      skip
      let key ← nodeUnless [.value, .flowEntry, .flowMappingEnd] false false n
      let value ← flowValue n
      return (key, value) :: (← flowEntries false n)
    | .value =>
      let value ← flowValue n
      return (missing, value) :: (← flowEntries false n)
    | _ =>
      let key ← node false false n
      return (key, missing) :: (← flowEntries false n)

def flowValue : Nat → Reading Node
  | 0 => throw .unexpectedToken
  | n + 1 => do
    if (← peek) = .value then
      skip
      nodeUnless [.flowEntry, .flowMappingEnd] false false n
    else return missing

def flowItems (first : Bool) : Nat → Reading (List Node)
  | 0 => throw .unexpectedToken
  | n + 1 => do
    if (← peek) = .flowSequenceEnd then skip; return []
    if !first then expect .flowEntry
    match ← peek with
    | .flowSequenceEnd => skip; return []
    | .key =>
      skip
      let entry ← singlePair n
      return mapping [entry] :: (← flowItems false n)
    | _ =>
      let item ← node false false n
      return item :: (← flowItems false n)

-- Reads a mapping of one entry that stands in a flow sequence without brackets.
def singlePair : Nat → Reading (Node × Node)
  | 0 => throw .unexpectedToken
  | n + 1 => do
    -- Where the key is left out, the token that shows it is dropped.
    let key ← if [.value, .flowEntry, .flowSequenceEnd].contains (← peek) then
        skip; pure missing
      else node false false n
    if (← peek) = .value then
      skip
      return (key, ← nodeUnless [.flowEntry, .flowSequenceEnd] false false n)
    else return (key, missing)

end

def skipAll (t : Token) : Nat → Reading Unit
  | 0 => return
  | n + 1 => do if (← peek) = t then skip; skipAll t n

-- Reads the only document of a stream.
def document (n : Nat) : Reading Node := do
  if (← peek) = .streamEnd then throw .noDocument
  let root ← if [.directive, .documentStart].contains (← peek) then
      skipAll .directive n
      expect .documentStart
      nodeUnless [.directive, .documentStart, .documentEnd, .streamEnd] true false n
    else node true false n
  skipAll .documentEnd n
  if (← peek) = .streamEnd then return root else throw .severalDocuments

end Reading

-- The tree of a stream that holds one document.
def ofTokens (tokens : List Token) : Except Error Node :=
  (Reading.document (4 * tokens.length + 16)).run' { tokens }

def ofText (text : String) : Except Error Node := do
  ofTokens (← Token.ofText text)

mutual

-- How many marks the tree consists of: one for a scalar or an alias, two around a collection.
def weight : Node → Nat
  | scalar .. | reference _ => 1
  | anchored _ node => node.weight
  | sequence items => itemWeights items + 2
  | mapping entries => entryWeights entries + 2

def itemWeights : List Node → Nat
  | [] => 0
  | item :: rest => item.weight + itemWeights rest

def entryWeights : List (Node × Node) → Nat
  | [] => 0
  | (key, value) :: rest => key.weight + value.weight + entryWeights rest

end

mutual

-- The anchored nodes of the tree with their numbers.
def anchors : Node → List (Nat × Node)
  | scalar .. | reference _ => []
  | anchored id node => (id, node) :: node.anchors
  | sequence items => itemAnchors items
  | mapping entries => entryAnchors entries

def itemAnchors : List Node → List (Nat × Node)
  | [] => []
  | item :: rest => item.anchors ++ itemAnchors rest

def entryAnchors : List (Node × Node) → List (Nat × Node)
  | [] => []
  | (key, value) :: rest => key.anchors ++ value.anchors ++ entryAnchors rest

end

end Node

end StaticSite.Yaml
