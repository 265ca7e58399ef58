import StaticSite.Yaml.Error
/-!
The tokens of a YAML stream.
-/
namespace StaticSite.Yaml

-- A tag as written: the handle between exclamation marks, and what follows it.
structure Tag where
  handle : String
  suffix : String
  deriving DecidableEq, Repr

inductive Token where
  | streamEnd
  | directive
  | documentStart
  | documentEnd
  | blockSequenceStart
  | blockMappingStart
  | blockEnd
  | flowSequenceStart
  | flowSequenceEnd
  | flowMappingStart
  | flowMappingEnd
  | blockEntry
  | flowEntry
  | key
  | value
  | «alias» (name : String)
  | anchor (name : String)
  | tag (tag : Tag)
  | scalar (text : String) (plain : Bool)
  deriving DecidableEq, Repr

end StaticSite.Yaml
