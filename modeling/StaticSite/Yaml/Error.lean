/-!
Why a text is not the YAML that was asked for.
-/
namespace StaticSite.Yaml

-- The reason for which a text is not read. The first group are faults of the characters, the second
-- of the structure, the third of the meaning.
inductive Error where
  | unexpectedCharacter
  | tabInIndentation
  | unclosedQuote
  | badEscape
  | badDirective
  | badTag
  | badAnchor
  | badBlockHeader
  | keyWithoutColon
  | notAllowedHere
  | nestedTooDeep
  | unexpectedToken
  | unknownAnchor
  | noDocument
  | severalDocuments
  | tooManyAliases
  | wrongType
  | badScalarForTag
  | numberTooLarge
  | duplicateField
  | badUrl
  deriving DecidableEq, Repr

def Error.message : Error → String
  | unexpectedCharacter => "unexpected character"
  | tabInIndentation => "tab in indentation"
  | unclosedQuote => "quote is not closed"
  | badEscape => "bad escape sequence"
  | badDirective => "bad directive"
  | badTag => "bad tag"
  | badAnchor => "bad anchor or alias"
  | badBlockHeader => "bad header of a block scalar"
  | keyWithoutColon => "key without a colon"
  | notAllowedHere => "not allowed here"
  | nestedTooDeep => "nested too deep"
  | unexpectedToken => "unexpected token"
  | unknownAnchor => "unknown anchor"
  | noDocument => "no document"
  | severalDocuments => "more than one document"
  | tooManyAliases => "too many aliases"
  | wrongType => "value of the wrong type"
  | badScalarForTag => "scalar does not have the form that its tag asks for"
  | numberTooLarge => "number too large"
  | duplicateField => "duplicate field"
  | badUrl => "bad URL"

end StaticSite.Yaml
