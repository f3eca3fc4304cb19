/-! Why a text is no YAML document of the expected shape. -/
namespace AgentPrompt.Yaml

inductive Fault where
  | controlCharacter
  | badDirective
  | badAnchor
  | badTag
  | badBlockHeader
  | badEscape
  | unclosedQuote
  | documentMarkInQuote
  | tabInIndentation
  | colonInFlow
  | keyWithoutColon
  | entryNotAllowed
  | keyNotAllowed
  | valueNotAllowed
  | strayCharacter
  | unexpectedToken
  | badVersion
  | repeatedDirective
  | unknownTagHandle
  | unknownAnchor
  | severalDocuments
  | tooManyAliases
  | notText
  | notFlag
  | notList
  | notMapping
  | notNull
  | unknownValue (text : String)
  | missingField (name : String)
  | repeatedField (name : String)
  deriving DecidableEq, Repr

def Fault.message : Fault → String
  | .controlCharacter => "control characters are not allowed"
  | .badDirective => "invalid directive"
  | .badAnchor => "invalid anchor or alias"
  | .badTag => "invalid tag"
  | .badBlockHeader => "invalid header of a block scalar"
  | .badEscape => "invalid escape in a quoted scalar"
  | .unclosedQuote => "a quoted scalar is not closed"
  | .documentMarkInQuote => "document marker inside a quoted scalar"
  | .tabInIndentation => "a tab stands where indentation is expected"
  | .colonInFlow => "unexpected ':' in a flow collection"
  | .keyWithoutColon => "a key lacks its ':'"
  | .entryNotAllowed => "a sequence entry is not allowed here"
  | .keyNotAllowed => "a mapping key is not allowed here"
  | .valueNotAllowed => "a mapping value is not allowed here"
  | .strayCharacter => "a character cannot start a token"
  | .unexpectedToken => "unexpected token"
  | .badVersion => "unsupported version of the format"
  | .repeatedDirective => "a directive is repeated"
  | .unknownTagHandle => "undefined tag handle"
  | .unknownAnchor => "unknown anchor"
  | .severalDocuments => "more than one document"
  | .tooManyAliases => "too many aliases are followed"
  | .notText => "expected a text"
  | .notFlag => "expected a boolean"
  | .notList => "expected a sequence"
  | .notMapping => "expected a mapping"
  | .notNull => "expected null"
  | .unknownValue text => s!"unknown value '{text}'"
  | .missingField name => s!"missing field '{name}'"
  | .repeatedField name => s!"duplicate field '{name}'"

end AgentPrompt.Yaml
