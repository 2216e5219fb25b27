/-!
# Faults of JSON texts

What can be wrong with a text that should hold a JSON document.
-/

namespace LibraryHeaders.Json

inductive Fault where
  | endInValue
  | endInString
  | endInList
  | endInObject
  | noValue
  | misspelt
  | noColon
  | noCommaInList
  | noCommaInObject
  | trailingComma
  | trailingCharacters
  | keyNotString
  | badNumber
  | numberOutOfRange
  | badEscape
  | unpairedEscape
  | loneSurrogate
  | controlCharacter
  deriving DecidableEq, Repr

def Fault.message : Fault → String
  | .endInValue => "EOF while parsing a value"
  | .endInString => "EOF while parsing a string"
  | .endInList => "EOF while parsing a list"
  | .endInObject => "EOF while parsing an object"
  | .noValue => "expected value"
  | .misspelt => "expected ident"
  | .noColon => "expected `:`"
  | .noCommaInList => "expected `,` or `]`"
  | .noCommaInObject => "expected `,` or `\x7d`"
  | .trailingComma => "trailing comma"
  | .trailingCharacters => "trailing characters"
  | .keyNotString => "key must be a string"
  | .badNumber => "invalid number"
  | .numberOutOfRange => "number out of range"
  | .badEscape => "invalid escape"
  | .unpairedEscape => "unexpected end of hex escape"
  | .loneSurrogate => "lone leading surrogate in hex escape"
  | .controlCharacter => "control character (\\u0000-\\u001F) found while parsing a string"

end LibraryHeaders.Json
