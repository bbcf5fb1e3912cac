import ThemeRender.Text.Span
/-!
What can be wrong with a JSON text, and where. A place is given by the text left to read and the
number of its bytes that were looked at.
-/

namespace ThemeRender

inductive JsonFault where
  | endOfList
  | endOfObject
  | endOfString
  | endOfValue
  | expectedColon
  | expectedListCommaOrEnd
  | expectedObjectCommaOrEnd
  | expectedIdent
  | expectedValue
  | invalidEscape
  | invalidNumber
  | numberOutOfRange
  | controlCharacter
  | keyNotString
  | loneSurrogate
  | endOfHexEscape
  | trailingComma
  | trailingCharacters
  | tooDeep
deriving DecidableEq, Repr

def JsonFault.text : JsonFault → String
  | .endOfList => "EOF while parsing a list"
  | .endOfObject => "EOF while parsing an object"
  | .endOfString => "EOF while parsing a string"
  | .endOfValue => "EOF while parsing a value"
  | .expectedColon => "expected `:`"
  | .expectedListCommaOrEnd => "expected `,` or `]`"
  | .expectedObjectCommaOrEnd => "expected `,` or `\x7d`"
  | .expectedIdent => "expected ident"
  | .expectedValue => "expected value"
  | .invalidEscape => "invalid escape"
  | .invalidNumber => "invalid number"
  | .numberOutOfRange => "number out of range"
  | .controlCharacter =>
      "control character (\\u0000-\\u001F) found while parsing a string"
  | .keyNotString => "key must be a string"
  | .loneSurrogate => "lone leading surrogate in hex escape"
  | .endOfHexEscape => "unexpected end of hex escape"
  | .trailingComma => "trailing comma"
  | .trailingCharacters => "trailing characters"
  | .tooDeep => "recursion limit exceeded"

/-- A fault `ahead` bytes into `rest`, or at its end if it is shorter. -/
structure JsonFailure where
  fault : JsonFault
  rest : List Char
  ahead : Nat

structure JsonError where
  fault : JsonFault
  line : Nat
  column : Nat
deriving DecidableEq, Repr

def JsonError.message (error : JsonError) : String :=
  s!"{error.fault.text} at line {error.line} column {error.column}"

def lastLineStart : List Char → Nat
  | [] => 0
  | c :: rest =>
      if '\n' ∈ rest then c.utf8Size + lastLineStart rest
      else if c = '\n' then 1 else 0

def JsonFailure.locate (source : List Char) (failure : JsonFailure) : JsonError :=
  let left := Text.byteLength failure.rest
  let offset := Text.byteLength source - left + min failure.ahead left
  let before := Text.takeBytes offset source
  ⟨failure.fault, before.count '\n' + 1, offset - lastLineStart before⟩

end ThemeRender
