import ThemeRender.Template.Reader

namespace ThemeRender.Template

inductive SyntaxFault where
  | unterminatedTag
  | unrecognized (text : String)
  /-- `none` found stands for the end of the tag. -/
  | unexpected (found? : Option Token) (expected : List Expected)
  | elseTwice
  | elseOutsideIf
  | endOutsideBlock
  | blockNotClosed

structure SyntaxError where
  span : Span
  fault : SyntaxFault

def SyntaxFault.message : SyntaxFault → String
  | .unterminatedTag => "Unterminated template tag"
  | .unrecognized text => s!"Unrecognized input '{text}'"
  | .unexpected (some token) _ => s!"Unexpected {token.describe}"
  | .unexpected none _ => "Unexpected end of tag"
  | .elseTwice => "Duplicate 'else' in 'if' block"
  | .elseOutsideIf => "'else' outside of an 'if' block"
  | .endOutsideBlock => "'end' without an open block"
  | .blockNotClosed => "Block is never closed with 'end'"

def SyntaxFault.expected : SyntaxFault → List Expected
  | .unexpected _ expected => expected
  | _ => []

namespace SyntaxError

def message (error : SyntaxError) : String :=
  error.fault.message

def expected (error : SyntaxError) : List String :=
  error.fault.expected.map Expected.describe

def shift (offset : Nat) (error : SyntaxError) : SyntaxError :=
  { error with span := error.span.shift offset }

def display (error : SyntaxError) : String :=
  s!"Parse error at {error.span.start}..{error.span.stop}: {error.message}"

def displayAll (errors : List SyntaxError) : String :=
  "; ".intercalate (errors.map display)

end SyntaxError

end ThemeRender.Template
