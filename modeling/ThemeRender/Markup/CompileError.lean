import ThemeRender.Markup.Dialect
import ThemeRender.Text.Span

namespace ThemeRender

namespace Markup

inductive CompileFault where
  | mixedIndentation
  | inconsistentIndentation
  | unterminatedInterpolation
  | emptyInterpolation
  | secondId (id : List Char)
  | unterminatedString (quote : Char)
  | missingAttributeValue
  | unterminatedAttributes
  | unterminatedHash
  | missingAttributeName (found : Char)
  | missingHashName
  | missingHashColon (name : List Char)
  | missingScript (sign : Char)
  | unknownFilter (name : List Char)
  | illegalElement (rest : List Char)
  | missingExpression
  | missingCode
  | looseText (text : List Char)
  | bareKeyword (keyword : List Char)
  | blockExpansion
  | afterTag (rest tag : List Char)
  | elseWithoutIf
  | nestedIn (what : String)
  | selfClosingContent (tag : List Char)
  | contentTwice

def CompileFault.message : CompileFault → String
  | .mixedIndentation => "Indentation mixes tabs and spaces"
  | .inconsistentIndentation => "Inconsistent indentation"
  | .unterminatedInterpolation => "Unterminated interpolation '#\x7b'"
  | .emptyInterpolation => "Empty interpolation '#\x7b\x7d'"
  | .secondId id => s!"Element has more than one id: '{String.ofList id}'"
  | .unterminatedString quote => s!"Unterminated string, expected {quote}"
  | .missingAttributeValue => "Expected an attribute value"
  | .unterminatedAttributes => "Unterminated attribute list, expected ')'"
  | .unterminatedHash => "Unterminated attribute hash, expected '\x7d'"
  | .missingAttributeName found => s!"Expected an attribute name, found '{found}'"
  | .missingHashName => "Expected an attribute name"
  | .missingHashColon name => s!"Expected ':' after attribute '{String.ofList name}'"
  | .missingScript sign =>
      if sign = '=' then "There's no Ruby code for = to output"
      else "There's no Ruby code for - to evaluate"
  | .unknownFilter name => s!"Filter \"{String.ofList name}\" is not defined"
  | .illegalElement rest => s!"Illegal element: unexpected '{String.ofList rest}'"
  | .missingExpression => "Expected an expression after '='"
  | .missingCode => "Expected code after '-'"
  | .looseText text => s!"Unexpected text '{String.ofList text}'; use '|' for plain text"
  | .bareKeyword keyword => s!"'{String.ofList keyword}' requires an expression"
  | .blockExpansion => "Block expansion ':' is not supported; nest the child on its own line"
  | .afterTag rest tag => s!"Unexpected '{String.ofList rest}' after tag '{String.ofList tag}'"
  | .elseWithoutIf => "'else' without a preceding 'if'"
  | .nestedIn what => s!"Illegal nesting: nesting within {what} is illegal"
  | .selfClosingContent tag =>
      s!"Illegal nesting: '{String.ofList tag}' is self-closing and cannot have content"
  | .contentTwice => "Illegal nesting: content can't be both given on the same line and nested"

structure Complaint where
  line : Nat
  span : Span
  fault : CompileFault

end Markup

structure CompileError where
  dialect : Dialect
  path : Path
  complaint : Markup.Complaint

namespace CompileError

def message (error : CompileError) : String :=
  error.complaint.fault.message

def span (error : CompileError) : Span :=
  error.complaint.span

def line (error : CompileError) : Nat :=
  error.complaint.line

def category (error : CompileError) : String :=
  match error.dialect with
  | .haml => "HamlSyntaxError"
  | .jade => "JadeSyntaxError"
  | .native => "TemplateSyntaxError"

def display (error : CompileError) : String :=
  s!"{error.path.display}:{error.line}: {error.message}"

end CompileError

end ThemeRender
