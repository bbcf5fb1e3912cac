import ThemeRender.Decimal.Layout

namespace ThemeRender.Template

inductive Keyword where
  | ifKw
  | elseKw
  | endKw
  | forKw
  | inKw
  | notKw
  | andKw
  | orKw
  | trueKw
  | falseKw
  | nullKw
deriving DecidableEq, Repr

namespace Keyword

def text : Keyword → String
  | .ifKw => "if"
  | .elseKw => "else"
  | .endKw => "end"
  | .forKw => "for"
  | .inKw => "in"
  | .notKw => "not"
  | .andKw => "and"
  | .orKw => "or"
  | .trueKw => "true"
  | .falseKw => "false"
  | .nullKw => "null"

def all : List Keyword :=
  [.ifKw, .elseKw, .endKw, .forKw, .inKw, .notKw, .andKw, .orKw, .trueKw, .falseKw, .nullKw]

def ofText? (word : List Char) : Option Keyword :=
  all.find? fun keyword => keyword.text.toList = word

end Keyword

inductive Mark where
  | equal
  | unequal
  | leftParen
  | rightParen
  | comma
  | colon
  | dot
deriving DecidableEq, Repr

def Mark.text : Mark → String
  | .equal => "=="
  | .unequal => "!="
  | .leftParen => "("
  | .rightParen => ")"
  | .comma => ","
  | .colon => ":"
  | .dot => "."

inductive Token where
  | keyword (word : Keyword)
  | mark (sign : Mark)
  | ident (name : String)
  | string (contents : String)
  | number (x : Float)

/-- A token in an error message. The words for the constant values go by the value's name. -/
def Token.describe : Token → String
  | .keyword .trueKw => "True"
  | .keyword .falseKw => "False"
  | .keyword .nullKw => "Null"
  | .keyword word => s!"keyword '{word.text}'"
  | .mark sign => s!"'{sign.text}'"
  | .ident name => s!"identifier '{name}'"
  | .string contents => s!"string \"{contents}\""
  | .number x => s!"number {String.ofList (Decimal.plainText x)}"

end ThemeRender.Template
