import ThemeRender.Template.ExprReader
import ThemeRender.Template.Lexeme
import ThemeRender.Template.SyntaxError

namespace ThemeRender.Template

inductive TagKind where
  | output
  | code
  | comment
deriving DecidableEq, Repr

def TagKind.ofText : List Char → TagKind × List Char
  | '=' :: rest => (.output, rest)
  | '#' :: rest => (.comment, rest)
  | rest => (.code, rest)

/-- The span of the token that could not be read. At the end of the code it runs from there back to
the end of the last token. -/
def stuckSpan (codeLength : Nat) (tokens : List (Spanned Token)) (stuck : Stuck) : Span :=
  match stuck.rest with
  | token :: _ => token.span
  | [] => ⟨codeLength, (tokens.getLast?.map (·.span.stop)).getD codeLength⟩

def stuckError (codeLength : Nat) (tokens : List (Spanned Token)) (stuck? : Option Stuck) :
    SyntaxError :=
  let stuck := stuck?.getD ⟨tokens, []⟩
  ⟨stuckSpan codeLength tokens stuck,
    .unexpected (stuck.rest.head?.map (·.node)) stuck.expected⟩

def readCode {α : Type} (reader : Reader α) (code : List Char) : Except SyntaxError α :=
  match lex code with
  | .error span =>
      let text := Text.takeBytes (span.stop - span.start) (code.drop (Text.takeBytes span.start code).length)
      .error ⟨span, .unrecognized (String.ofList text)⟩
  | .ok tokens =>
      let reading := reader tokens
      match reading.found? with
      | some (a, _) => .ok a
      | none => .error (stuckError (Text.byteLength code) tokens reading.stuck?)

end ThemeRender.Template
