import ThemeRender.Markup.CompileError
import ThemeRender.Text.Blank
import ThemeRender.Text.Cut
/-!
Text with expressions in it. An expression stands between `#{` and `}`; a backslash before `#{`
makes it plain text and is itself left out.
-/

namespace ThemeRender.Markup

inductive Piece where
  | text (contents : List Char)
  | expr (code : List Char)
deriving DecidableEq, Repr

/-- The code of a template that writes an expression. -/
def outputTag (code : List Char) : List Char :=
  "<%= ".toList ++ code ++ " %>".toList

def codeTag (code : List Char) : List Char :=
  "<% ".toList ++ code ++ " %>".toList

def Piece.template : Piece → List Char
  | .text contents => contents
  | .expr code => outputTag code

def templateOfPieces (pieces : List Piece) : List Char :=
  pieces.flatMap Piece.template

def exprOpen : List Char := ['#', '\x7b']

def exprClose : List Char := ['\x7d']

def textPiece (contents : List Char) : List Piece :=
  if contents.isEmpty then [] else [.text contents]

def piecesAfter (literal s : List Char) : Except CompileFault (List Piece) :=
  match _hopen : Text.cut? exprOpen s with
  | none => .ok (textPiece (literal ++ s))
  | some (before, after) =>
      if before.getLast? = some '\\' then
        piecesAfter (literal ++ before.dropLast ++ exprOpen) after
      else
        match _hclose : Text.cut? exprClose after with
        | none => .error .unterminatedInterpolation
        | some (inner, rest) =>
            let code := Text.trim inner
            if code.isEmpty then .error .emptyInterpolation
            else
              (piecesAfter [] rest).map fun pieces =>
                textPiece (literal ++ before) ++ .expr code :: pieces
termination_by s.length
decreasing_by
  · exact Text.length_lt_of_cut? (by decide) _hopen
  · have opened := Text.length_lt_of_cut? (by decide) _hopen
    have closed := Text.length_lt_of_cut? (by decide) _hclose
    omega

def interpolate (s : List Char) : Except CompileFault (List Piece) :=
  piecesAfter [] s

end ThemeRender.Markup
