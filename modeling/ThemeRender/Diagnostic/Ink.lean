namespace ThemeRender.Diagnostic

inductive Ink where
  | plain
  | alarm
  | margin
  | faintMargin
  | source

def Ink.code? : Ink → Option String
  | .plain => none
  | .alarm => some "31"
  | .margin => some "38;5;246"
  | .faintMargin => some "38;5;240"
  | .source => some "38;5;249"

def Ink.paint (ink : Ink) (text : String) : String :=
  match ink.code? with
  | none => text
  | some code => s!"\x1b[{code}m{text}\x1b[0m"

/-- What is drawn in one column of the source: `head`, and `tail` where the column is wider. -/
structure Glyph where
  ink : Ink
  head : Char
  tail : Char

def Glyph.line (ink : Ink) (c : Char) : Glyph := ⟨ink, c, c⟩

def Glyph.blank : Glyph := .line .plain ' '

def Glyph.draw (glyph : Glyph) : Nat → String
  | 0 => ""
  | more + 1 =>
      glyph.ink.paint glyph.head.toString ++
        String.join (List.replicate more (glyph.ink.paint glyph.tail.toString))

end ThemeRender.Diagnostic
