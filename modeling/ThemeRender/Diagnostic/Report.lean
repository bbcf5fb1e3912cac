import ThemeRender.Diagnostic.Ink
import ThemeRender.Diagnostic.SourceLine
import ThemeRender.Markup.CompileError
import ThemeRender.Template.SyntaxError

namespace ThemeRender

structure Report where
  file : String
  message : String
  label : String
  span : Span

namespace Report

open Diagnostic

def ofSyntaxError (file : String) (error : Template.SyntaxError) : Report where
  file
  message := error.message
  label :=
    match error.expected with
    | [] => error.message
    | expected => error.message ++ "\nExpected: " ++ ", ".intercalate expected
  span := error.span

def ofCompileError (error : CompileError) : Report where
  file := error.path.display
  message := error.message
  label := error.message
  span := error.span

def heading (report : Report) : String :=
  Ink.alarm.paint "Error:" ++ s!" {report.message}\n"

def blanks (count : Nat) : String :=
  String.ofList (List.replicate count ' ')

/-- The file and the place, above the source. `digits` is the width of the line numbers. -/
def opening (report : Report) (digits : Nat) (first : SourceLine) : String :=
  let place := s!"{report.file}:{first.number}:{report.span.start - first.offset + 1}"
  let box := String.join (["╭", "─", "["].map Ink.margin.paint)
  let indent := blanks (digits + 2)
  indent ++ box ++ place ++ Ink.margin.paint "]" ++ "\n" ++ indent ++ Ink.margin.paint "│" ++ "\n"

def closing (digits : Nat) : String :=
  Ink.margin.paint (String.ofList (List.replicate (digits + 2) '─') ++ "╯") ++ "\n"

def numberMargin (digits : Nat) (line : SourceLine) : String :=
  let number := toString line.number
  " " ++ Ink.margin.paint (blanks (digits - number.length) ++ number ++ " │") ++ " "

def rowMargin (digits : Nat) (rule : String) : String :=
  " " ++ Ink.faintMargin.paint (blanks (digits + 1) ++ rule) ++ " "

def covers (report : Report) (position : Nat) : Bool :=
  report.span.start ≤ position && position < report.span.stop

def drawChar (report : Report) (line : SourceLine) (column : Nat) (c : Char) : String :=
  let ink := if report.covers (line.offset + column) then Ink.alarm else .source
  if Text.isBlank c then
    (Glyph.line ink ' ').draw (SourceLine.columnWidth column c)
  else ink.paint c.toString

def drawLine (report : Report) (line : SourceLine) : String :=
  String.join (line.shown.mapIdx (report.drawChar line))

def drawRow (line : SourceLine) (columns : Nat) (glyph : Nat → Glyph) : String :=
  String.join ((line.columnWidths columns).mapIdx fun column width => (glyph column).draw width)

def alarmRule (marks : String) : String :=
  String.join (marks.toList.map fun c => Ink.alarm.paint c.toString)

def drawWithin (report : Report) (digits : Nat) (line : SourceLine) : String :=
  let columns := report.span.stop - line.offset + 2
  let middle := max ((report.span.start + report.span.stop) / 2) report.span.start - line.offset
  let rule (column : Nat) : Glyph :=
    let covered := report.covers (line.offset + column)
    if column = middle then if covered then ⟨.alarm, '┬', '─'⟩ else ⟨.alarm, '│', ' '⟩
    else if covered then .line .alarm '─' else .blank
  let lead (column : Nat) : Glyph :=
    if column < middle then .blank
    else if column = middle then ⟨.alarm, '╰', '─'⟩
    else .line .alarm '─'
  numberMargin digits line ++ report.drawLine line ++ "\n" ++
    rowMargin digits "│" ++ drawRow line columns rule ++ "\n" ++
    rowMargin digits "│" ++ drawRow line columns lead ++ s!" {report.label}\n"

def drawFirst (report : Report) (digits : Nat) (first : SourceLine) : String :=
  numberMargin digits first ++ alarmRule "╭─▶ " ++ report.drawLine first ++ "\n"

def gapRow (digits : Nat) : String :=
  rowMargin digits "┆" ++ alarmRule "┆" ++ "   \n"

def drawLast (report : Report) (digits : Nat) (last : SourceLine) : String :=
  let columns := last.text.length + 2
  let rule := drawRow last columns fun _ => .line .alarm '─'
  numberMargin digits last ++ alarmRule "├─▶ " ++ report.drawLine last ++ "\n" ++
    rowMargin digits "│" ++ alarmRule "│" ++ "   " ++ drawRow last columns (fun _ => .blank) ++
    "\n" ++ rowMargin digits "│" ++ alarmRule "╰───" ++ rule ++ s!" {report.label}\n"

/-- The marked place. A last line that the place goes beyond is left out, and the label with it. -/
def drawMarked (report : Report) (digits : Nat) (first last : SourceLine) : String :=
  let fits : Bool := report.span.stop ≤ last.stop
  if first.number = last.number then
    if fits then report.drawWithin digits first else rowMargin digits "│" ++ "\n"
  else
    let gap := if first.number + 1 < last.number ∨ !fits then gapRow digits else ""
    report.drawFirst digits first ++ gap ++ if fits then report.drawLast digits last else ""

def lines? (span : Span) (source : List Char) : Option (SourceLine × SourceLine) := do
  let first ← SourceLine.at? source span.start
  let last ← SourceLine.at? source (max span.start (span.stop - 1))
  return (first, last)

/--
The report with the source it is about. Positions are looked up as characters; a place that is not
within the source is left out. A place that ends before it starts cannot be shown.
-/
def render? (report : Report) (source : String) : Option String :=
  if report.span.stop < report.span.start then none
  else
    match lines? report.span source.toList with
    | none => some report.heading
    | some (first, last) =>
        let digits := (toString last.number).length
        some (report.heading ++ report.opening digits first ++
          report.drawMarked digits first last ++ closing digits)

theorem render?_isSome_iff (report : Report) (source : String) :
    (report.render? source).isSome ↔ report.span.start ≤ report.span.stop := by
  unfold render?
  split
  · simp_all
  · split <;> simp <;> omega

end Report

end ThemeRender
