import ThemeRender.Markup.CompileError
import ThemeRender.Text.Blank
import ThemeRender.Text.Cut
/-!
The lines of a source, nested by indentation. Blank lines are left out.
-/

namespace ThemeRender.Markup

/-- A line that is not blank. `text` has neither the indentation nor the blanks at the end, and
`span` is where it stands in the source. -/
structure Line where
  number : Nat
  indent : Nat
  text : List Char
  span : Span

def Line.complain (line : Line) (fault : CompileFault) : Complaint :=
  ⟨line.number, line.span, fault⟩

def Line.complainFrom (line : Line) (rest : List Char) (fault : CompileFault) : Complaint :=
  ⟨line.number, ⟨line.span.stop - Text.byteLength rest, line.span.stop⟩, fault⟩

def Line.check {α : Type} (line : Line) (result : Except CompileFault α) : Except Complaint α :=
  result.mapError line.complain

/-- The line with the given number that starts at byte `offset`, if it is not blank. -/
def lineOf? (number offset : Nat) (raw : List Char) : Except Complaint (Option Line) :=
  let content := Text.trimEnd raw
  let text := Text.trimStart content
  let indent := content.takeWhile Text.isBlank
  let start := offset + Text.byteLength indent
  let line : Line := ⟨number, indent.length, text, ⟨start, start + Text.byteLength text⟩⟩
  if text.isEmpty then .ok none
  else if '\t' ∈ indent ∧ ' ' ∈ indent then .error (line.complain .mixedIndentation)
  else .ok (some line)

def linesFrom (number offset : Nat) : List (List Char) → Except Complaint (List Line)
  | [] => .ok []
  | raw :: rest => do
      let line? ← lineOf? number offset raw
      let lines ← linesFrom (number + 1) (offset + Text.byteLength raw) rest
      return line?.toList ++ lines

inductive LineTree where
  | mk (line : Line) (nested : List LineTree)

namespace LineTree

def line : LineTree → Line
  | mk line _ => line

def nested : LineTree → List LineTree
  | mk _ nested => nested

/-- Nests lines, all of them at least as deep as `level` demands. A line is nested under the last
one before it that is less deep, and lines nested under the same line are equally deep. -/
def forest (level : Nat) (lines : List Line) : Except Complaint (List LineTree) :=
  match lines with
  | [] => .ok []
  | line :: rest =>
      if line.indent ≠ level then .error (line.complain .inconsistentIndentation)
      else
        let deeper := rest.takeWhile (level < ·.indent)
        let others := rest.dropWhile (level < ·.indent)
        do
          let nested ← forest ((deeper.head?.map Line.indent).getD 0) deeper
          let siblings ← forest level others
          return mk line nested :: siblings
termination_by lines.length
decreasing_by
  · have := (List.takeWhile_prefix (l := rest) fun next => decide (level < next.indent)).length_le
    simp only [List.length_cons]
    omega
  · have := (List.dropWhile_suffix (l := rest) fun next => decide (level < next.indent)).length_le
    simp only [List.length_cons]
    omega

def ofSource (source : List Char) : Except Complaint (List LineTree) := do
  let lines ← linesFrom 1 0 (Text.lines source)
  forest ((lines.head?.map Line.indent).getD 0) lines

mutual

/-- The text of a line and of those nested under it, indented beyond `base` as in the source. -/
def rawLines (base : Nat) : LineTree → List (List Char)
  | mk line nested =>
      (List.replicate (line.indent - base) ' ' ++ line.text) :: rawForest base nested

def rawForest (base : Nat) : List LineTree → List (List Char)
  | [] => []
  | tree :: rest => rawLines base tree ++ rawForest base rest

end

/-- The nested lines as text, with the indentation they have beyond the first of them. -/
def rawNested (tree : LineTree) : List (List Char) :=
  match tree.nested with
  | [] => []
  | first :: rest => rawForest first.line.indent (first :: rest)

end LineTree

end ThemeRender.Markup
