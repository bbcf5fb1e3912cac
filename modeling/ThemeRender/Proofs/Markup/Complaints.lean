import ThemeRender.Diagnostic.Report
import ThemeRender.Proofs.Markup.ParallelLines
import ThemeRender.Proofs.Markup.SourceLines

namespace ThemeRender

def Span.Forward (span : Span) : Prop :=
  span.start ≤ span.stop

/-- The span is that of a piece of the text in the line with the number, without the indentation and
the blanks at the end of the line. -/
def Span.InLine (source : List Char) (number : Nat) (span : Span) : Prop :=
  ∃ earlier raw later piece place, Text.lines source = earlier ++ raw :: later ∧
    number = earlier.length + 1 ∧
    Text.StandsAt (Text.trimStart (Text.trimEnd raw)) piece place ∧
    span.start = Text.byteLength earlier.flatten +
      Text.byteLength ((Text.trimEnd raw).takeWhile Text.isBlank) + place ∧
    span.stop = span.start + Text.byteLength piece

namespace Span.InLine

variable {source : List Char} {number : Nat} {span : Span}

theorem number_le (inLine : span.InLine source number) :
    1 ≤ number ∧ number ≤ (Text.lines source).length := by
  obtain ⟨earlier, raw, later, -, -, split, same, -⟩ := inLine
  rw [split, same, List.length_append, List.length_cons]
  omega

theorem covers (inLine : span.InLine source number) : ∃ piece, span.Covers source piece := by
  obtain ⟨earlier, raw, later, piece, place, split, -, stands, start, stop⟩ := inLine
  have inSource : Text.StandsAt source raw (Text.byteLength earlier.flatten) := by
    refine ⟨earlier.flatten, later.flatten, ?_, rfl⟩
    rw [← Text.flatten_lines source, split, List.flatten_append, List.flatten_cons]
  obtain ⟨tail, kept⟩ := Text.trimEnd_isFront raw
  have inRaw : Text.StandsAt raw (Text.trimStart (Text.trimEnd raw))
      (Text.byteLength ((Text.trimEnd raw).takeWhile Text.isBlank)) := by
    refine ⟨(Text.trimEnd raw).takeWhile Text.isBlank, tail, ?_, rfl⟩
    rw [← List.append_assoc, Text.trimStart, List.takeWhile_append_dropWhile, kept]
  refine ⟨piece, ?_, stop⟩
  rw [start, Nat.add_comm (Text.byteLength earlier.flatten), Nat.add_right_comm, Nat.add_comm _ place]
  exact inSource.within (inRaw.within stands)

theorem forward (inLine : span.InLine source number) : span.Forward := by
  obtain ⟨piece, covers⟩ := inLine.covers
  exact covers.start_le_stop

theorem stop_le (inLine : span.InLine source number) : span.stop ≤ Text.byteLength source := by
  obtain ⟨piece, covers⟩ := inLine.covers
  obtain ⟨before, after, same, starts⟩ := covers.stop_boundary
  rw [← starts, same, Text.byteLength_append]
  exact Nat.le_add_right _ _

end Span.InLine

namespace Markup

open Outcome (Alongside)

variable {P : Line → Prop}

/-! Lines -/

/-- The line is held by one of the raw lines, the first of which has the given number and offset. -/
def Line.Among (number offset : Nat) (raws : List (List Char)) (line : Line) : Prop :=
  ∃ earlier raw later, raws = earlier ++ raw :: later ∧
    line = .ofRaw (number + earlier.length) (offset + Text.byteLength earlier.flatten) raw

theorem Line.among_head (number offset : Nat) (raw : List Char) (rest : List (List Char)) :
    (Line.ofRaw number offset raw).Among number offset (raw :: rest) :=
  ⟨[], raw, rest, rfl, rfl⟩

theorem Line.Among.tail {number offset : Nat} {raw : List Char} {rest : List (List Char)}
    {line : Line} (among : line.Among (number + 1) (offset + Text.byteLength raw) rest) :
    line.Among number offset (raw :: rest) := by
  obtain ⟨earlier, own, later, rfl, rfl⟩ := among
  refine ⟨raw :: earlier, own, later, rfl, ?_⟩
  rw [List.length_cons, List.flatten_cons, Text.byteLength_append]
  congr 1 <;> omega

/-- Every line corresponds to itself, and has the property. -/
def Itself (P : Line → Prop) (line other : Line) : Prop :=
  line = other ∧ P line

abbrev Unmoved (P : Line → Prop) : Line → Line → Prop :=
  Line.Reindented (Itself P) id Set.univ

theorem lineOf?_itself {number offset : Nat} {raw : List Char}
    (holds : P (.ofRaw number offset raw)) :
    Alongside (Echoes (Itself P))
      (fun line? lineToo? => List.Forall₂ (Unmoved P) line?.toList lineToo?.toList)
      (lineOf? number offset raw) (lineOf? number offset raw) := by
  have itself : Itself P (.ofRaw number offset raw) (.ofRaw number offset raw) := ⟨rfl, holds⟩
  unfold lineOf?
  dsimp only
  split
  · exact .ok .nil
  · split
    · exact .error (.whole itself _)
    · exact .ok (.cons ⟨itself, trivial, rfl⟩ .nil)

theorem linesFrom_itself {number offset : Nat} {raws : List (List Char)}
    (holds : ∀ line : Line, line.Among number offset raws → P line) :
    Alongside (Echoes (Itself P)) (List.Forall₂ (Unmoved P)) (linesFrom number offset raws)
      (linesFrom number offset raws) := by
  induction raws generalizing number offset with
  | nil => exact .ok .nil
  | cons raw rest ih =>
      rw [linesFrom]
      apply (lineOf?_itself (holds _ (Line.among_head number offset raw rest))).bind
      intro line? lineToo? first
      apply (ih fun line among => holds line among.tail).bind
      intro lines linesToo more
      exact .ok (List.rel_append first more)

theorem Shaped.itself {trees treesToo : List LineTree} (shaped : Shaped (Itself P) trees treesToo)
    (within : Line → Context) :
    trees = treesToo ∧ Parallel within (Itself P) trees treesToo := by
  induction shaped with
  | nil => exact ⟨rfl, .nil⟩
  | cons place _ _ inside after =>
      obtain ⟨rfl, -⟩ := id place
      obtain ⟨rfl, inside⟩ := inside
      obtain ⟨rfl, after⟩ := after
      exact ⟨rfl, .cons place rfl (fun _ => rfl) inside after⟩

theorem ofSource_itself (source : List Char) (within : Line → Context) :
    Alongside (Echoes (Itself (Line.Among 1 0 (Text.lines source))))
      (Parallel within (Itself (Line.Among 1 0 (Text.lines source))))
      (LineTree.ofSource source) (LineTree.ofSource source) := by
  apply (linesFrom_itself fun _ among => among).bind
  intro lines linesToo alike
  have shaped := forest_shaped (strictMono_id.strictMonoOn _) alike (firstIndent_reindented alike)
  exact shaped.mono fun _ _ shaped => (shaped.itself within).2

/-! Places -/

theorem Line.Among.inLine {source rest : List Char} {line : Line}
    (among : line.Among 1 0 (Text.lines source)) (part : rest <:+ line.text) :
    Span.InLine source line.number ⟨line.span.stop - Text.byteLength rest, line.span.stop⟩ := by
  obtain ⟨earlier, raw, later, split, rfl⟩ := among
  have shorter : Text.byteLength rest ≤ Text.byteLength (Text.trimStart (Text.trimEnd raw)) := by
    obtain ⟨front, same⟩ := part
    change front ++ rest = Text.trimStart (Text.trimEnd raw) at same
    rw [← same, Text.byteLength_append]
    exact Nat.le_add_left _ _
  have stands := (Text.StandsAt.whole (Text.trimStart (Text.trimEnd raw))).ending part
  refine ⟨earlier, raw, later, rest, _, split, ?_, stands, ?_, ?_⟩
  · exact Nat.add_comm _ _
  · simp only [Line.ofRaw]
    omega
  · simp only [Line.ofRaw]
    omega

theorem Echoes.inLine {source : List Char} {complaint complaintToo : Complaint}
    (echoes : Echoes (Itself (Line.Among 1 0 (Text.lines source))) complaint complaintToo) :
    complaint.span.InLine source complaint.line := by
  cases echoes with
  | @whole line _ place fault =>
      have inLine := place.2.inLine List.suffix_rfl
      have start : line.span.stop - Text.byteLength line.text = line.span.start := by
        obtain ⟨earlier, raw, later, -, rfl⟩ := place.2
        simp only [Line.ofRaw]
        omega
      rw [start] at inLine
      exact inLine
  | ending place part fault => exact place.2.inLine part

/-- An error is about a piece of the text in the line that it names. -/
theorem compile_error_inLine {dialect : Dialect} {compiler : Compiler} {source : String}
    {path : Path} {error : CompileError}
    (registered : Compilers.standard.compiler? dialect = some compiler)
    (fails : compiler source path = .error error) :
    error.dialect = dialect ∧ error.path = path ∧
      error.span.InLine source.toList error.line := by
  obtain ⟨rules, ruled⟩ : ∃ rules, lineRules? dialect = some rules := by
    cases dialect with
    | haml => exact ⟨_, rfl⟩
    | jade => exact ⟨_, rfl⟩
    | native => cases registered
  have alongside := @compiled_alongside _ dialect source source path path compiler rules registered
    ruled (ofSource_itself source.toList rules.within)
  rw [fails] at alongside
  cases alongside with
  | error echo => exact ⟨echo.dialect, echo.path, echo.complaints.inLine⟩

end Markup

/-- An error of the compilers at hand can be shown in its source. -/
theorem Compilers.standard_forward {dialect : Dialect} {compiler : Compiler} {source : String}
    {path : Path} {error : CompileError} (registered : standard.compiler? dialect = some compiler)
    (fails : compiler source path = .error error) : error.span.Forward :=
  (Markup.compile_error_inLine registered fails).2.2.forward

/-- An error of the compilers at hand has their dialect and the path that was given, and its place is
in the text of the line that it names, between characters. So it can be shown in the source. -/
theorem Compilers.standard_error_place {dialect : Dialect} {compiler : Compiler} {source : String}
    {path : Path} {error : CompileError} (registered : standard.compiler? dialect = some compiler)
    (fails : compiler source path = .error error) :
    (error.dialect = dialect ∧ error.path = path) ∧
      (1 ≤ error.line ∧ error.line ≤ (Text.lines source.toList).length) ∧
      (error.span.start ≤ error.span.stop ∧ error.span.stop ≤ Text.byteLength source.toList) ∧
      (Text.IsBoundary source.toList error.span.start ∧
        Text.IsBoundary source.toList error.span.stop) ∧
      error.span.InLine source.toList error.line ∧
      ((Report.ofCompileError error).render? source).isSome = true := by
  obtain ⟨ofDialect, ofPath, inLine⟩ := Markup.compile_error_inLine registered fails
  obtain ⟨piece, covers⟩ := inLine.covers
  refine ⟨⟨ofDialect, ofPath⟩, inLine.number_le, ⟨inLine.forward, inLine.stop_le⟩,
    ⟨covers.start_boundary, covers.stop_boundary⟩, inLine, ?_⟩
  exact (Report.render?_isSome_iff _ source).mpr inLine.forward

/-- The two bytes of the letter after a tag, on an indented line after a carriage return. -/
theorem Compilers.accent_after_tag_place : ∃ error,
    Markup.compileHaml "%ul\r\n\t%pé\r\n" (.ofString "views/a.haml") = .error error ∧
      error.line = 2 ∧ error.span = ⟨8, 10⟩ ∧
      error.span.InLine "%ul\r\n\t%pé\r\n".toList 2 ∧
      ((Report.ofCompileError error).render? "%ul\r\n\t%pé\r\n").isSome = true := by
  have place : (Markup.compileHaml "%ul\r\n\t%pé\r\n" (.ofString "views/a.haml")).mapError
      (fun error => (error.line, error.span)) = .error (2, ⟨8, 10⟩) := by
    decide +kernel
  obtain ⟨error, fails, same⟩ := Outcome.of_mapError place
  obtain ⟨line, span⟩ := Prod.mk.inj same
  have placed := @standard_error_place .haml _ _ _ _ rfl fails
  rw [line] at placed
  exact ⟨error, fails, line, span, placed.2.2.2.2⟩

end ThemeRender
