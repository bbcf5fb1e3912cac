import ThemeRender.Proofs.Markup.ParallelLines
import ThemeRender.Proofs.Markup.SourceLines

namespace ThemeRender.Markup

open Outcome (Alongside)

/-! Lines that are taken as text -/

namespace LineTree

variable (within : Line → Context)

mutual

def holdsRaw : LineTree → Bool
  | mk line nested =>
      match within line with
      | .hidden => false
      | .text | .copied => !nested.isEmpty
      | .markup | .dropped => anyHoldsRaw nested

def anyHoldsRaw : List LineTree → Bool
  | [] => false
  | tree :: rest => holdsRaw tree || anyHoldsRaw rest

end

def sourceHoldsRaw (source : List Char) : Bool :=
  match ofSource source with
  | .ok trees => anyHoldsRaw within trees
  | .error _ => false

end LineTree

section

variable {At : Line → Line → Prop} {within : Line → Context}

theorem Shaped.parallel {trees treesToo : List LineTree} (shaped : Shaped At trees treesToo)
    (texts : ∀ line other, At line other → line.text = other.text)
    (plain : LineTree.anyHoldsRaw within trees = false) : Parallel within At trees treesToo := by
  induction shaped with
  | nil => exact .nil
  | @cons line other place nested nestedToo rest restToo inside _ ihInside ihAfter =>
      rw [LineTree.anyHoldsRaw, Bool.or_eq_false_iff, LineTree.holdsRaw] at plain
      obtain ⟨here, later⟩ := plain
      have same := texts line other place
      have empty (none : (!nested.isEmpty) = false) :
          Parallel within At (.mk line nested :: rest) (.mk other nestedToo :: restToo) := by
        cases inside with
        | nil => exact .cons place same (fun _ => rfl) .nil (ihAfter later)
        | cons => cases none
      have nesting (shown : within line ≠ .text ∧ within line ≠ .copied)
          (plain : LineTree.anyHoldsRaw within nested = false) :
          Parallel within At (.mk line nested :: rest) (.mk other nestedToo :: restToo) := by
        refine .cons place same ?_ (ihInside plain) (ihAfter later)
        intro taken
        exact absurd taken (not_or.mpr shown)
      cases context : within line with
      | hidden => exact .hidden context same _ _ (ihAfter later)
      | text =>
          rw [context] at here
          exact empty here
      | copied =>
          rw [context] at here
          exact empty here
      | markup =>
          rw [context] at here nesting
          exact nesting ⟨Context.noConfusion, Context.noConfusion⟩ here
      | dropped =>
          rw [context] at here nesting
          exact nesting ⟨Context.noConfusion, Context.noConfusion⟩ here

theorem parallel_of_shaped {source sourceToo : List Char}
    (shaped : Alongside (Echoes At) (Shaped At) (LineTree.ofSource source)
      (LineTree.ofSource sourceToo))
    (texts : ∀ line other, At line other → line.text = other.text)
    (plain : LineTree.sourceHoldsRaw within source = false) :
    Alongside (Echoes At) (Parallel within At) (LineTree.ofSource source)
      (LineTree.ofSource sourceToo) := by
  unfold LineTree.sourceHoldsRaw at plain
  generalize LineTree.ofSource source = built at shaped plain
  generalize LineTree.ofSource sourceToo = builtToo at shaped
  cases shaped with
  | ok shaped => exact .ok (shaped.parallel texts plain)
  | error echoes => exact .error echoes

end

/-! Lines of two sources -/

def busyNumbers (source : List Char) : List Nat :=
  (busyFrom 1 (Text.lines source)).map Prod.snd

def busyWidths (source : List Char) : List Nat :=
  (busyFrom 1 (Text.lines source)).map fun raw => (raw.1.takeWhile Text.isBlank).length

/-- No line is indented with both tabs and spaces, except for blank lines. -/
def Unmixed (source : List Char) : Prop :=
  ∀ raw ∈ Text.lines source, raw.all Text.isBlank = false → ¬Mixed raw

instance (source : List Char) : Decidable (Unmixed source) :=
  inferInstanceAs (Decidable (∀ raw ∈ _, _))

/-- The lines have the same text, and each is as far down in its source as the other. -/
def Corresponds (source sourceToo : List Char) (line other : Line) : Prop :=
  line.text = other.text ∧
    (line.number, other.number) ∈ (busyNumbers source).zip (busyNumbers sourceToo)

section

variable {source sourceToo : List Char} {f : Nat → Nat}

theorem linesFrom_unmixed (unmixed : Unmixed source) :
    ∃ lines, linesFrom 1 0 (Text.lines source) = .ok lines ∧
      lines.map Line.text = busyLines source ∧ lines.map Line.number = busyNumbers source ∧
      lines.map Line.indent = busyWidths source := by
  obtain ⟨lines, readsLines, alike⟩ :=
    @linesFrom_reads source [] 1 source rfl (fun _ => rfl) unmixed
  refine ⟨lines, readsLines, text_linesFrom readsLines, ?_, ?_⟩
  · rw [busyNumbers, ← List.forall₂_eq_eq_eq, List.forall₂_map_left_iff, List.forall₂_map_right_iff]
    exact alike.imp fun _ _ reads => reads.number
  · rw [busyWidths, ← List.forall₂_eq_eq_eq, List.forall₂_map_left_iff, List.forall₂_map_right_iff]
    exact alike.imp fun _ _ reads => reads.indent

theorem reindented_of_maps {lines linesToo : List Line}
    (texts : lines.map Line.text = linesToo.map Line.text)
    (widths : linesToo.map Line.indent = (lines.map Line.indent).map f)
    (numbers : lines.map Line.number = busyNumbers source)
    (numbersToo : linesToo.map Line.number = busyNumbers sourceToo) :
    List.Forall₂
      (Line.Reindented (Corresponds source sourceToo) f {width | width ∈ lines.map Line.indent})
      lines linesToo := by
  have sameText : List.Forall₂ (fun line other => line.text = other.text) lines linesToo := by
    rw [← List.forall₂_eq_eq_eq, List.forall₂_map_left_iff, List.forall₂_map_right_iff] at texts
    exact texts
  have sameWidth : List.Forall₂ (fun other line => other.indent = f line.indent) linesToo lines := by
    rw [← List.forall₂_eq_eq_eq, List.forall₂_map_left_iff, List.map_map,
      List.forall₂_map_right_iff] at widths
    exact widths
  rw [List.forall₂_iff_zip]
  refine ⟨sameText.length_eq, ?_⟩
  intro line other member
  have places := List.mem_map_of_mem (f := Prod.map Line.number Line.number) member
  rw [← List.zip_map, numbers, numbersToo] at places
  exact ⟨⟨List.forall₂_zip sameText member, places⟩,
    List.mem_map_of_mem (List.of_mem_zip member).1, List.forall₂_zip sameWidth.flip member⟩

theorem ofSource_shaped (unmixed : Unmixed source) (unmixedToo : Unmixed sourceToo)
    (sameLines : busyLines source = busyLines sourceToo)
    (increasing : StrictMonoOn f {width | width ∈ busyWidths source})
    (reindented : busyWidths sourceToo = (busyWidths source).map f) :
    Alongside (Echoes (Corresponds source sourceToo)) (Shaped (Corresponds source sourceToo))
      (LineTree.ofSource source) (LineTree.ofSource sourceToo) := by
  obtain ⟨lines, reads, texts, numbers, widths⟩ := linesFrom_unmixed unmixed
  obtain ⟨linesToo, readsToo, textsToo, numbersToo, widthsToo⟩ := linesFrom_unmixed unmixedToo
  have alike := @reindented_of_maps source sourceToo f lines linesToo
    (by rw [texts, textsToo, sameLines]) (by rw [widths, widthsToo, reindented]) numbers numbersToo
  rw [← widths] at increasing
  unfold LineTree.ofSource
  rw [reads, readsToo]
  exact forest_shaped increasing alike (firstIndent_reindented alike)

end

/-- Two sources with the same lines, indented in the same order, are compiled to the same template,
or both are refused for the same fault in the same line, unless the indentation is part of a text. -/
theorem compiled_by_outline {dialect : Dialect} {compiler : Compiler} {rules : LineRules}
    {source sourceToo : String} {path pathToo : Path} {f : Nat → Nat}
    (registered : Compilers.standard.compiler? dialect = some compiler)
    (ruled : lineRules? dialect = some rules)
    (plain : LineTree.sourceHoldsRaw rules.within source.toList = false)
    (unmixed : Unmixed source.toList) (unmixedToo : Unmixed sourceToo.toList)
    (sameLines : busyLines source.toList = busyLines sourceToo.toList)
    (increasing : StrictMonoOn f {width | width ∈ busyWidths source.toList})
    (reindented : busyWidths sourceToo.toList = (busyWidths source.toList).map f) :
    (∃ output, compiler source path = .ok output ∧ compiler sourceToo pathToo = .ok output) ∨
      ∃ error errorToo, compiler source path = .error error ∧
        compiler sourceToo pathToo = .error errorToo ∧ error.message = errorToo.message ∧
        (error.line, errorToo.line) ∈
          (busyNumbers source.toList).zip (busyNumbers sourceToo.toList) := by
  have shaped := ofSource_shaped unmixed unmixedToo sameLines increasing reindented
  have alongside := @compiled_alongside _ dialect source sourceToo path pathToo compiler rules
    registered ruled (parallel_of_shaped shaped (fun _ _ same => same.1) plain)
  generalize compiler source path = result at alongside
  generalize compiler sourceToo pathToo = resultToo at alongside
  cases alongside with
  | @ok output _ same => exact .inl ⟨output, rfl, congrArg _ same.symm⟩
  | @error error errorToo echo =>
      obtain ⟨line, other, ⟨-, places⟩, named, namedToo⟩ := echo.complaints.lines
      refine .inr ⟨error, errorToo, rfl, rfl, ?_, ?_⟩
      · exact congrArg CompileFault.message echo.complaints.same_fault
      · rw [CompileError.line, CompileError.line, named, namedToo]
        exact places

/-- Four spaces after a blank line and one tab after a carriage return. -/
theorem tabs_compile_as_spaces : ∃ output,
    compileHaml "%ul\n\n    %li a  \n    %li= b\n" (.ofString "a.haml") = .ok output ∧
      compileHaml "%ul\r\n\t%li a\r\n\t%li= b" (.ofString "b.haml") = .ok output := by
  have widths : busyWidths "%ul\n\n    %li a  \n    %li= b\n".toList = [0, 4, 4] := by
    decide +kernel
  have increasing : StrictMonoOn (· / 4)
      {width | width ∈ busyWidths "%ul\n\n    %li a  \n    %li= b\n".toList} := by
    rw [widths]
    intro width first other second less
    simp only [List.mem_cons, Set.mem_ofPred_eq] at first second
    dsimp only
    grind
  have compiles : (compileHaml "%ul\n\n    %li a  \n    %li= b\n" (.ofString "a.haml")).toBool =
      true := by
    decide +kernel
  have compiled := @compiled_by_outline .haml _ _ "%ul\n\n    %li a  \n    %li= b\n"
    "%ul\r\n\t%li a\r\n\t%li= b" (.ofString "a.haml") (.ofString "b.haml") _ rfl rfl
    (by decide +kernel) (by decide +kernel) (by decide +kernel) (by decide +kernel) increasing
    (by decide +kernel)
  rcases compiled with same | ⟨error, -, fails, -⟩
  · exact same
  · change compileHaml _ _ = _ at fails
    rw [fails] at compiles
    cases compiles

end ThemeRender.Markup
