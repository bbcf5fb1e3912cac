import ThemeRender.Proofs.Markup.Complaints
import ThemeRender.Proofs.Markup.OneLine
import ThemeRender.Proofs.Markup.TextLines

namespace ThemeRender.Markup

open Outcome (except_bind_eq_ok)

variable {line : Line} {before after : List Char}

/-! ## Lines that are refused -/

theorem interpolate_indented_fails (passed : Passed before)
    (unescaped : before.getLast? ≠ some '\\') (unfinished : Unfinished after) (width : Nat) :
    ∃ fault,
      interpolate (List.replicate width ' ' ++ (before ++ exprOpen ++ after)) = .error fault := by
  rw [← List.append_assoc, ← List.append_assoc]
  refine interpolate_of_opens (passed.indented width) (unescaping_append ?_ unescaped) unfinished
  intro escape
  exact absurd (List.eq_of_mem_replicate (List.mem_of_getLast? escape)) (by decide)

theorem readLines_fails {text : List Char} {body : List (List Char)} {fault : CompileFault}
    (member : text ∈ body) (fails : interpolate text = .error fault) :
    ∃ fault, readLines line body = .error (line.complain fault) := by
  induction body with
  | nil => cases member
  | cons first rest ih =>
      rw [readLines, List.mapM_cons]
      cases reads : interpolate first with
      | error fault => exact ⟨fault, rfl⟩
      | ok pieces =>
          rcases List.mem_cons.mp member with rfl | later
          · rw [reads] at fails
            cases fails
          · obtain ⟨fault, refused⟩ := ih later
            refine ⟨fault, ?_⟩
            change (readLines line rest >>= _) = _
            rw [refused]
            rfl

variable {rules : LineRules} {text? : Line → Option (List Char)}
  {alone : Line → Except Complaint Construct} {read : LineTree → Except Complaint (List Item)}
  {readAll : List LineTree → Except Complaint (List Item)}

theorem ReadsText.fails {words : List Char} {fault : CompileFault}
    (reader : LineReader rules.within alone read readAll) (markup : rules.within line = .markup)
    (readsText : ReadsText alone line words) (fails : interpolate words = .error fault)
    (nested : List LineTree) : read (.mk line nested) = .error (line.complain fault) := by
  obtain ⟨shape, -, reads⟩ := readsText
  rw [reader.nests (.inl markup), reads, fails]
  rfl

theorem TakesText.fails {nested : List LineTree} {text : List Char} {fault : CompileFault}
    (takes : TakesText read line) (member : text ∈ LineTree.rawNested (.mk line nested))
    (fails : interpolate text = .error fault) :
    ∃ fault, read (.mk line nested) = .error (line.complain fault) := by
  rcases takes with ⟨construct, -, reads⟩ | ⟨refused, reads⟩
  · obtain ⟨fault, refused⟩ := @readLines_fails line _ _ _ member fails
    refine ⟨fault, ?_⟩
    rw [reads, refused]
    rfl
  · exact ⟨refused, reads nested⟩

theorem TextPlace.fails {source : List Char} {blamed : Line}
    (reader : LineReader rules.within alone read readAll)
    (texts : TextReader rules.within text? alone read) (passed : Passed before)
    (unescaped : before.getLast? ≠ some '\\') (unfinished : Unfinished after)
    (place : TextPlace rules.reading text? source line blamed (before ++ exprOpen ++ after)) :
    ∃ nested fault, ⟨.markup, .mk blamed nested⟩ ∈ LineTree.sourcePlaces rules.reading source ∧
      line.number ∈ LineTree.numbers [.mk blamed nested] ∧
      read (.mk blamed nested) = .error (blamed.complain fault) := by
  generalize whole : before ++ exprOpen ++ after = words at place
  cases place with
  | @own _ nested _ placed text =>
      obtain ⟨markup, readsText⟩ := texts.own text
      obtain ⟨fault, fails⟩ := interpolate_of_opens passed unescaped unfinished
      rw [whole] at fails
      refine ⟨nested, fault, placed, ?_, readsText.fails reader markup fails nested⟩
      rw [LineTree.numbers_cons]
      exact List.mem_cons_self
  | @block _ nested _ placedHead taken inner =>
      obtain ⟨width, member⟩ := LineTree.raw_of_nested blamed inner
      obtain ⟨fault, fails⟩ := interpolate_indented_fails passed unescaped unfinished width
      rw [whole] at fails
      obtain ⟨fault, refused⟩ := (texts.block (LineRules.text_of_reading taken)).fails member fails
      refine ⟨nested, fault, placedHead, ?_, refused⟩
      rw [LineTree.numbers_cons]
      exact List.mem_cons_of_mem _ (List.mem_append_left _ (LineTree.mem_numbers inner))

theorem TextPlace.above {source : List Char} {blamed : Line} {words : List Char}
    (place : TextPlace rules text? source line blamed words) :
    blamed = line ∨ blamed.number < line.number := by
  cases place with
  | own placed text => exact .inl rfl
  | @block _ nested inner placedHead taken member =>
      rw [LineTree.sourcePlaces] at placedHead
      split at placedHead
      · rename_i trees built
        obtain ⟨lines, readsLines, built⟩ := except_bind_eq_ok.mp built
        obtain ⟨front, rest, split, flattened⟩ := LineTree.nested_eq_takeWhile built placedHead
        have sorted := sorted_linesFrom readsLines
        rw [split, List.pairwise_append, List.pairwise_cons] at sorted
        change (LineTree.forestPlaces rules (rules.within blamed) nested).map _ = _ at flattened
        rw [taken] at flattened
        have among := List.mem_map_of_mem (f := (·.tree.line)) member
        rw [flattened] at among
        exact .inr (sorted.2.1.1 _ ((List.takeWhile_sublist _).subset among))
      · cases placedHead

/-! ## Whole sources -/

variable {dialect : Dialect} {source sourceToo : String} {path pathToo : Path} {output : String}
  {above below : List (List Char)} {raw rawToo : List Char} {blamed : Line}

theorem compileWith_refuses (reader : LineReader rules.within alone read readAll)
    (texts : TextReader rules.within text? alone read)
    (apart : OneLineApart source.toList sourceToo.toList above raw rawToo below)
    (compiled : compileWith dialect readAll sourceToo pathToo = .ok output)
    (place : TextPlace rules.reading text? source.toList line blamed (before ++ exprOpen ++ after))
    (number : line.number = above.length + 1) (passed : Passed before)
    (unescaped : before.getLast? ≠ some '\\') (unfinished : Unfinished after) :
    ∃ fault, compileWith dialect readAll source path =
      .error ⟨dialect, path, blamed.complain fault⟩ := by
  obtain ⟨nested, fault, placed, holds, fails⟩ :=
    place.fails reader texts passed unescaped unfinished
  rw [number] at holds
  exact ⟨fault, apart.refused reader compiled placed holds fails⟩

/-- If a source is compiled once an expression without an end, or with nothing in it, is replaced in
the text of a line, then it is refused before that, for the whole line that the text is read for.
That is the line of the text, or one above it that takes it as text. -/
theorem malformed_text_refused {compiler : Compiler}
    (registered : Compilers.standard.compiler? dialect = some compiler)
    (ruled : lineRules? dialect = some rules) (textual : textRule? dialect = some text?)
    (apart : OneLineApart source.toList sourceToo.toList above raw rawToo below)
    (compiled : compiler sourceToo pathToo = .ok output)
    (place : TextPlace rules.reading text? source.toList line blamed (before ++ exprOpen ++ after))
    (number : line.number = above.length + 1) (passed : Passed before)
    (unescaped : before.getLast? ≠ some '\\') (unfinished : Unfinished after) :
    ∃ error, compiler source path = .error error ∧ error.line = blamed.number ∧
      error.span = blamed.span ∧ error.span.InLine source.toList error.line ∧
      (blamed = line ∨ error.line < above.length + 1) := by
  obtain ⟨fault, refused⟩ : ∃ fault, compiler source path =
      .error ⟨dialect, path, blamed.complain fault⟩ := by
    cases dialect with
    | haml =>
        cases registered
        cases ruled
        cases textual
        exact compileWith_refuses Haml.lineReader Haml.textReader apart compiled place number passed
          unescaped unfinished
    | jade =>
        cases registered
        cases ruled
        cases textual
        exact compileWith_refuses Jade.lineReader Jade.textReader apart compiled place number passed
          unescaped unfinished
    | native => cases ruled
  refine ⟨_, refused, rfl, rfl, (compile_error_inLine registered refused).2.2, ?_⟩
  rw [← number]
  exact place.above

/-- An expression without an end after the head of an element, under another one. -/
theorem unfinished_inline_text_refused : ∃ error,
    compileHaml "%div\n  %p to #\x7bname\n  end" (.ofString "views/a.haml") = .error error ∧
      error.line = 2 ∧ error.span.InLine "%div\n  %p to #\x7bname\n  end".toList 2 := by
  let source := "%div\n  %p to #\x7bname\n  end"
  let above := ["%div\n".toList]
  let below := ["  end".toList]
  have apart : OneLineApart source.toList "%div\n  %p to me\n  end".toList above
      "  %p to #\x7bname\n".toList "  %p to me\n".toList below :=
    ⟨by decide +kernel, by decide +kernel, by decide +kernel, by decide +kernel, by decide +kernel⟩
  have placed : ((LineTree.sourcePlaces Haml.lineRules.reading source.toList).any
      fun placed => placed.context == .markup && (placed.tree.line.number == 2 &&
        Haml.text? placed.tree.line == some "to #\x7bname".toList)) = true := by
    decide +kernel
  have compiles : (compileHaml "%div\n  %p to me\n  end" (.ofString "views/a.haml")).toBool =
      true := by
    decide +kernel
  obtain ⟨⟨context, line, nested⟩, member, is⟩ := List.any_eq_true.mp placed
  obtain ⟨markup, is⟩ := Bool.and_eq_true_iff.mp is
  obtain ⟨second, text⟩ := Bool.and_eq_true_iff.mp is
  cases beq_iff_eq.mp markup
  have number : line.number = 2 := beq_iff_eq.mp second
  obtain ⟨output, compiled⟩ := Outcome.of_toBool compiles
  have place : TextPlace Haml.lineRules.reading Haml.text? source.toList line line
      ("to ".toList ++ exprOpen ++ "name".toList) := .own member (beq_iff_eq.mp text)
  obtain ⟨error, refused, ofLine, -, inLine, -⟩ := @malformed_text_refused line _ _
    Haml.lineRules Haml.text? .haml source _ (.ofString "views/a.haml") _ _ above below _ _ line _
    rfl rfl rfl apart compiled place number (passed_of_lacks (by decide)) (by decide)
    (.inl (by decide))
  rw [ofLine, number] at inLine
  exact ⟨error, refused, ofLine.trans number, inLine⟩

/-- A line of a text block is not the one that is complained of. -/
theorem text_block_blamed_on_head :
    (∃ output, compileJade "p.\n  one two" (.ofString "views/a.jade") = .ok output) ∧
      ∃ error, compileJade "p.\n  one #\x7b" (.ofString "views/a.jade") = .error error ∧
        error.line = 1 ∧ error.span = ⟨0, 2⟩ := by
  have compiles : (compileJade "p.\n  one two" (.ofString "views/a.jade")).toBool = true := by
    decide +kernel
  have place : (compileJade "p.\n  one #\x7b" (.ofString "views/a.jade")).mapError
      (fun error => (error.line, error.span)) = .error (1, ⟨0, 2⟩) := by
    decide +kernel
  obtain ⟨error, fails, same⟩ := Outcome.of_mapError place
  obtain ⟨line, span⟩ := Prod.mk.inj same
  exact ⟨Outcome.of_toBool compiles, error, fails, line, span⟩

end ThemeRender.Markup
