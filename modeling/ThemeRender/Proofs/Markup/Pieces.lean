import ThemeRender.Proofs.Markup.Rendered

namespace ThemeRender.Markup

open Template

/-- The text of a piece, with a blank in place of an expression. -/
def Piece.outline : Piece → List Char
  | .text contents => contents
  | .expr _ => [' ']

def outlineOf (pieces : List Piece) : List Char :=
  pieces.flatMap Piece.outline

def Piece.Fits : Piece → Prop
  | .text contents => Text.Flat contents
  | .expr code => Embeds readOutput code

@[simp] theorem outlineOf_nil : outlineOf [] = [] := rfl

@[simp] theorem outlineOf_cons (piece : Piece) (rest : List Piece) :
    outlineOf (piece :: rest) = piece.outline ++ outlineOf rest := rfl

@[simp] theorem outlineOf_append (first second : List Piece) :
    outlineOf (first ++ second) = outlineOf first ++ outlineOf second :=
  List.flatMap_append

@[simp] theorem templateOfPieces_nil : templateOfPieces [] = [] := rfl

@[simp] theorem templateOfPieces_cons (piece : Piece) (rest : List Piece) :
    templateOfPieces (piece :: rest) = piece.template ++ templateOfPieces rest := rfl

@[simp] theorem templateOfPieces_append (first second : List Piece) :
    templateOfPieces (first ++ second) = templateOfPieces first ++ templateOfPieces second :=
  List.flatMap_append

theorem runPieces_append {σ : Type} (host : Host σ) (scope : Scope) (line : Nat)
    (first second : List Piece) :
    runPieces host scope line (first ++ second) =
      (do runPieces host scope line first; runPieces host scope line second) := by
  induction first with
  | nil => rw [List.nil_append, runPieces, pure_bind]
  | cons piece rest ih => rw [List.cons_append, runPieces, runPieces, ih, bind_assoc]

theorem Embeds.flat_outputTag {code : List Char} (embeds : Embeds readOutput code) :
    Text.Flat (outputTag code) :=
  (Text.Flat.append (by decide) embeds.flat).append (by decide)

theorem flat_templateOfPieces {pieces : List Piece} (fit : ∀ piece ∈ pieces, piece.Fits) :
    Text.Flat (templateOfPieces pieces) := by
  induction pieces with
  | nil => exact Text.Flat.nil
  | cons piece rest ih =>
      rw [templateOfPieces_cons]
      apply Text.Flat.append
      · have fits := fit piece List.mem_cons_self
        cases piece with
        | text contents => exact fits
        | expr code => exact Embeds.flat_outputTag fits
      · exact ih fun piece member => fit piece (List.mem_cons_of_mem _ member)

theorem Scan.eval_output {σ : Type} {code : List Char} {value : Spanned Expr}
    (flat : Text.Flat code) (reads : readCode readOutput code = .ok value) (scan : Scan)
    (host : Host σ) (scope : Scope) (rest : List Char) :
    evalSpanned host (scope.over (scan.text ++ outputTag code ++ rest)) (scan.outputValue value) =
      runCode host scope scan.line code := by
  rw [runCode_of_reads reads, ← Scan.lineOf_output scan flat reads scope rest,
    ← Expr.eval_over scope]
  rfl

theorem Scan.reaches_pieces {pieces : List Piece} (fit : ∀ piece ∈ pieces, piece.Fits)
    {scan : Scan} (clean : Text.Lacks tagOpen (scan.lead ++ outlineOf pieces)) :
    ∃ next added, scan.Reaches (templateOfPieces pieces) next ∧ Text.Lacks tagOpen next.lead ∧
      next.blocks = scan.blocks ∧ next.nodes = scan.nodes ++ added ∧
      ∀ (σ : Type) (host : Host σ) (scope : Scope) (rest : List Char),
        (do
          Node.runAll host (scope.over (scan.text ++ templateOfPieces pieces ++ rest)) added
          Staged.write (String.ofList next.lead)) =
        (do
          Staged.write (String.ofList scan.lead)
          runPieces host scope scan.line pieces) := by
  induction pieces generalizing scan with
  | nil =>
      refine ⟨scan, [], ⟨(List.append_nil _).symm, fun _ => rfl⟩, ?_, rfl,
        (List.append_nil _).symm, ?_⟩
      · simpa using clean
      · intro σ host scope rest
        rw [Node.runAll, pure_bind, runPieces, bind_pure_unit]
  | cons piece rest ih =>
      have fits := fit piece List.mem_cons_self
      have fitRest := fun piece member => fit piece (List.mem_cons_of_mem _ member)
      -- a text waits with the lead for the next tag, an expression makes nodes of both
      cases piece with
      | text contents =>
          have first := scan.reaches_text contents
          have flat : Text.Flat contents := fits
          obtain ⟨next, added, reaches, cleanNext, blocks, nodes, runs⟩ :=
            @ih fitRest { scan with lead := scan.lead ++ contents }
              (by rw [List.append_assoc]; exact clean)
          refine ⟨next, added, first.trans reaches, cleanNext, blocks, nodes, ?_⟩
          intro σ host scope after
          have whole := runs σ host scope after
          rw [first.grows, first.line, flat.count, Nat.add_zero] at whole
          rw [templateOfPieces_cons, ← List.append_assoc scan.text]
          rw [runPieces, Piece.run]
          simp only [Piece.template]
          rw [whole, String.ofList_append, write_append, bind_assoc]
      | expr code =>
          have embeds : Embeds readOutput code := fits
          obtain ⟨value, reads⟩ := embeds.reads
          have cleanLead := clean.of_append_left
          have cleanRest : Text.Lacks tagOpen ([] ++ outlineOf rest) :=
            clean.of_append_right.of_append_right
          have first := Scan.reaches_output cleanLead embeds.closed reads
          obtain ⟨next, added, reaches, cleanNext, blocks, nodes, runs⟩ :=
            @ih fitRest ⟨scan.text ++ outputTag code, [], false, scan.blocks,
              scan.nodes ++ (textNodes scan.lead ++ [.output (scan.outputValue value)])⟩ cleanRest
          refine ⟨next, textNodes scan.lead ++ [.output (scan.outputValue value)] ++ added,
            first.trans reaches, cleanNext, blocks, ?_, ?_⟩
          · rw [nodes, List.append_assoc]
          · intro σ host scope after
            have whole := runs σ host scope after
            rw [first.grows, first.line, embeds.flat_outputTag.count, Nat.add_zero] at whole
            have waits : (Staged.write (String.ofList []) : Render σ Unit) = pure () := write_empty
            simp only [waits, pure_bind] at whole
            have output := @Scan.eval_output σ code value embeds.flat reads scan host scope
              (templateOfPieces rest ++ after)
            rw [← List.append_assoc (scan.text ++ outputTag code)] at output
            rw [templateOfPieces_cons, ← List.append_assoc scan.text, runAll_append, runAll_append,
              runAll_textNodes, runPieces, Piece.run]
            simp only [Piece.template, Node.runAll, Node.run, output, bind_assoc, pure_bind, whole]

theorem Renders.line {pieces : List Piece} (fit : ∀ piece ∈ pieces, piece.Fits)
    (clean : Text.Lacks tagOpen (outlineOf pieces)) (depth : Nat) :
    Renders (lineAt depth (templateOfPieces pieces))
      (fun _ host scope line => runLine host scope depth line pieces) := by
  intro scan ready
  have fitPadded : ∀ piece ∈ .text (List.replicate (2 * depth) ' ') :: pieces, piece.Fits := by
    intro piece member
    rcases List.mem_cons.mp member with rfl | member
    · exact Text.flat_blanks _
    · exact fit piece member
  have cleanPadded : Text.Lacks tagOpen
      (scan.lead ++ outlineOf (.text (List.replicate (2 * depth) ' ') :: pieces)) := by
    apply ready.clean.append
    · apply Text.Lacks.append _ clean
      · left
        intro last
        exact Text.not_mem_blanks (by decide) _ (List.mem_of_getLast? last)
      · exact Text.lacks_of_not_mem (Text.not_mem_blanks (by decide) _)
    · left
      rcases ready.ends with ⟨empty, _⟩ | last
      · rw [empty]
        decide
      · rw [last]
        decide
  obtain ⟨next, added, reaches, cleanNext, blocks, nodes, runs⟩ :=
    Scan.reaches_pieces fitPadded cleanPadded
  -- the line break waits too, and then nothing but whole lines waits
  have breaks := next.reaches_text ['\n']
  refine ⟨_, added, reaches.trans breaks, ⟨?_, ?_⟩, blocks, nodes, ?_⟩
  · exact cleanNext.append (by decide) (.inr (by decide))
  · exact .inr (by simp)
  · intro σ host scope rest
    have whole := runs σ host scope ('\n' :: rest)
    have source : scan.text ++
        templateOfPieces (.text (List.replicate (2 * depth) ' ') :: pieces) ++ '\n' :: rest =
          scan.text ++ lineAt depth (templateOfPieces pieces) ++ rest := by
      simp [lineAt, Piece.template]
    rw [source] at whole
    rw [String.ofList_append, write_append, ← bind_assoc, whole, bind_assoc]
    unfold runLine
    simp only [runPieces_append, runPieces, Piece.run, bind_pure_unit]

theorem Renders.lines {lines : List (List Char)} (flat : ∀ text ∈ lines, Text.Flat text)
    (clean : ∀ text ∈ lines, Text.Lacks tagOpen text) (depth : Nat) :
    Renders (lines.flatMap (lineAt depth))
      (fun _ host scope line => lines.forM fun text =>
        runLine host scope depth line [.text text]) := by
  induction lines with
  | nil => exact Renders.nil
  | cons text rest ih =>
      have fit : ∀ piece ∈ [Piece.text text], piece.Fits := by
        intro piece member
        rw [List.mem_singleton.mp member]
        exact flat text List.mem_cons_self
      have first := @Renders.line [.text text] fit
        (by simpa [Piece.outline] using clean text List.mem_cons_self) depth
      have others := ih (fun text member => flat text (List.mem_cons_of_mem _ member))
        (fun text member => clean text (List.mem_cons_of_mem _ member))
      have template : templateOfPieces [.text text] = text := List.append_nil _
      rw [template] at first
      apply (first.append others).congr
      intro σ host scope line
      rfl

end ThemeRender.Markup
