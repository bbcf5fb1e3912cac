import ThemeRender.Proofs.Markup.KeptLines
import ThemeRender.Proofs.Markup.Rests
import ThemeRender.Proofs.Markup.Shapes

namespace ThemeRender.Markup

open Outcome (Alongside except_bind_eq_ok)

variable {At : Line → Line → Prop} {line other : Line} {nested nestedToo : List LineTree}

/-- Trees of the same shape whose lines correspond and have the same texts. What is nested in a line
that takes it as text has to be the same text, and what is nested in a hidden line does not matter. -/
inductive Parallel (within : Line → Context) (At : Line → Line → Prop) :
    List LineTree → List LineTree → Prop
  | nil : Parallel within At [] []
  | hidden {line other : Line} (hides : within line = .hidden) (same : line.text = other.text)
      (nested nestedToo : List LineTree) {rest restToo : List LineTree}
      (after : Parallel within At rest restToo) :
      Parallel within At (.mk line nested :: rest) (.mk other nestedToo :: restToo)
  | cons {line other : Line} (place : At line other) (same : line.text = other.text)
      {nested nestedToo rest restToo : List LineTree}
      (raw : within line = .text ∨ within line = .copied →
        LineTree.rawNested (.mk line nested) = LineTree.rawNested (.mk other nestedToo))
      (inside : Parallel within At nested nestedToo)
      (after : Parallel within At rest restToo) :
      Parallel within At (.mk line nested :: rest) (.mk other nestedToo :: restToo)

abbrev ReadAlike (At : Line → Line → Prop) :
    Except Complaint (List Item) → Except Complaint (List Item) → Prop :=
  Alongside (Echoes At) (Matched At)

namespace ReadAlike

variable {items itemsToo more moreToo : Except Complaint (List Item)}

theorem nest (alike : ReadAlike At items itemsToo) (construct : Construct)
    (place : At line other) :
    ReadAlike At (items >>= fun nested => pure [.ofLine line construct nested])
      (itemsToo >>= fun nested => pure [.ofLine other construct nested]) := by
  apply Alongside.bind alike
  intro nested nestedToo inside
  exact .ok (.single construct place inside)

theorem append (alike : ReadAlike At items itemsToo) (alikeAfter : ReadAlike At more moreToo) :
    ReadAlike At (items >>= fun first => more >>= fun last => pure (first ++ last))
      (itemsToo >>= fun first => moreToo >>= fun last => pure (first ++ last)) := by
  apply Alongside.bind alike
  intro first firstToo matched
  apply Alongside.bind alikeAfter
  intro last lastToo matchedAfter
  exact .ok (matched.append matchedAfter)

theorem emit (alike : ReadAlike At items itemsToo) :
    Echoed At (items >>= Markup.emit) (itemsToo >>= Markup.emit) := by
  apply Alongside.bind alike
  intro items itemsToo matched
  exact matched.emitItems 0 false

end ReadAlike

namespace Haml

theorem readInline_echoed (place : At line other) {rest : List Char} (part : rest <:+ line.text) :
    Echoed At (readInline line rest) (readInline other rest) := by
  unfold readInline
  split
  · dsimp only
    split
    · exact .error (.whole place _)
    · exact .ok rfl
  · split
    · exact .ok rfl
    · split
      · exact (Echoed.check place _).map _
      · exact .error (.ending place part _)

theorem readElement_echoed (place : At line other) (same : line.text = other.text) :
    Echoed At (readElement line) (readElement other) := by
  unfold readElement
  rw [← same]
  have afterTag := rest_readTag line.text
  generalize readTag line.text = tag at afterTag
  dsimp only
  apply (Echoed.check place _).bind
  intro found reads
  have afterShorthands := (rest_readShorthands (of_check reads)).trans afterTag
  apply (Echoed.check place _).bind
  intro attrs readsAttrs
  have afterAttrs := (rest_readAttributes (of_check readsAttrs)).trans afterShorthands
  have inline (rest : List Char) (part : rest <:+ attrs.2) :=
    readInline_echoed place (part.trans afterAttrs)
  split
  · rename_i rest slash
    apply (inline rest (by rw [slash]; exact List.suffix_cons _ _)).bind
    intro inline _
    exact .ok rfl
  · apply (inline attrs.2 List.suffix_rfl).bind
    intro inline _
    exact .ok rfl

theorem readConstruct_echoed (place : At line other) (same : line.text = other.text)
    {raw rawToo : List (List Char)} (sameRaw : isFilter line.text = true → raw = rawToo) :
    Echoed At (readConstruct line raw) (readConstruct other rawToo) := by
  unfold readConstruct
  rw [← same]
  split
  · exact .ok rfl
  · rename_i name text
    rw [sameRaw (by rw [text]; rfl)]
    exact (Echoed.check place _).map _
  · exact (Echoed.check place _).map _
  · exact .ok rfl
  · dsimp only
    split
    · exact .error (.whole place _)
    · exact .ok rfl
  · split
    · exact .error (.whole place _)
    · exact .ok rfl
  · split
    · exact (readElement_echoed place same).map _
    · exact (Echoed.check place _).map _

theorem text_of_hidden (hides : within line = .hidden) :
    ∃ rest, line.text = '-' :: '#' :: rest := by
  unfold within at hides
  split at hides
  · rename_i rest text
    exact ⟨rest, text⟩
  · cases hides
  · cases hides
  · cases hides

theorem readTree_alike (place : At line other) (same : line.text = other.text)
    (raw : within line = .text ∨ within line = .copied →
      LineTree.rawNested (.mk line nested) = LineTree.rawNested (.mk other nestedToo))
    (inside : ReadAlike At (readForest nested) (readForest nestedToo)) :
    ReadAlike At (readTree (.mk line nested)) (readTree (.mk other nestedToo)) := by
  rw [readTree, readTree, ← same]
  split
  · exact .ok .nil
  · apply (readConstruct_echoed place same
      fun filter => raw (.inr (within_of_isFilter filter))).bind
    intro construct _
    split
    · exact .ok (.single construct place .nil)
    · exact inside.nest construct place

theorem readForest_alike {trees treesToo : List LineTree}
    (parallel : Parallel within At trees treesToo) :
    ReadAlike At (readForest trees) (readForest treesToo) := by
  induction parallel with
  | nil => exact .ok .nil
  | hidden hides same nested nestedToo _ readsAfter =>
      obtain ⟨rest, text⟩ := text_of_hidden hides
      rw [readForest, readForest, readTree_silent text, readTree_silent (same.symm.trans text)]
      exact ReadAlike.append (.ok .nil) readsAfter
  | cons place same raw _ _ readsInside readsAfter =>
      rw [readForest, readForest]
      exact (readTree_alike place same raw readsInside).append readsAfter

end Haml

namespace Jade

theorem readCodeAfter_echoed (place : At line other) (text : List Char) :
    Echoed At (readCodeAfter line text) (readCodeAfter other text) := by
  unfold readCodeAfter
  dsimp only
  split
  · exact .error (.whole place _)
  · exact .ok rfl

theorem readKeyword_echoed (place : At line other) (same : line.text = other.text) :
    Echoed At (readKeyword line) (readKeyword other) := by
  unfold readKeyword
  rw [← same]
  dsimp only
  split
  · exact .ok rfl
  · split
    · exact .ok rfl
    · split
      · split
        · exact .error (.whole place _)
        · exact .ok rfl
      · exact .ok rfl

theorem readSimple_echoed (place : At line other) (same : line.text = other.text) :
    Echoed At (readSimple line) (readSimple other) := by
  unfold readSimple
  rw [← same]
  split
  · exact (Echoed.check place _).map _
  · exact (Echoed.check place _).map _
  · exact (Echoed.check place _).map _
  · exact (readCodeAfter_echoed place _).map _
  · split
    · exact .error (.whole place _)
    · exact .ok rfl
  · exact readKeyword_echoed place same

theorem rest_readHead {head : Head} (reads : readHead line = .ok head) :
    head.rest <:+ line.text := by
  obtain ⟨found, readsShorthands, reads⟩ := except_bind_eq_ok.mp reads
  have afterShorthands := (rest_readShorthands (of_check readsShorthands)).trans
    (List.dropWhile_suffix _)
  dsimp only at reads
  split at reads
  · rename_i rest text
    obtain ⟨attrs, readsAttrs, built⟩ := except_bind_eq_ok.mp reads
    cases built
    rw [text] at afterShorthands
    exact ((rest_readList (of_check readsAttrs)).trans (List.suffix_cons _ _)).trans afterShorthands
  · cases reads
    exact afterShorthands

theorem readHead_echoed (place : At line other) (same : line.text = other.text) :
    Echoed At (readHead line) (readHead other) := by
  unfold readHead
  rw [← same]
  apply (Echoed.check place _).bind
  intro found _
  dsimp only
  split
  · apply (Echoed.check place _).bind
    intro attrs _
    exact .ok rfl
  · exact .ok rfl

theorem readInline_echoed (place : At line other) {rest : List Char} (part : rest <:+ line.text)
    (tag : List Char) : Echoed At (readInline line tag rest) (readInline other tag rest) := by
  unfold readInline
  split
  · exact .ok rfl
  · exact (readCodeAfter_echoed place _).map _
  · exact (Echoed.check place _).map _
  · exact .error (.ending place part _)
  · exact .error (.ending place part _)

theorem readElement_echoed (place : At line other) {head : Head} (part : head.rest <:+ line.text) :
    Echoed At (readElement line head) (readElement other head) := by
  unfold readElement
  dsimp only
  split
  · rename_i rest slash
    rw [slash] at part
    apply (readInline_echoed place ((List.suffix_cons _ _).trans part) head.tag).bind
    intro inline _
    exact .ok rfl
  · apply (readInline_echoed place part head.tag).bind
    intro inline _
    exact .ok rfl

theorem readTextBlock_alike (place : At line other) (tag : List Char) (body : List (List Char)) :
    ReadAlike At (readTextBlock line tag body) (readTextBlock other tag body) := by
  unfold readTextBlock
  split
  · exact .ok (.single _ place .nil)
  · induction body with
    | nil => exact .ok .nil
    | cons text rest ih =>
        rw [List.mapM_cons, List.mapM_cons]
        have first : Alongside (Echoes At) (fun item itemToo => Matched At [item] [itemToo])
            ((line.check (interpolate text)).map fun pieces => .ofLine line (.text pieces) [])
            ((other.check (interpolate text)).map fun pieces => .ofLine other (.text pieces) []) := by
          apply Alongside.map (Echoed.check place _)
          intro pieces _ same
          rw [← same]
          exact .single _ place .nil
        apply first.bind
        intro item itemToo matched
        apply ih.bind
        intro items itemsToo matchedAfter
        exact .ok (matched.append matchedAfter)

theorem readComment_matched (place : At line other) (text : List Char) (body : List (List Char)) :
    Matched At [readComment line text body] [readComment other text body] := by
  unfold readComment
  split
  · exact .single _ place .nil
  · exact .single _ place (.single _ place .nil)

theorem text_of_hidden (hides : within line = .hidden) :
    ∃ rest, line.text = '/' :: '/' :: '-' :: rest := by
  unfold within at hides
  split at hides
  · rename_i rest text
    exact ⟨rest, text⟩
  · cases hides
  · unfold withinShown at hides
    split at hides
    · cases hides
    · unfold Head.within at hides
      split at hides
      · split at hides
        · cases hides
        · cases hides
      · cases hides
    · cases hides

theorem readTree_alike (place : At line other) (same : line.text = other.text)
    (raw : within line = .text ∨ within line = .copied →
      LineTree.rawNested (.mk line nested) = LineTree.rawNested (.mk other nestedToo))
    (inside : ReadAlike At (readForest nested) (readForest nestedToo)) :
    ReadAlike At (readTree (.mk line nested)) (readTree (.mk other nestedToo)) := by
  rw [readTree.eq_def, readTree.eq_def]
  dsimp only
  rw [← same]
  split
  · exact .ok .nil
  · rename_i rest shown text
    have copied : within line = .copied := within_of_comment shown text
    rw [raw (.inr copied)]
    exact .ok (readComment_matched place _ _)
  · rename_i noComment
    apply (readSimple_echoed place same).bind
    intro construct? simple
    cases construct? with
    | some construct => exact inside.nest construct place
    | none =>
        dsimp only
        split
        · apply (readHead_echoed place same).bind
          intro head readsHead
          split
          · rename_i dot
            have taken : within line = .text ∨ within line = .copied := by
              rw [within_of_head noComment simple readsHead]
              exact Head.taken_of_dot dot
            rw [raw taken]
            apply (readTextBlock_alike place head.tag _).bind
            intro body bodyToo matched
            exact .ok (.single _ place matched)
          · apply (readElement_echoed place (rest_readHead readsHead)).bind
            intro element _
            exact inside.nest _ place
        · exact .error (.whole place _)

theorem readForest_alike {trees treesToo : List LineTree}
    (parallel : Parallel within At trees treesToo) :
    ReadAlike At (readForest trees) (readForest treesToo) := by
  induction parallel with
  | nil => exact .ok .nil
  | hidden hides same nested nestedToo _ readsAfter =>
      obtain ⟨rest, text⟩ := text_of_hidden hides
      rw [readForest, readForest, readTree_silent text, readTree_silent (same.symm.trans text)]
      exact ReadAlike.append (.ok .nil) readsAfter
  | cons place same raw _ _ readsInside readsAfter =>
      rw [readForest, readForest]
      exact (readTree_alike place same raw readsInside).append readsAfter

end Jade

/-! Whole sources -/

section

variable {dialect : Dialect} {source sourceToo : String} {path pathToo : Path}

/-- The errors are about the same fault, in lines that correspond. -/
structure CompileErrorsEcho (At : Line → Line → Prop) (dialect : Dialect) (path : Path)
    (error errorToo : CompileError) : Prop where
  dialect : error.dialect = dialect
  path : error.path = path
  complaints : Echoes At error.complaint errorToo.complaint

theorem compileWith_alongside {read : List LineTree → Except Complaint (List Item)}
    (echoed : Echoed At (LineTree.ofSource source.toList >>= fun trees => read trees >>= emit)
      (LineTree.ofSource sourceToo.toList >>= fun trees => read trees >>= emit)) :
    Alongside (CompileErrorsEcho At dialect path) (· = ·) (compileWith dialect read source path)
      (compileWith dialect read sourceToo pathToo) := by
  cases compiled : compileWith dialect read source path with
  | ok output =>
      rw [compileWith_eq_ok.mp compiled] at echoed
      generalize whole : (LineTree.ofSource sourceToo.toList >>= _) = result at echoed
      cases echoed with
      | ok same =>
          rw [compileWith_eq_ok.mpr (whole.trans (congrArg Except.ok same.symm))]
          exact .ok rfl
  | error error =>
      obtain ⟨ofDialect, ofPath, complains⟩ := compileWith_eq_error.mp compiled
      rw [complains] at echoed
      generalize whole : (LineTree.ofSource sourceToo.toList >>= _) = result at echoed
      cases echoed with
      | @error _ complaintToo echoes =>
          have fails : compileWith dialect read sourceToo pathToo =
              .error ⟨dialect, pathToo, complaintToo⟩ :=
            compileWith_eq_error.mpr ⟨rfl, rfl, whole⟩
          rw [fails]
          exact .error ⟨ofDialect, ofPath, echoes⟩

/-- Sources that are nested alike are compiled to the same template, or refused for the same fault. -/
theorem compiled_alongside {compiler : Compiler} {rules : LineRules}
    (registered : Compilers.standard.compiler? dialect = some compiler)
    (ruled : lineRules? dialect = some rules)
    (built : Alongside (Echoes At) (Parallel rules.within At) (LineTree.ofSource source.toList)
      (LineTree.ofSource sourceToo.toList)) :
    Alongside (CompileErrorsEcho At dialect path) (· = ·) (compiler source path)
      (compiler sourceToo pathToo) := by
  cases dialect with
  | haml =>
      cases registered
      cases ruled
      apply compileWith_alongside
      apply built.bind
      intro trees treesToo parallel
      exact (Haml.readForest_alike parallel).emit
  | jade =>
      cases registered
      cases ruled
      apply compileWith_alongside
      apply built.bind
      intro trees treesToo parallel
      exact (Jade.readForest_alike parallel).emit
  | native => cases ruled

end

end ThemeRender.Markup
