import ThemeRender.Proofs.Template.CodeErrors
import ThemeRender.Proofs.Template.Nesting

namespace ThemeRender.Template

open Text (StandsAt byteLength)

variable {s text before opened inner code after : List Char} {kind : TagKind} {offset : Nat}
  {found : List Segment} {error : SyntaxError}

/-! Where tags are -/

def Segment.Placed (source : List Char) : Segment → Prop
  | .text _ => True
  | .tag _ code offset span => StandsAt source code offset ∧ ∃ piece, span.Covers source piece

theorem placed_textSegment (source contents : List Char) :
    ∀ segment ∈ textSegment contents, segment.Placed source := by
  unfold textSegment
  split
  · simp
  · simp [Segment.Placed]

theorem placed_tag (opens : Text.cut? tagOpen s = some (before, opened))
    (same : TagKind.ofText opened = (kind, inner))
    (closes : Text.cut? tagClose inner = some (code, after)) (stands : StandsAt text s offset) :
    (Segment.tag kind code (offset + byteLength s - byteLength inner)
        ⟨offset + byteLength before, offset + byteLength s - byteLength after⟩).Placed text ∧
      after <:+ s := by
  have sign := sign_of_ofText same
  have closed : inner = code ++ (tagClose ++ after) := by
    rw [Text.cut?_eq_some closes, List.append_assoc]
  have openedEnds : s = (before ++ (tagOpen ++ kind.sign)) ++ inner := by
    rw [Text.cut?_eq_some opens, sign]
    simp
  have whole : s = before ++ ((tagOpen ++ kind.sign ++ code ++ tagClose) ++ after) := by
    rw [openedEnds, closed]
    simp
  have inside := stands.ending ⟨_, openedEnds.symm⟩
  have tag := stands
  rw [whole] at tag
  refine ⟨⟨?_, _, tag.right.left, ?_⟩, ?_⟩
  · rw [closed] at inside ⊢
    exact inside.left
  · rw [whole]
    simp only [Text.byteLength_append]
    omega
  · rw [whole, ← List.append_assoc]
    exact List.suffix_append _ _

theorem suffix_of_afterLineBreak? {next : List Char} (breaks : afterLineBreak? after = some next) :
    next <:+ after := by
  unfold afterLineBreak? at breaks
  split at breaks
  · cases breaks
    exact List.suffix_refl _
  · cases breaks
    exact List.suffix_cons _ _
  · cases breaks
    exact (List.suffix_cons _ _).trans (List.suffix_cons _ _)
  · cases breaks

theorem placed_of_segmentsFrom {atLineStart : Bool}
    (read : segmentsFrom offset atLineStart s = .ok found) (stands : StandsAt text s offset) :
    ∀ segment ∈ found, segment.Placed text := by
  fun_induction segmentsFrom offset atLineStart s generalizing found with
  | case1 offset atLineStart s none =>
      cases read
      exact placed_textSegment text s
  | case2 => cases read
  | case3 offset atLineStart s before opened opens _ _ inner _ code after closes _ _ _ next line =>
      rename_i ih
      obtain ⟨more, readMore, rfl⟩ := Outcome.of_map_ok read
      obtain ⟨placed, ends⟩ := placed_tag opens rfl closes stands
      have nextEnds := suffix_of_afterLineBreak? (breaks_of_wholeLine? line)
      have morePlaced := ih readMore (stands.ending (nextEnds.trans ends))
      exact List.forall_mem_append.mpr
        ⟨placed_textSegment text _, List.forall_mem_cons.mpr ⟨placed, morePlaced⟩⟩
  | case4 offset atLineStart s before opened opens _ _ inner _ code after closes =>
      rename_i ih
      obtain ⟨more, readMore, rfl⟩ := Outcome.of_map_ok read
      obtain ⟨placed, ends⟩ := placed_tag opens rfl closes stands
      have morePlaced := ih readMore (stands.ending ends)
      exact List.forall_mem_append.mpr
        ⟨placed_textSegment text _, List.forall_mem_cons.mpr ⟨placed, morePlaced⟩⟩

theorem error_of_segmentsFrom {atLineStart : Bool}
    (fails : segmentsFrom offset atLineStart s = .error error) (stands : StandsAt text s offset) :
    error.fault = .unterminatedTag ∧ ∃ piece, error.span.Covers text piece := by
  fun_induction segmentsFrom offset atLineStart s with
  | case1 => cases fails
  | case2 offset atLineStart s before opened opens =>
      cases fails
      have whole : s = before ++ (tagOpen ++ opened) := by
        rw [Text.cut?_eq_some opens, List.append_assoc]
      rw [whole] at stands ⊢
      refine ⟨rfl, _, stands.right, ?_⟩
      rw [Text.byteLength_append, Nat.add_assoc]
  | case3 offset atLineStart s before opened opens _ _ inner _ code after closes _ _ _ next line =>
      rename_i ih
      obtain ⟨-, ends⟩ := placed_tag opens rfl closes stands
      have nextEnds := suffix_of_afterLineBreak? (breaks_of_wholeLine? line)
      exact ih (Outcome.of_map_error fails) (stands.ending (nextEnds.trans ends))
  | case4 offset atLineStart s before opened opens _ _ inner _ code after closes =>
      rename_i ih
      obtain ⟨-, ends⟩ := placed_tag opens rfl closes stands
      exact ih (Outcome.of_map_error fails) (stands.ending ends)

/-! Where errors come from -/

inductive CodeFails : TagKind → List Char → SyntaxError → Prop
  | output {code : List Char} {error : SyntaxError} (fails : readCode readOutput code = .error error) :
      CodeFails .output code error
  | code {code : List Char} {error : SyntaxError}
      (fails : readCode readDirective code = .error error) : CodeFails .code code error

theorem CodeFails.codeError (fails : CodeFails kind code error) : CodeError code error := by
  cases fails with
  | output fails => exact codeError_of_readCode readOutput_staysWithin fails
  | code fails => exact codeError_of_readCode readDirective_staysWithin fails

/-- An error is found in the code of a tag, or a tag as a whole is wrong where it stands. -/
inductive Origin (segments : List Segment) : SyntaxError → Prop
  | code {kind : TagKind} {code : List Char} {offset : Nat} {span : Span} {error : SyntaxError}
      (tag : .tag kind code offset span ∈ segments) (fails : CodeFails kind code error) :
      Origin segments (error.shift offset)
  | block {kind : TagKind} {code : List Char} {offset : Nat} {span : Span} (fault : SyntaxFault)
      (tag : .tag kind code offset span ∈ segments)
      (notAtEnd : ∀ expected, fault ≠ .unexpected none expected) : Origin segments ⟨span, fault⟩

/-- The errors so far, and those that open blocks may still lead to, come from the segments. -/
structure Progress.Traced (segments : List Segment) (progress : Progress) : Prop where
  errors : ∀ error ∈ progress.errors, Origin segments error
  blocks : ∀ block ∈ progress.assembly.blocks, Origin segments ⟨block.openedAt, .blockNotClosed⟩

namespace Progress.Traced

variable {progress : Progress} {span : Span}

theorem fail (traced : progress.Traced found) (origin : Origin found error) :
    (progress.fail error).Traced found where
  errors := List.forall_mem_append.mpr ⟨traced.errors, by simpa using origin⟩
  blocks := traced.blocks

theorem apply {directive : Directive} {assembly : Assembly} (traced : progress.Traced found)
    (tag : .tag kind code offset span ∈ found)
    (applied : progress.assembly.apply directive span = .ok assembly) :
    Progress.Traced found { progress with assembly } where
  errors := traced.errors
  blocks := by
    have blocks := traced.blocks
    have opened : Origin found ⟨span, .blockNotClosed⟩ := .block _ tag (by simp)
    unfold Assembly.apply at applied
    split at applied
    · cases applied
      exact blocks
    · cases applied
      exact List.forall_mem_cons.mpr ⟨opened, blocks⟩
    · cases applied
      exact List.forall_mem_cons.mpr ⟨opened, blocks⟩
    · split at applied
      · rename_i waiting
        cases applied
        rw [waiting] at blocks
        obtain ⟨first, others⟩ := List.forall_mem_cons.mp blocks
        exact List.forall_mem_cons.mpr ⟨first, others⟩
      · cases applied
      · cases applied
    · split at applied
      · cases applied
      · rename_i waiting
        cases applied
        rw [waiting] at blocks
        exact (List.forall_mem_cons.mp blocks).2

end Progress.Traced

theorem origin_of_apply {directive : Directive} {assembly : Assembly} {span : Span}
    (tag : .tag kind code offset span ∈ found)
    (fails : assembly.apply directive span = .error error) : Origin found error := by
  unfold Assembly.apply at fails
  split at fails
  · cases fails
  · cases fails
  · cases fails
  · split at fails
    · cases fails
    · cases fails
      exact .block _ tag (by simp)
    · cases fails
      exact .block _ tag (by simp)
  · split at fails
    · cases fails
      exact .block _ tag (by simp)
    · cases fails

theorem Progress.Traced.step {progress : Progress} {segment : Segment}
    (traced : progress.Traced found) (member : segment ∈ found) :
    (progress.step segment).Traced found := by
  unfold Progress.step
  split
  · exact ⟨traced.errors, traced.blocks⟩
  · exact traced
  · split
    · exact ⟨traced.errors, traced.blocks⟩
    · rename_i fails
      exact traced.fail (.code member (.output fails))
  · split
    · rename_i fails
      exact traced.fail (.code member (.code fails))
    · split
      · rename_i applied
        exact traced.apply member applied
      · rename_i fails
        exact traced.fail (origin_of_apply member fails)

theorem Progress.Traced.foldl {progress : Progress} {segments : List Segment}
    (traced : progress.Traced found) (members : ∀ segment ∈ segments, segment ∈ found) :
    (segments.foldl Progress.step progress).Traced found := by
  induction segments generalizing progress with
  | nil => exact traced
  | cons segment rest ih =>
      obtain ⟨member, more⟩ := List.forall_mem_cons.mp members
      exact ih (traced.step member) more

theorem error_mem_of_codeFails {progress : Progress} {span : Span}
    (tag : .tag kind code offset span ∈ found) (fails : CodeFails kind code error) :
    error.shift offset ∈ (found.foldl Progress.step progress).errors := by
  induction found generalizing progress with
  | nil => cases tag
  | cons segment rest ih =>
      rcases List.mem_cons.mp tag with rfl | later
      · have kept := errors_prefix_foldl (progress.step (.tag kind code offset span)) rest
        apply kept.subset
        cases fails with
        | output fails =>
            rw [Progress.step, fails]
            exact List.mem_append_right _ List.mem_cons_self
        | code fails =>
            rw [Progress.step, fails]
            exact List.mem_append_right _ List.mem_cons_self
      · exact ih later

/-! The errors of a template -/

variable {source : String} {errors : List SyntaxError}

theorem origin_of_parse (split : segments source.toList = .ok found)
    (fails : parse source = .error errors) : ∀ error ∈ errors, Origin found error := by
  have traced : (found.foldl Progress.step .start).Traced found :=
    Progress.Traced.foldl ⟨by simp [Progress.start], by simp [Progress.start, Assembly.empty]⟩
      fun _ member => member
  unfold parse at fails
  rw [split] at fails
  unfold Progress.finish at fails
  dsimp only at fails
  split at fails
  · unfold Assembly.finish at fails
    split at fails
    · cases fails
    · rename_i waiting
      cases fails
      have blocks := traced.blocks
      rw [waiting] at blocks
      simpa using (List.forall_mem_cons.mp blocks).1
  · cases fails
    exact traced.errors

/-- An error at the end of a tag whose code ends in blanks. -/
inductive AtBlankEnd (source : String) : SyntaxError → Prop
  | mk {found : List Segment} {kind : TagKind} {code : List Char} {offset : Nat} {span : Span}
      {error : SyntaxError} {expected : List Expected}
      (split : segments source.toList = .ok found) (tag : .tag kind code offset span ∈ found)
      (gap : EndsInGap code) (fails : CodeFails kind code error)
      (atEnd : error.fault = .unexpected none expected) : AtBlankEnd source (error.shift offset)

theorem AtBlankEnd.stop_lt_start (blankEnd : AtBlankEnd source error) :
    error.span.stop < error.span.start := by
  cases blankEnd with
  | mk split tag gap fails atEnd =>
      have backward := fails.codeError.stop_lt_start_iff.mpr ⟨⟨_, atEnd⟩, gap⟩
      exact Nat.add_lt_add_right backward _

theorem AtBlankEnd.mem_errors (blankEnd : AtBlankEnd source error) :
    ∃ errors, parse source = .error errors ∧ error ∈ errors := by
  cases blankEnd with
  | @mk found kind code offset span error expected split tag gap fails atEnd =>
      have member : error.shift offset ∈ (found.foldl Progress.step .start).errors :=
        error_mem_of_codeFails tag fails
      refine ⟨_, ?_, member⟩
      unfold parse
      rw [split]
      unfold Progress.finish
      dsimp only
      rw [if_neg]
      simpa using List.ne_nil_of_mem member

theorem span_of_parse_error (fails : parse source = .error errors) (member : error ∈ errors) :
    Text.IsBoundary source.toList error.span.start ∧
      Text.IsBoundary source.toList error.span.stop ∧
      (error.span.start ≤ error.span.stop ↔ ¬ AtBlankEnd source error) := by
  have ordered (inOrder : error.span.start ≤ error.span.stop) : ¬ AtBlankEnd source error :=
    fun blankEnd => Nat.not_lt.mpr inOrder blankEnd.stop_lt_start
  have covered {piece : List Char} (covers : error.span.Covers source.toList piece) :
      Text.IsBoundary source.toList error.span.start ∧
        Text.IsBoundary source.toList error.span.stop ∧
        (error.span.start ≤ error.span.stop ↔ ¬ AtBlankEnd source error) :=
    ⟨covers.start_boundary, covers.stop_boundary, ordered, fun _ => covers.start_le_stop⟩
  cases split : segments source.toList with
  | error whole =>
      unfold parse at fails
      rw [split] at fails
      cases fails
      obtain rfl := List.mem_singleton.mp member
      obtain ⟨-, piece, covers⟩ := error_of_segmentsFrom split (.whole source.toList)
      exact covered covers
  | ok found =>
      have placed := placed_of_segmentsFrom split (.whole source.toList)
      cases origin_of_parse split fails error member with
      | block fault tag =>
          obtain ⟨-, piece, covers⟩ := placed _ tag
          exact covered covers
      | code tag codeFails =>
          obtain ⟨stands, -⟩ := placed _ tag
          have inCode := codeFails.codeError
          refine ⟨inCode.start_boundary stands, inCode.stop_boundary stands, ordered, ?_⟩
          intro notBlank
          apply Nat.le_of_not_lt
          intro backward
          obtain ⟨⟨expected, atEnd⟩, gap⟩ :=
            inCode.stop_lt_start_iff.mp (Nat.lt_of_add_lt_add_right backward)
          exact notBlank (.mk split tag gap codeFails atEnd)

end ThemeRender.Template
