import ThemeRender.Proofs.Text.Lines
import ThemeRender.Proofs.Text.Marks
import ThemeRender.Proofs.Outcome
import ThemeRender.Template.Segment
/-!
A template as text and tags in turn, and which characters of its text are kept. A tag that is alone
on its line takes its indentation and its line break with it. `segments_layout` says that this is how
a template is split, `layout_of_segments` that every template that is split at all is laid out so.
-/

namespace ThemeRender.Template

structure Tag where
  kind : TagKind
  code : List Char
  closed : Text.Lacks tagClose code
  unsigned : kind = .code → code.head? ≠ some '=' ∧ code.head? ≠ some '#'

def TagKind.sign : TagKind → List Char
  | .output => ['=']
  | .code => []
  | .comment => ['#']

def Tag.text (tag : Tag) : List Char :=
  tagOpen ++ (tag.kind.sign ++ (tag.code ++ tagClose))

structure Run where
  text : List Char
  clean : Text.Lacks tagOpen text

inductive Layout where
  | last (run : Run)
  | cons (run : Run) (tag : Tag) (rest : Layout)

namespace Layout

def text : Layout → List Char
  | .last run => run.text
  | .cons run tag rest => run.text ++ (tag.text ++ rest.text)

def firstRun : Layout → Run
  | .last run => run
  | .cons run _ _ => run

inductive Piece where
  | text (contents : List Char)
  | tag (kind : TagKind) (code : List Char)

def Piece.kept : Piece → List Char
  | .text contents => contents
  | .tag _ _ => []

end Layout

def lineBreak : List Char → List Char
  | '\n' :: _ => ['\n']
  | '\r' :: '\n' :: _ => ['\r', '\n']
  | _ => []

/-- Whether a tag is alone on its line. All that stands `before` it ends with the `run` since the
tag before. -/
def AloneOnLine (kind : TagKind) (before run after : List Char) : Prop :=
  kind ≠ .output ∧ Text.lastLine before <:+ run ∧
    (∀ c ∈ Text.lastLine before, c = ' ' ∨ c = '\t') ∧ (after = [] ∨ lineBreak after ≠ [])

instance (kind : TagKind) (before run after : List Char) :
    Decidable (AloneOnLine kind before run after) :=
  -- characters are finitely many, but those of a line are fewer
  have : Decidable (∀ c ∈ Text.lastLine before, c = ' ' ∨ c = '\t') := List.decidableBAll _ _
  inferInstanceAs (Decidable (_ ∧ _ ∧ _ ∧ _))

namespace Layout

def textPiece (contents : List Char) : List Piece :=
  if contents.isEmpty then [] else [.text contents]

/-- The pieces of a layout that comes after the text `done`; the first characters of its first run
are taken by the tag before. -/
def piecesAfter (done : List Char) (taken : Nat) : Layout → List Piece
  | .last run => textPiece (run.text.drop taken)
  | .cons run tag rest =>
      let before := done ++ run.text
      let kept := run.text.drop taken
      if AloneOnLine tag.kind before run.text rest.text then
        textPiece (kept.rdrop (Text.lastLine before).length) ++ .tag tag.kind tag.code ::
          rest.piecesAfter (before ++ tag.text) (lineBreak rest.text).length
      else
        textPiece kept ++ .tag tag.kind tag.code :: rest.piecesAfter (before ++ tag.text) 0

def pieces (layout : Layout) : List Piece :=
  layout.piecesAfter [] 0

end Layout

def Segment.piece : Segment → Layout.Piece
  | .text contents => .text contents
  | .tag kind code _ _ => .tag kind code

variable {s run done rest : List Char} {layout : Layout} {atLineStart : Bool} {taken : Nat}

theorem not_mem_feed_of_indent (indent : s.all isIndent = true) : '\n' ∉ s := by
  intro member
  cases List.all_eq_true.mp indent '\n' member

theorem rdrop_cons {n : Nat} (short : n ≤ s.length) (c : Char) :
    (c :: s).rdrop n = c :: s.rdrop n := by
  rw [List.rdrop, List.length_cons, Nat.succ_sub short, List.take_succ_cons, List.rdrop]

theorem withoutIndent?_eq (atLineStart : Bool) (s : List Char) :
    withoutIndent? atLineStart s =
      if (atLineStart = true ∨ '\n' ∈ s) ∧ (Text.lastLine s).all isIndent = true then
        some (s.rdrop (Text.lastLine s).length)
      else none := by
  induction s generalizing atLineStart with
  | nil => cases atLineStart <;> rfl
  | cons c rest ih =>
      have split := Text.lastLine_append [c] rest
      have short := (Text.lastLine_suffix rest).length_le
      rw [List.singleton_append] at split
      by_cases feed : '\n' ∈ rest
      · have notIndent : (c :: rest).all isIndent = false := by
          rw [Bool.eq_false_iff]
          intro indent
          exact not_mem_feed_of_indent indent (List.mem_cons_of_mem c feed)
        rw [if_pos feed] at split
        rw [withoutIndent?, ih, split, notIndent, Bool.and_false, rdrop_cons short]
        simp only [feed, List.mem_cons_of_mem c feed, or_true, true_and, Bool.false_eq_true, if_false]
        split <;> rfl
      · have flat : Text.lastLine rest = rest := Text.Flat.lastLine feed
        rw [if_neg feed] at split
        have none : rest.rdrop rest.length = [] := by simp [List.rdrop]
        by_cases isFeed : c = '\n'
        · subst isFeed
          have line : Text.lastLine ('\n' :: rest) = rest := split
          rw [withoutIndent?, ih, line, flat, none, rdrop_cons (Nat.le_refl _), none]
          simp only [List.all_cons, isIndent, beq_self_eq_true, List.mem_cons_self, or_true,
            true_or, true_and]
          cases rest.all isIndent <;> simp
        · have line : Text.lastLine (c :: rest) = c :: rest := by
            rw [split]
            simp [Text.lastLine, List.rtakeWhile, isFeed]
          have noFeed : (c == '\n') = false := by simpa using isFeed
          have whole : '\n' ∉ c :: rest := by simp [feed, Ne.symm isFeed]
          rw [withoutIndent?, ih, line, flat, none, noFeed]
          cases atLineStart <;> simp [feed, whole, List.rdrop]

theorem afterLineBreak?_eq (s : List Char) :
    afterLineBreak? s =
      if s = [] ∨ lineBreak s ≠ [] then some (s.drop (lineBreak s).length) else none := by
  unfold afterLineBreak? lineBreak
  split
  · rfl
  · rfl
  · rfl
  · rename_i notNil noFeed noPair
    split
    · exact absurd rfl (noFeed _)
    · exact absurd rfl (noPair _)
    · have some : s ≠ [] := notNil
      simp [some]

/-- Where the reading of a layout starts: on a new line, unless a tag stands before. -/
def Starts (atLineStart : Bool) (done : List Char) (taken : Nat) (layout : Layout) : Prop :=
  taken ≤ layout.firstRun.text.length ∧
    match atLineStart with
    | true => layout.text = [] ∨ Text.lastLine (done ++ layout.firstRun.text.take taken) = []
    | false => taken = 0 ∧ Text.lastLine done ≠ []

theorem Tag.text_ne_nil (tag : Tag) : tag.text ≠ [] := by
  simp [Tag.text, tagOpen]

theorem lastLine_of_starts {run : Run} {tag : Tag} {rest : Layout}
    (starts : Starts atLineStart done taken (.cons run tag rest)) :
    ((atLineStart = true ∨ '\n' ∈ run.text.drop taken) ↔
        Text.lastLine (done ++ run.text) <:+ run.text) ∧
      (Text.lastLine (done ++ run.text) <:+ run.text →
        Text.lastLine (done ++ run.text) = Text.lastLine (run.text.drop taken)) := by
  obtain ⟨-, line⟩ := starts
  cases atLineStart with
  | true =>
      have start : Text.lastLine (done ++ run.text.take taken) = [] := by
        apply line.resolve_left
        simp [Layout.text, tag.text_ne_nil]
      have same : Text.lastLine (done ++ run.text) = Text.lastLine (run.text.drop taken) := by
        rw [← List.take_append_drop taken run.text, ← List.append_assoc, Text.lastLine_append,
          start, List.nil_append, List.take_append_drop]
        split
        · rfl
        · rename_i flat
          exact (Text.Flat.lastLine flat).symm
      refine ⟨?_, fun _ => same⟩
      rw [same]
      simp [(Text.lastLine_suffix _).trans (List.drop_suffix taken run.text)]
  | false =>
      obtain ⟨rfl, busy⟩ := line
      rw [Text.lastLine_append, List.drop_zero]
      by_cases feed : '\n' ∈ run.text
      · simp [feed, Text.lastLine_suffix]
      · have longer : ¬ Text.lastLine done ++ run.text <:+ run.text := by
          intro suffix
          have := suffix.length_le
          have := List.length_pos_iff.mpr busy
          simp only [List.length_append] at *
          omega
        simp [feed, longer]

theorem wholeLine?_of_alone {run : Run} {tag : Tag} {rest : Layout}
    (starts : Starts atLineStart done taken (.cons run tag rest))
    (alone : AloneOnLine tag.kind (done ++ run.text) run.text rest.text) :
    wholeLine? tag.kind atLineStart (run.text.drop taken) rest.text =
      some ((run.text.drop taken).rdrop (Text.lastLine (done ++ run.text)).length,
        rest.text.drop (lineBreak rest.text).length) := by
  obtain ⟨noOutput, suffix, blank, ends⟩ := alone
  obtain ⟨within, same⟩ := lastLine_of_starts starts
  have indent : (Text.lastLine (run.text.drop taken)).all isIndent = true := by
    rw [← same suffix]
    simpa [isIndent] using blank
  unfold wholeLine?
  rw [if_neg noOutput, withoutIndent?_eq, if_pos ⟨within.mpr suffix, indent⟩, afterLineBreak?_eq,
    if_pos ends, ← same suffix]

theorem wholeLine?_of_not_alone {run : Run} {tag : Tag} {rest : Layout}
    (starts : Starts atLineStart done taken (.cons run tag rest))
    (company : ¬ AloneOnLine tag.kind (done ++ run.text) run.text rest.text) :
    wholeLine? tag.kind atLineStart (run.text.drop taken) rest.text = none := by
  obtain ⟨within, same⟩ := lastLine_of_starts starts
  unfold wholeLine?
  rw [withoutIndent?_eq, afterLineBreak?_eq]
  split
  · rfl
  · rename_i noOutput
    split
    · rename_i line ends
      rw [Option.ite_none_right_eq_some] at line ends
      have suffix := within.mp line.1.1
      refine absurd ⟨noOutput, suffix, ?_, ends.1⟩ company
      rw [same suffix]
      simpa [isIndent] using line.1.2
    · rfl

theorem Tag.text_append (tag : Tag) (rest : List Char) :
    tag.text ++ rest = '<' :: '%' :: (tag.kind.sign ++ (tag.code ++ '%' :: '>' :: rest)) := by
  simp [Tag.text, tagOpen, tagClose]

theorem lineBreak_append_tag (run : Run) (tag : Tag) (rest : List Char) :
    lineBreak (run.text ++ (tag.text ++ rest)) = lineBreak run.text := by
  rw [tag.text_append]
  match run.text with
  | [] => rfl
  | [c] =>
      by_cases feed : c = '\n'
      · subst feed
        rfl
      · simp [lineBreak, feed]
  | c :: d :: more =>
      simp only [List.cons_append]
      unfold lineBreak
      split <;> simp_all

theorem lineBreak_starts (s : List Char) : lineBreak s <+: s := by
  unfold lineBreak
  split
  · exact ⟨_, rfl⟩
  · exact ⟨_, rfl⟩
  · exact List.nil_prefix

theorem lineBreak_text (layout : Layout) :
    lineBreak layout.text = lineBreak layout.firstRun.text := by
  cases layout with
  | last run => rfl
  | cons run tag rest => exact lineBreak_append_tag run tag rest.text

theorem lastLine_lineBreak (broken : lineBreak s ≠ []) (done : List Char) :
    Text.lastLine (done ++ lineBreak s) = [] := by
  unfold lineBreak at broken ⊢
  split
  · rw [Text.lastLine_append, if_pos (by decide)]
    rfl
  · rw [Text.lastLine_append, if_pos (by decide)]
    rfl
  · simp_all

theorem starts_after_line (ends : layout.text = [] ∨ lineBreak layout.text ≠ []) (done : List Char) :
    Starts true done (lineBreak layout.text).length layout := by
  rw [lineBreak_text] at ends ⊢
  have within := lineBreak_starts layout.firstRun.text
  refine ⟨within.length_le, ends.imp_right fun broken => ?_⟩
  rw [← List.prefix_iff_eq_take.mp within]
  exact lastLine_lineBreak broken done

theorem starts_after_tag (layout : Layout) (before : List Char) (tag : Tag) :
    Starts false (before ++ tag.text) 0 layout := by
  refine ⟨Nat.zero_le _, rfl, ?_⟩
  have split : before ++ tag.text = before ++ (tagOpen ++ (tag.kind.sign ++ (tag.code ++ ['%']))) ++
      ['>'] := by simp [Tag.text, tagClose]
  rw [split, Text.lastLine_append, if_neg (by decide)]
  simp

theorem ofText_sign (tag : Tag) (rest : List Char) :
    TagKind.ofText (tag.kind.sign ++ (tag.code ++ '%' :: '>' :: rest)) =
      (tag.kind, tag.code ++ '%' :: '>' :: rest) := by
  obtain ⟨kind, code, closed, unsigned⟩ := tag
  cases kind with
  | output => rfl
  | comment => rfl
  | code =>
      obtain ⟨noOutput, noComment⟩ := unsigned rfl
      cases code with
      | nil => rfl
      | cons c code =>
          simp only [List.head?_cons, ne_eq, Option.some.injEq] at noOutput noComment
          simp only [TagKind.sign, List.nil_append, List.cons_append]
          unfold TagKind.ofText
          split <;> simp_all

theorem segmentsFrom_last (clean : Text.Lacks tagOpen s) (offset : Nat) (atLineStart : Bool) :
    segmentsFrom offset atLineStart s = .ok (textSegment s) := by
  rw [segmentsFrom]
  split
  · rfl
  · rename_i found
    rw [tagOpen, Text.cut?_of_lacks clean] at found
    cases found

theorem map_piece_textSegment (s : List Char) :
    (textSegment s).map Segment.piece = Layout.textPiece s := by
  unfold textSegment Layout.textPiece
  split <;> rfl

theorem segmentsFrom_layout (starts : Starts atLineStart done taken layout) (offset : Nat) :
    ∃ segments, segmentsFrom offset atLineStart (layout.text.drop taken) = .ok segments ∧
      segments.map Segment.piece = layout.piecesAfter done taken := by
  induction layout generalizing atLineStart done taken offset with
  | last run =>
      have clean : Text.Lacks tagOpen (run.text.drop taken) := by
        apply Text.Lacks.of_append_right (s := run.text.take taken)
        rw [List.take_append_drop]
        exact run.clean
      exact ⟨_, segmentsFrom_last clean offset atLineStart, map_piece_textSegment _⟩
  | cons run tag rest ih =>
      have clean : Text.Lacks tagOpen (run.text.drop taken) := by
        apply Text.Lacks.of_append_right (s := run.text.take taken)
        rw [List.take_append_drop]
        exact run.clean
      have within : taken ≤ run.text.length := starts.1
      have split : (Layout.cons run tag rest).text.drop taken =
          run.text.drop taken ++
            '<' :: '%' :: (tag.kind.sign ++ (tag.code ++ '%' :: '>' :: rest.text)) := by
        rw [← tag.text_append, Layout.text, List.drop_append_of_le_length within]
      have opens := Text.cut?_mark (by decide) clean
        (tag.kind.sign ++ (tag.code ++ '%' :: '>' :: rest.text))
      have closes : Text.cut? tagClose
          (TagKind.ofText (tag.kind.sign ++ (tag.code ++ '%' :: '>' :: rest.text))).2 =
            some (tag.code, rest.text) := by
        rw [ofText_sign]
        exact Text.cut?_mark (by decide) tag.closed rest.text
      rw [split, segmentsFrom_cut opens closes, ofText_sign, Layout.piecesAfter]
      by_cases alone : AloneOnLine tag.kind (done ++ run.text) run.text rest.text
      · rw [if_pos alone, wholeLine?_of_alone starts alone]
        obtain ⟨segments, read, same⟩ :=
          ih (starts_after_line alone.2.2.2 (done ++ run.text ++ tag.text)) _
        refine ⟨_, congrArg (Except.map _) read, ?_⟩
        simp [map_piece_textSegment, same, Segment.piece]
      · rw [if_neg alone, wholeLine?_of_not_alone starts alone]
        obtain ⟨segments, read, same⟩ := ih (starts_after_tag rest (done ++ run.text) tag) _
        refine ⟨_, congrArg (Except.map _) read, ?_⟩
        simp [map_piece_textSegment, same, Segment.piece]

/-! Every template that can be split is laid out -/

theorem sign_of_ofText {kind : TagKind} {opened inner : List Char}
    (same : TagKind.ofText opened = (kind, inner)) : opened = kind.sign ++ inner := by
  unfold TagKind.ofText at same
  split at same
  all_goals
    cases same
    rfl

theorem unsigned_of_ofText {opened inner : List Char}
    (same : TagKind.ofText opened = (.code, inner)) :
    inner.head? ≠ some '=' ∧ inner.head? ≠ some '#' := by
  unfold TagKind.ofText at same
  split at same
  · cases same
  · cases same
  · rename_i noOutput noComment
    cases same
    cases opened with
    | nil => simp
    | cons c rest =>
        constructor
        · rintro ⟨⟩
          exact noOutput rest rfl
        · rintro ⟨⟩
          exact noComment rest rfl

theorem tag_of_cut {before opened inner code after : List Char} {kind : TagKind}
    (opens : Text.cut? tagOpen s = some (before, opened))
    (same : TagKind.ofText opened = (kind, inner))
    (closes : Text.cut? tagClose inner = some (code, after)) :
    ∃ (run : Run) (tag : Tag), s = run.text ++ (tag.text ++ after) := by
  have whole : s = before ++ (tagOpen ++ (kind.sign ++ (code ++ tagClose)) ++ after) := by
    rw [Text.cut?_eq_some opens, sign_of_ofText same, Text.cut?_eq_some closes]
    simp
  have unsigned : kind = .code → code.head? ≠ some '=' ∧ code.head? ≠ some '#' := by
    rintro rfl
    have inside := unsigned_of_ofText same
    rw [Text.cut?_eq_some closes] at inside
    cases code with
    | nil => simp
    | cons => exact inside
  exact ⟨⟨before, Text.lacks_before_cut? opens⟩,
    ⟨kind, code, Text.lacks_before_cut? closes, unsigned⟩, whole⟩

theorem lacks_after_lineBreak (clean : Text.Lacks tagOpen run) (s : List Char) :
    Text.Lacks tagOpen (lineBreak s ++ run) := by
  unfold lineBreak
  split
  · exact clean.cons (by decide)
  · exact (clean.cons (by decide)).cons (by decide)
  · exact clean

theorem layout_after_line {next : List Char} (breaks : afterLineBreak? s = some next)
    (laidOut : layout.text = next) : ∃ whole : Layout, whole.text = s := by
  have split : s = lineBreak s ++ next := by
    rw [afterLineBreak?_eq, Option.ite_none_right_eq_some] at breaks
    rw [← Option.some.inj breaks.2]
    exact (List.prefix_iff_eq_append.mp (lineBreak_starts s)).symm
  rw [split, ← laidOut]
  cases layout with
  | last run => exact ⟨.last ⟨_, lacks_after_lineBreak run.clean s⟩, rfl⟩
  | cons run tag rest =>
      exact ⟨.cons ⟨_, lacks_after_lineBreak run.clean s⟩ tag rest, List.append_assoc _ _ _⟩

theorem breaks_of_wholeLine? {kind : TagKind} {before after before' next : List Char}
    (line : wholeLine? kind atLineStart before after = some (before', next)) :
    afterLineBreak? after = some next := by
  unfold wholeLine? at line
  split at line
  · cases line
  · split at line
    · rename_i ends
      cases line
      exact ends
    · cases line

theorem layout_of_segmentsFrom {offset : Nat} {segments : List Segment}
    (read : segmentsFrom offset atLineStart s = .ok segments) :
    ∃ layout : Layout, layout.text = s := by
  fun_induction segmentsFrom offset atLineStart s generalizing segments with
  | case1 offset atLineStart s none =>
      exact ⟨.last ⟨s, Text.lacks_of_cut?_none none⟩, rfl⟩
  | case2 => cases read
  | case3 offset atLineStart s before opened opens _ _ inner _ code after closes _ _ _ next line =>
      rename_i ih
      obtain ⟨more, readMore, -⟩ := Outcome.of_map_ok read
      obtain ⟨below, laidOut⟩ := ih readMore
      obtain ⟨rest, rfl⟩ := layout_after_line (breaks_of_wholeLine? line) laidOut
      obtain ⟨run, tag, rfl⟩ := tag_of_cut opens rfl closes
      exact ⟨.cons run tag rest, rfl⟩
  | case4 offset atLineStart s before opened opens _ _ inner _ code after closes =>
      rename_i ih
      obtain ⟨more, readMore, -⟩ := Outcome.of_map_ok read
      obtain ⟨rest, rfl⟩ := ih readMore
      obtain ⟨run, tag, rfl⟩ := tag_of_cut opens rfl closes
      exact ⟨.cons run tag rest, rfl⟩

theorem segments_layout (layout : Layout) :
    ∃ found, segments layout.text = .ok found ∧ found.map Segment.piece = layout.pieces :=
  segmentsFrom_layout ⟨Nat.zero_le _, Or.inr rfl⟩ 0

theorem layout_of_segments {found : List Segment} (read : segments s = .ok found) :
    ∃ layout : Layout, layout.text = s ∧ found.map Segment.piece = layout.pieces := by
  obtain ⟨layout, rfl⟩ := layout_of_segmentsFrom read
  obtain ⟨found', read', same⟩ := segments_layout layout
  rw [read] at read'
  cases read'
  exact ⟨layout, rfl, same⟩

end ThemeRender.Template
