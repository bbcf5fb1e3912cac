import ThemeRender.Proofs.Template.Below

namespace ThemeRender.Template

open Text (Whole byteLength)

structure CommentLine where
  indent : List Char
  blank : indent.all isIndent = true
  comment : List Char
  closed : Text.Lacks tagClose comment
  ending : List Char
  breaks : ending = ['\n'] ∨ ending = ['\r', '\n']

namespace CommentLine

def tag (line : CommentLine) : Tag :=
  ⟨.comment, line.comment, line.closed, nofun⟩

def text (line : CommentLine) : String :=
  String.ofList (line.indent ++ (line.tag.text ++ line.ending))

theorem toList_text (line : CommentLine) :
    line.text.toList = line.indent ++ (line.tag.text ++ line.ending) :=
  String.toList_ofList

theorem whole_text (line : CommentLine) : Whole line.text.toList := by
  have ends : ∃ rest, line.ending = rest ++ ['\n'] :=
    line.breaks.elim (fun same => ⟨[], same⟩) (fun same => ⟨['\r'], same⟩)
  obtain ⟨rest, same⟩ := ends
  rw [line.toList_text, same, ← List.append_assoc, ← List.append_assoc]
  exact Text.whole_line _

theorem takes_line (line : CommentLine) :
    wholeLine? .comment true line.indent line.ending = some ([], []) := by
  have indent : withoutIndent? true line.indent = some [] := by
    have blank := line.blank
    cases blanks : line.indent with
    | nil => rfl
    | cons c rest =>
        rw [blanks] at blank
        rw [withoutIndent?, blank, Bool.and_self, if_pos rfl]
  unfold wholeLine?
  rw [if_neg TagKind.noConfusion, indent]
  rcases line.breaks with same | same
  all_goals
    rw [same]
    rfl

theorem segments_text (line : CommentLine) : ∃ place span,
    segments line.text.toList = .ok [.tag .comment line.comment place span] := by
  have noOpen : '<' ∉ line.indent := by
    intro member
    cases List.all_eq_true.mp line.blank '<' member
  have opens := Text.cut?_mark (show '<' ≠ '%' by decide) (Text.lacks_of_not_mem noOpen)
    (line.tag.kind.sign ++ (line.tag.code ++ '%' :: '>' :: line.ending))
  have closes : Text.cut? tagClose
      (TagKind.ofText (line.tag.kind.sign ++ (line.tag.code ++ '%' :: '>' :: line.ending))).2 =
        some (line.comment, line.ending) := by
    rw [ofText_sign]
    exact Text.cut?_mark (by decide) line.closed line.ending
  rw [segments, line.toList_text, line.tag.text_append, segmentsFrom_cut opens closes, ofText_sign,
    show line.tag.kind = .comment from rfl, line.takes_line]
  dsimp only
  rw [segmentsFrom_last Text.lacks_nil]
  exact ⟨_, _, rfl⟩

end CommentLine

/-! Put between lines -/

theorem joined_tag (found more : List Segment) (kind : TagKind) (code : List Char) (place : Nat)
    (span : Span) :
    joined found (.tag kind code place span :: more) =
      found ++ .tag kind code place span :: more := by
  rcases joined_cases found (.tag kind code place span :: more) with
    apart | ⟨_, _, _, _, -, isText, -⟩
  · exact apart
  · cases isText

/-- All that is opened as a tag is closed, so that no tag goes on behind the text. -/
def OutsideTags (s : List Char) : Prop :=
  ∃ layout : Layout, layout.text = s

theorem OutsideTags.segments {s : List Char} (outside : OutsideTags s) :
    ∃ found, segments s = .ok found := by
  obtain ⟨layout, rfl⟩ := outside
  obtain ⟨found, split, -⟩ := segments_layout layout
  exact ⟨found, split⟩

variable {before after : String} {found : List Segment} {moves : List Move}

theorem CommentLine.segments_append (line : CommentLine) (whole : Whole before.toList)
    (split : segments before.toList = .ok found) : ∃ place span,
      segments (before ++ line.text).toList =
        .ok (found ++ [.tag .comment line.comment place span]) := by
  obtain ⟨place, span, splitLine⟩ := line.segments_text
  rw [String.toList_append, Template.segments_append whole split splitLine, List.map_singleton,
    Segment.shift, joined_tag]
  exact ⟨_, _, rfl⟩

theorem CommentLine.makes_iff (line : CommentLine) (whole : Whole before.toList)
    (split : segments before.toList = .ok found) :
    Makes (before ++ line.text) moves ↔ Makes before moves := by
  obtain ⟨place, span, splitLine⟩ := line.segments_append whole split
  constructor
  · rintro ⟨all, splitAll, does⟩
    rw [splitLine] at splitAll
    cases splitAll
    obtain ⟨first, _, doesFound, none, rfl⟩ := Moves.append_iff.mp does
    cases none with
    | comment _ _ _ none =>
        cases none
        rw [List.append_nil]
        exact ⟨found, split, doesFound⟩
  · rintro ⟨found', split', does⟩
    rw [split] at split'
    cases split'
    refine ⟨_, splitLine, Moves.append_iff.mpr ⟨moves, [], does, ?_, (List.append_nil _).symm⟩⟩
    exact .comment _ place span .nil

/-- An expression in lines of so many bytes, or one from after them in two places. -/
def Displaced (near far : Nat) (moved value : Spanned Expr) : Prop :=
  moved = value ∧ value.span.start ≤ near ∨
    ∃ own : Spanned Expr, moved = own.shift far ∧ value = own.shift near

theorem Makes.displaced {first : List Move} (makes : Makes before first) (far : Nat)
    (second : List Move) :
    MovesRetold (Displaced (byteLength before.toList) far) (first ++ second.map (Move.shift far))
      (first ++ second.map (Move.shift (byteLength before.toList))) := by
  apply MovesRetold.append
  · exact .refl first fun place member => .inl ⟨rfl, makes.within place member⟩
  · exact .shift (fun value => .inr ⟨value, rfl, rfl⟩) second

namespace PutTogether

theorem insert {nodes : List Node} (together : PutTogether before after nodes)
    (line : CommentLine) (whole : Whole before.toList)
    (split : segments before.toList = .ok found) :
    ∃ inserted, PutTogether (before ++ line.text) after inserted ∧
      Retold (Displaced (byteLength before.toList) (byteLength (before ++ line.text).toList))
        inserted nodes := by
  obtain ⟨first, second, makes, makesAfter, ran⟩ := together
  have told := makes.displaced (byteLength (before ++ line.text).toList) second
  obtain ⟨inserted, ranInserted, toldNodes⟩ :=
    ((Assembled.start _ []).run_closed told).2 nodes ran
  have makesLine := (line.makes_iff whole split).mpr makes
  exact ⟨inserted, ⟨first, second, makesLine, makesAfter, ranInserted⟩, toldNodes⟩

theorem remove {inserted : List Node} {line : CommentLine}
    (together : PutTogether (before ++ line.text) after inserted) (whole : Whole before.toList)
    (split : segments before.toList = .ok found) : ∃ nodes, PutTogether before after nodes := by
  obtain ⟨first, second, makesLine, makesAfter, ranInserted⟩ := together
  have makes := (line.makes_iff whole split).mp makesLine
  have told := makes.displaced (byteLength (before ++ line.text).toList) second
  obtain ⟨_, nodes, -, ran, -⟩ :=
    ((Assembled.start _ []).run_closed told).1 inserted ranInserted
  exact ⟨nodes, first, second, makes, makesAfter, ran⟩

end PutTogether

namespace CommentLine

variable {read readInserted : List Node}

theorem below_lines (line : CommentLine) (whole : Whole before.toList)
    (outside : OutsideTags before.toList) :
    Whole (before ++ line.text).toList ∧
      ∃ found, segments (before ++ line.text).toList = .ok found := by
  obtain ⟨found, split⟩ := outside.segments
  obtain ⟨place, span, splitLine⟩ := line.segments_append whole split
  refine ⟨?_, _, splitLine⟩
  rw [String.toList_append]
  exact whole.append line.whole_text

theorem accepted_iff (line : CommentLine) (whole : Whole before.toList)
    (outside : OutsideTags before.toList) (after : String) :
    (∃ read, parse (before ++ after) = .ok read) ↔
      ∃ readInserted, parse (before ++ line.text ++ after) = .ok readInserted := by
  obtain ⟨found, split⟩ := outside.segments
  obtain ⟨wholeLine, foundLine, splitLine⟩ := line.below_lines whole outside
  constructor
  · rintro ⟨read, parsed⟩
    obtain ⟨nodes, together, -⟩ := PutTogether.of_parse whole split parsed
    obtain ⟨inserted, togetherLine, -⟩ := together.insert line whole split
    obtain ⟨readInserted, parsedInserted, -⟩ := togetherLine.exists_parse wholeLine
    exact ⟨readInserted, parsedInserted⟩
  · rintro ⟨readInserted, parsedInserted⟩
    obtain ⟨inserted, togetherLine, -⟩ := PutTogether.of_parse wholeLine splitLine parsedInserted
    obtain ⟨nodes, together⟩ := togetherLine.remove whole split
    obtain ⟨read, parsed, -⟩ := together.exists_parse whole
    exact ⟨read, parsed⟩

theorem retold (line : CommentLine) (whole : Whole before.toList)
    (outside : OutsideTags before.toList) (parsed : parse (before ++ after) = .ok read)
    (parsedInserted : parse (before ++ line.text ++ after) = .ok readInserted) :
    ∃ nodes inserted, Retold Eq read nodes ∧ Retold Eq readInserted inserted ∧
      Retold (Displaced (byteLength before.toList) (byteLength (before ++ line.text).toList))
        inserted nodes := by
  obtain ⟨found, split⟩ := outside.segments
  obtain ⟨wholeLine, -⟩ := line.below_lines whole outside
  obtain ⟨nodes, together, toldRead⟩ := PutTogether.of_parse whole split parsed
  obtain ⟨inserted, togetherLine, told⟩ := together.insert line whole split
  obtain ⟨readToo, parsedToo, toldInserted⟩ := togetherLine.exists_parse wholeLine
  obtain rfl : readToo = readInserted := Except.ok.inj (parsedToo.symm.trans parsedInserted)
  exact ⟨nodes, inserted, toldRead, toldInserted, told⟩

end CommentLine

end ThemeRender.Template
