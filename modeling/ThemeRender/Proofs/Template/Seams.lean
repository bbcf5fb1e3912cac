import ThemeRender.Proofs.Template.ErrorPlaces
import ThemeRender.Proofs.Text.WholeLines
/-!
Splitting a template in two where a line starts. A tag takes its line by what stands on that line, so
the segments of whole lines do not depend on the text after them, nor those of that text on what
comes before: `segmentsFrom_append` puts the segments of the two together.
-/

namespace ThemeRender

namespace Text

variable {s t : List Char} {a b : Char}

theorem Whole.of_suffix (whole : Whole t) (suffix : s <:+ t) : Whole s := by
  obtain ⟨front, rfl⟩ := suffix
  induction front with
  | nil => exact whole
  | cons c front ih => exact ih whole.of_cons

theorem Whole.getLast?_ne (whole : Whole s) (other : a ≠ '\n') : s.getLast? ≠ some a := by
  intro last
  exact other (whole a last)

theorem Whole.feed_mem (whole : Whole s) (some : s ≠ []) : '\n' ∈ s := by
  have last := List.getLast?_eq_some_getLast some
  rw [← whole _ last]
  exact List.getLast_mem some

theorem cut?_append {before after : List Char} (different : a ≠ b)
    (cut : cut? [a, b] s = some (before, after)) (t : List Char) :
    cut? [a, b] (s ++ t) = some (before, after ++ t) := by
  have split : s ++ t = before ++ a :: b :: (after ++ t) := by
    rw [cut?_eq_some cut]
    simp
  rw [split]
  exact cut?_mark different (lacks_before_cut? cut) _

theorem cut?_append_of_lacks (different : a ≠ b) (noFeed : a ≠ '\n') (lacks : Lacks [a, b] s)
    (whole : Whole s) (t : List Char) :
    cut? [a, b] (s ++ t) = (cut? [a, b] t).map fun parts => (s ++ parts.1, parts.2) := by
  have apart (rest : List Char) (lacksRest : Lacks [a, b] rest) : Lacks [a, b] (s ++ rest) :=
    lacks.append lacksRest (.inl (whole.getLast?_ne noFeed))
  cases cut : cut? [a, b] t with
  | none => exact cut?_of_lacks (apart t (lacks_of_cut?_none cut))
  | some parts =>
      obtain ⟨before, after⟩ := parts
      have split : s ++ t = (s ++ before) ++ a :: b :: after := by
        rw [cut?_eq_some cut]
        simp
      rw [split]
      exact cut?_mark different (apart before (lacks_before_cut? cut)) after

end Text

namespace Template

open Text (Whole byteLength)

variable {s : List Char} {offset : Nat} {atLineStart : Bool} {found : List Segment}

/-! Whether a tag takes its line -/

theorem withoutIndent?_append (whole : Whole s) (starts : s = [] → atLineStart = true)
    (t : List Char) :
    withoutIndent? atLineStart (s ++ t) = (withoutIndent? true t).map (s ++ ·) := by
  induction s generalizing atLineStart with
  | nil =>
      rw [starts rfl]
      exact Option.map_id_apply.symm
  | cons c rest ih =>
      have startsRest : rest = [] → (c == '\n') = true := by
        rintro rfl
        simpa using whole c rfl
      -- a line that ends before `t` is no indentation of what stands in `t`
      have busy : ((c :: (rest ++ t)).all isIndent) = false := by
        rw [Bool.eq_false_iff]
        intro indent
        have member := whole.feed_mem (List.cons_ne_nil c rest)
        exact not_mem_feed_of_indent indent (List.mem_append_left t member)
      rw [List.cons_append, withoutIndent?, busy, Bool.and_false, if_neg Bool.false_ne_true,
        ih whole.of_cons startsRest, Option.map_map]
      rfl

theorem afterLineBreak?_append (whole : Whole s) (some : s ≠ []) (t : List Char) :
    afterLineBreak? (s ++ t) = (afterLineBreak? s).map (· ++ t) := by
  match s with
  | [] => exact absurd rfl some
  | [c] =>
      rw [whole c rfl]
      rfl
  | c :: d :: rest =>
      rw [List.cons_append, List.cons_append]
      unfold afterLineBreak?
      split <;> simp_all

theorem wholeLine?_append_left (whole : Whole s) (starts : s = [] → atLineStart = true)
    (kind : TagKind) (before after : List Char) :
    wholeLine? kind atLineStart (s ++ before) after =
      (wholeLine? kind true before after).map fun parts => (s ++ parts.1, parts.2) := by
  unfold wholeLine?
  rw [withoutIndent?_append whole starts]
  cases withoutIndent? true before <;> cases afterLineBreak? after <;> split <;> rfl

theorem wholeLine?_append_right {after : List Char} (whole : Whole after) (some : after ≠ [])
    (kind : TagKind) (atLineStart : Bool) (before t : List Char) :
    wholeLine? kind atLineStart before (after ++ t) =
      (wholeLine? kind atLineStart before after).map fun parts => (parts.1, parts.2 ++ t) := by
  unfold wholeLine?
  rw [afterLineBreak?_append whole some]
  cases withoutIndent? atLineStart before <;> cases afterLineBreak? after <;> split <;> rfl

/-! Segments put together -/

/-- The segments of two texts in a row; text at the end of the one and at the start of the other is one
text. -/
def joined : List Segment → List Segment → List Segment
  | [], more => more
  | [.text first], .text second :: more => .text (first ++ second) :: more
  | segment :: rest, more => segment :: joined rest more

theorem joined_textSegment (s t : List Char) :
    joined (textSegment s) (textSegment t) = textSegment (s ++ t) := by
  cases s <;> cases t <;> simp [textSegment, joined]

theorem joined_tag_right (s t : List Char) (kind : TagKind) (code : List Char) (place : Nat)
    (span : Span) (more : List Segment) :
    joined (textSegment s) (textSegment t ++ .tag kind code place span :: more) =
      textSegment (s ++ t) ++ .tag kind code place span :: more := by
  cases s <;> cases t <;> simp [textSegment, joined]

theorem joined_tag_left (s : List Char) (kind : TagKind) (code : List Char) (place : Nat)
    (span : Span) (rest more : List Segment) :
    joined (textSegment s ++ .tag kind code place span :: rest) more =
      textSegment s ++ .tag kind code place span :: joined rest more := by
  cases s <;> simp [textSegment, joined]

theorem segmentsFrom_unclosed {before opened : List Char}
    (opens : Text.cut? tagOpen s = some (before, opened))
    (unclosed : Text.cut? tagClose (TagKind.ofText opened).2 = none) (offset : Nat)
    (atLineStart : Bool) :
    segmentsFrom offset atLineStart s =
      .error ⟨⟨offset + byteLength before, offset + byteLength s⟩, .unterminatedTag⟩ := by
  rw [segmentsFrom]
  split
  · rename_i none
    rw [opens] at none
    cases none
  · rename_i again
    rw [opens] at again
    cases again
    simp only
    split
    · rfl
    · rename_i closes
      rw [unclosed] at closes
      cases closes

theorem segmentsFrom_append_of_lacks (lacks : Text.Lacks tagOpen s) (whole : Whole s)
    (starts : s = [] → atLineStart = true) (offset : Nat) (t : List Char) :
    segmentsFrom offset atLineStart (s ++ t) =
      (segmentsFrom (offset + byteLength s) true t).map (joined (textSegment s)) := by
  have cut := Text.cut?_append_of_lacks (by decide) (by decide) lacks whole t
  cases opens : Text.cut? tagOpen t with
  | none =>
      have none : Text.cut? tagOpen (s ++ t) = none := by
        rw [tagOpen] at opens ⊢
        rw [cut, opens, Option.map_none]
      rw [segmentsFrom_last (Text.lacks_of_cut?_none opens),
        segmentsFrom_last (Text.lacks_of_cut?_none none), Except.map, joined_textSegment]
  | some parts =>
      obtain ⟨before, opened⟩ := parts
      have opensWhole : Text.cut? tagOpen (s ++ t) = some (s ++ before, opened) := by
        rw [tagOpen] at opens ⊢
        rw [cut, opens, Option.map_some]
      cases closes : Text.cut? tagClose (TagKind.ofText opened).2 with
      | none =>
          rw [segmentsFrom_unclosed opens closes, segmentsFrom_unclosed opensWhole closes]
          simp only [Text.byteLength_append, Nat.add_assoc]
          rfl
      | some parts =>
          obtain ⟨code, after⟩ := parts
          rw [segmentsFrom_cut opens closes, segmentsFrom_cut opensWhole closes,
            wholeLine?_append_left whole starts]
          simp only [Text.byteLength_append, ← Nat.add_assoc]
          cases wholeLine? (TagKind.ofText opened).1 true before after with
          | none =>
              simp only [Option.map_none]
              cases segmentsFrom _ false after with
              | error => rfl
              | ok more => exact congrArg Except.ok (joined_tag_right s before _ _ _ _ more).symm
          | some parts =>
              simp only [Option.map_some]
              cases segmentsFrom _ true parts.2 with
              | error => rfl
              | ok more => exact congrArg Except.ok (joined_tag_right s parts.1 _ _ _ _ more).symm

section

variable {before opened code after : List Char}

theorem place_append (offset : Nat) (s t rest : List Char) :
    offset + byteLength (s ++ t) - byteLength (rest ++ t) =
      offset + byteLength s - byteLength rest := by
  simp only [Text.byteLength_append]
  omega

theorem place_of_suffix {rest : List Char} (offset : Nat) (suffix : rest <:+ s) :
    offset + byteLength s - byteLength rest + byteLength rest = offset + byteLength s := by
  obtain ⟨front, rfl⟩ := suffix
  rw [Text.byteLength_append]
  omega

theorem ofText_append (some : opened ≠ []) (t : List Char) :
    TagKind.ofText (opened ++ t) =
      ((TagKind.ofText opened).1, (TagKind.ofText opened).2 ++ t) := by
  cases opened with
  | nil => exact absurd rfl some
  | cons c rest =>
      rw [List.cons_append]
      unfold TagKind.ofText
      split <;> simp_all

theorem opened_ne_nil (closes : Text.cut? tagClose (TagKind.ofText opened).2 = some (code, after)) :
    opened ≠ [] := by
  rintro rfl
  cases closes

theorem whole_after_tag (whole : Whole s) (opens : Text.cut? tagOpen s = some (before, opened))
    (closes : Text.cut? tagClose (TagKind.ofText opened).2 = some (code, after)) :
    Whole after ∧ after ≠ [] ∧ after <:+ s := by
  obtain ⟨-, suffix⟩ := placed_tag opens rfl closes (.whole s)
  refine ⟨whole.of_suffix suffix, ?_, suffix⟩
  rintro rfl
  rcases tag : TagKind.ofText opened with ⟨kind, inner⟩
  rw [tag] at closes
  have inside : inner = code ++ tagClose ++ [] := Text.cut?_eq_some closes
  have split : s = before ++ (tagOpen ++ (kind.sign ++ (code ++ tagClose))) := by
    rw [Text.cut?_eq_some opens, sign_of_ofText tag, inside]
    simp
  have last : s.getLast? = some '>' := by
    rw [split]
    simp [tagClose, List.getLast?_append]
  exact absurd last (whole.getLast?_ne (by decide))

theorem segmentsFrom_cut_append (whole : Whole s)
    (opens : Text.cut? tagOpen s = some (before, opened))
    (closes : Text.cut? tagClose (TagKind.ofText opened).2 = some (code, after)) (offset : Nat)
    (atLineStart : Bool) (t : List Char) :
    segmentsFrom offset atLineStart (s ++ t) =
      match wholeLine? (TagKind.ofText opened).1 atLineStart before after with
      | some (before', next) =>
          (segmentsFrom (offset + byteLength s - byteLength next) true (next ++ t)).map
            fun segments => textSegment before' ++ .tag (TagKind.ofText opened).1 code
              (offset + byteLength s - byteLength (TagKind.ofText opened).2)
              ⟨offset + byteLength before, offset + byteLength s - byteLength after⟩ :: segments
      | none =>
          (segmentsFrom (offset + byteLength s - byteLength after) false (after ++ t)).map
            fun segments => textSegment before ++ .tag (TagKind.ofText opened).1 code
              (offset + byteLength s - byteLength (TagKind.ofText opened).2)
              ⟨offset + byteLength before, offset + byteLength s - byteLength after⟩ :: segments := by
  obtain ⟨wholeAfter, nonempty, -⟩ := whole_after_tag whole opens closes
  have kind := ofText_append (opened_ne_nil closes) t
  have opensMore : Text.cut? tagOpen (s ++ t) = some (before, opened ++ t) :=
    Text.cut?_append (by decide) opens t
  have closesMore : Text.cut? tagClose (TagKind.ofText (opened ++ t)).2 =
      some (code, after ++ t) := by
    rw [kind]
    exact Text.cut?_append (by decide) closes t
  rw [segmentsFrom_cut opensMore closesMore, kind, wholeLine?_append_right wholeAfter nonempty]
  simp only [place_append]
  cases wholeLine? (TagKind.ofText opened).1 atLineStart before after with
  | none => rfl
  | some parts => simp only [Option.map_some, place_append]

end

theorem segmentsFrom_append (whole : Whole s) (starts : s = [] → atLineStart = true)
    (read : segmentsFrom offset atLineStart s = .ok found) (t : List Char) :
    segmentsFrom offset atLineStart (s ++ t) =
      (segmentsFrom (offset + byteLength s) true t).map (joined found) := by
  fun_induction segmentsFrom offset atLineStart s generalizing found with
  | case1 offset atLineStart s none =>
      cases read
      exact segmentsFrom_append_of_lacks (Text.lacks_of_cut?_none none) whole starts offset t
  | case2 => cases read
  | case3 offset atLineStart s before opened opens _ _ inner _ code rest closes _ _ before' next
      line =>
      rename_i ih
      obtain ⟨more, readMore, rfl⟩ := Outcome.of_map_ok read
      obtain ⟨wholeRest, nonempty, suffix⟩ := whole_after_tag whole opens closes
      have suffixNext := suffix_of_afterLineBreak? (breaks_of_wholeLine? line)
      have place := place_of_suffix offset (suffixNext.trans suffix)
      have readNext := ih (wholeRest.of_suffix suffixNext) (fun _ => rfl) readMore
      rw [place] at readNext
      rw [segmentsFrom_cut_append whole opens closes, line]
      dsimp only
      rw [readNext]
      cases segmentsFrom _ true t with
      | error => rfl
      | ok later => exact congrArg Except.ok (joined_tag_left _ _ _ _ _ more later).symm
  | case4 offset atLineStart s before opened opens _ _ inner _ code rest closes _ _ line =>
      rename_i ih
      obtain ⟨more, readMore, rfl⟩ := Outcome.of_map_ok read
      obtain ⟨wholeRest, nonempty, suffix⟩ := whole_after_tag whole opens closes
      have place := place_of_suffix offset suffix
      have readRest := ih wholeRest (fun none => absurd none nonempty) readMore
      rw [place] at readRest
      rw [segmentsFrom_cut_append whole opens closes, line]
      dsimp only
      rw [readRest]
      cases segmentsFrom _ true t with
      | error => rfl
      | ok later => exact congrArg Except.ok (joined_tag_left _ _ _ _ _ more later).symm

/-! Another place -/

def Segment.shift (distance : Nat) : Segment → Segment
  | .text contents => .text contents
  | .tag kind code offset span => .tag kind code (offset + distance) (span.shift distance)

theorem map_shift_textSegment (distance : Nat) (s : List Char) :
    (textSegment s).map (Segment.shift distance) = textSegment s := by
  unfold textSegment
  split <;> rfl

theorem inner_suffix {before opened : List Char}
    (opens : Text.cut? tagOpen s = some (before, opened)) : (TagKind.ofText opened).2 <:+ s := by
  have sign := sign_of_ofText (Prod.eta (TagKind.ofText opened)).symm
  refine ⟨before ++ tagOpen ++ (TagKind.ofText opened).1.sign, ?_⟩
  rw [List.append_assoc, ← sign]
  exact (Text.cut?_eq_some opens).symm

theorem place_shift {rest : List Char} (offset distance : Nat) (suffix : rest <:+ s) :
    offset + distance + byteLength s - byteLength rest =
      offset + byteLength s - byteLength rest + distance := by
  obtain ⟨front, rfl⟩ := suffix
  rw [Text.byteLength_append]
  omega

theorem segmentsFrom_shift (read : segmentsFrom offset atLineStart s = .ok found) (distance : Nat) :
    segmentsFrom (offset + distance) atLineStart s = .ok (found.map (Segment.shift distance)) := by
  fun_induction segmentsFrom offset atLineStart s generalizing found with
  | case1 offset atLineStart s none =>
      cases read
      rw [segmentsFrom_last (Text.lacks_of_cut?_none none), map_shift_textSegment]
  | case2 => cases read
  | case3 offset atLineStart s before opened opens _ _ inner _ code rest closes _ _ before' next
      line =>
      rename_i ih
      obtain ⟨more, readMore, rfl⟩ := Outcome.of_map_ok read
      obtain ⟨-, suffix⟩ := placed_tag opens rfl closes (.whole s)
      have suffixNext := (suffix_of_afterLineBreak? (breaks_of_wholeLine? line)).trans suffix
      rw [segmentsFrom_cut opens closes, line]
      dsimp only
      rw [place_shift offset distance suffixNext, ih readMore, place_shift offset distance suffix,
        place_shift offset distance (inner_suffix opens), Nat.add_right_comm offset]
      simp only [Except.map, List.map_append, map_shift_textSegment, List.map_cons]
      rfl
  | case4 offset atLineStart s before opened opens _ kind inner _ code rest closes _ _ line =>
      rename_i ih
      obtain ⟨more, readMore, rfl⟩ := Outcome.of_map_ok read
      obtain ⟨-, suffix⟩ := placed_tag opens rfl closes (.whole s)
      rw [segmentsFrom_cut opens closes, line]
      dsimp only
      rw [place_shift offset distance suffix, ih readMore,
        place_shift offset distance (inner_suffix opens), Nat.add_right_comm offset]
      simp only [Except.map, List.map_append, map_shift_textSegment, List.map_cons]
      rfl

end Template

end ThemeRender
