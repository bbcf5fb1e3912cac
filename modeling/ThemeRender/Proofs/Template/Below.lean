import ThemeRender.Proofs.Template.Retold
import ThemeRender.Proofs.Template.Seams
/-!
Reading lines and the text after them by themselves. Together they make the moves of the lines and
then those of the text after them, moved on by the length of the lines, except that text across the
seam is one text. `PutTogether` is about the nodes that this gives.
-/

namespace ThemeRender

theorem Spanned.shift_shift {α : Type} (x : Spanned α) (a b : Nat) :
    (x.shift a).shift b = x.shift (a + b) :=
  congrArg (Spanned.mk x.node) (x.span.shift_shift a b)

namespace Template

open Text (Whole byteLength)

variable {found more : List Segment} {first second moves all : List Move}

theorem Directive.shift_shift (directive : Directive) (a b : Nat) :
    (directive.shift a).shift b = directive.shift (a + b) := by
  cases directive <;> simp only [shift, Spanned.shift_shift]

/-! Moves at another place -/

def Move.shift (distance : Nat) : Move → Move
  | .text contents => .text contents
  | .output value => .output (value.shift distance)
  | .tag directive span => .tag (directive.shift distance) (span.shift distance)

theorem Move.shift_zero (move : Move) : move.shift 0 = move := by
  cases move with
  | text | output => rfl
  | tag directive span => cases directive <;> rfl

theorem map_shift_zero (moves : List Move) : moves.map (Move.shift 0) = moves := by
  rw [funext Move.shift_zero, List.map_id']

theorem Move.Alike.shift {Same : Spanned Expr → Spanned Expr → Prop} {distance distance' : Nat}
    (same : ∀ value : Spanned Expr, Same (value.shift distance) (value.shift distance'))
    (move : Move) : (move.shift distance).Alike Same (move.shift distance') := by
  cases move with
  | text contents => exact .text contents
  | output value => exact .output (same value)
  | tag directive span =>
      refine .tag ?_ _ _
      cases directive with
      | ifBegin condition => exact .ifBegin (same condition)
      | elseBegin => exact .elseBegin
      | blockEnd => exact .blockEnd
      | forBegin name items => exact .forBegin name (same items)
      | eval code => exact .eval (same code)

theorem MovesRetold.shift {Same : Spanned Expr → Spanned Expr → Prop} {distance distance' : Nat}
    (same : ∀ value : Spanned Expr, Same (value.shift distance) (value.shift distance'))
    (moves : List Move) :
    MovesRetold Same (moves.map (Move.shift distance)) (moves.map (Move.shift distance')) := by
  induction moves with
  | nil => exact .nil
  | cons move moves ih => exact .move (.shift same move) ih

theorem Moves.shift (does : Moves found moves) (distance : Nat) :
    Moves (found.map (Segment.shift distance)) (moves.map (Move.shift distance)) := by
  induction does with
  | nil => exact .nil
  | text contents _ ih => exact .text contents ih
  | comment code offset span _ ih => exact .comment code _ _ ih
  | output offset span read _ ih =>
      rw [List.map_cons, List.map_cons, Move.shift, Spanned.shift_shift]
      exact .output (offset + distance) (span.shift distance) read ih
  | code offset span read _ ih =>
      rw [List.map_cons, List.map_cons, Move.shift, Directive.shift_shift]
      exact .code (offset + distance) (span.shift distance) read ih

theorem Moves.of_shift {distance : Nat} (does : Moves (found.map (Segment.shift distance)) all) :
    ∃ moves, Moves found moves ∧ all = moves.map (Move.shift distance) := by
  induction found generalizing all with
  | nil =>
      cases does
      exact ⟨[], .nil, rfl⟩
  | cons segment found ih => cases segment with
    | text contents =>
        cases does with
        | text _ rest =>
            obtain ⟨moves, does, rfl⟩ := ih rest
            exact ⟨_, .text contents does, rfl⟩
    | tag kind code offset span =>
        cases does with
        | output _ _ read rest =>
            obtain ⟨moves, does, rfl⟩ := ih rest
            refine ⟨_, .output offset span read does, ?_⟩
            rw [List.map_cons, Move.shift, Spanned.shift_shift]
        | code _ _ read rest =>
            obtain ⟨moves, does, rfl⟩ := ih rest
            refine ⟨_, .code offset span read does, ?_⟩
            rw [List.map_cons, Move.shift, Directive.shift_shift]
        | comment _ _ _ rest =>
            obtain ⟨moves, does, rfl⟩ := ih rest
            exact ⟨_, .comment code offset span does, rfl⟩

/-! Moves in a row -/

theorem Moves.append_iff : Moves (found ++ more) all ↔
    ∃ first second, Moves found first ∧ Moves more second ∧ all = first ++ second := by
  constructor
  · intro does
    induction found generalizing all with
    | nil => exact ⟨[], all, .nil, does, rfl⟩
    | cons segment found ih =>
        cases does with
        | text contents rest =>
            obtain ⟨first, second, does, doesMore, rfl⟩ := ih rest
            exact ⟨_, second, .text contents does, doesMore, rfl⟩
        | output offset span read rest =>
            obtain ⟨first, second, does, doesMore, rfl⟩ := ih rest
            exact ⟨_, second, .output offset span read does, doesMore, rfl⟩
        | code offset span read rest =>
            obtain ⟨first, second, does, doesMore, rfl⟩ := ih rest
            exact ⟨_, second, .code offset span read does, doesMore, rfl⟩
        | comment code offset span rest =>
            obtain ⟨first, second, does, doesMore, rfl⟩ := ih rest
            exact ⟨_, second, .comment code offset span does, doesMore, rfl⟩
  · rintro ⟨first, second, does, doesMore, rfl⟩
    induction does with
    | nil => exact doesMore
    | text contents _ ih => exact .text contents ih
    | output offset span read _ ih => exact .output offset span read ih
    | code offset span read _ ih => exact .code offset span read ih
    | comment code offset span _ ih => exact .comment code offset span ih

theorem joined_cases (found more : List Segment) :
    joined found more = found ++ more ∨ ∃ front x y back, found = front ++ [.text x] ∧
      more = .text y :: back ∧ joined found more = front ++ .text (x ++ y) :: back := by
  fun_induction joined found more with
  | case1 => exact .inl rfl
  | case2 x y back => exact .inr ⟨[], x, y, back, rfl, rfl, rfl⟩
  | case3 segment found more _ ih =>
      rcases ih with apart | ⟨front, x, y, back, rfl, rfl, same⟩
      · exact .inl (congrArg (segment :: ·) apart)
      · exact .inr ⟨segment :: front, x, y, back, rfl, rfl, congrArg (segment :: ·) same⟩

theorem Moves.joined (does : Moves found first) (doesMore : Moves more second) :
    ∃ all, Moves (joined found more) all ∧ MovesRetold Eq all (first ++ second) := by
  rcases joined_cases found more with apart | ⟨front, x, y, back, rfl, rfl, same⟩
  · exact ⟨_, apart ▸ append_iff.mpr ⟨first, second, does, doesMore, rfl⟩, .rfl _⟩
  · obtain ⟨before, last, doesBefore, doesLast, rfl⟩ := append_iff.mp does
    cases doesLast with
    | text _ none =>
        cases none
        cases doesMore with
        | @text _ _ after doesAfter =>
            refine ⟨before ++ .text (String.ofList (x ++ y)) :: after, ?_, ?_⟩
            · rw [same]
              exact append_iff.mpr ⟨before, _, doesBefore, .text (x ++ y) doesAfter, rfl⟩
            · rw [String.ofList_append, List.append_assoc]
              exact MovesRetold.append (.rfl before) (.split _ _ (.rfl after))

theorem Moves.of_joined (does : Moves (Template.joined found more) all) :
    ∃ first second, Moves found first ∧ Moves more second ∧ MovesRetold Eq all (first ++ second) := by
  rcases joined_cases found more with apart | ⟨front, x, y, back, rfl, rfl, same⟩
  · rw [apart] at does
    obtain ⟨first, second, doesFound, doesMore, rfl⟩ := append_iff.mp does
    exact ⟨first, second, doesFound, doesMore, .rfl _⟩
  · rw [same] at does
    obtain ⟨before, last, doesBefore, doesLast, rfl⟩ := append_iff.mp does
    cases doesLast with
    | @text _ _ after doesAfter =>
        refine ⟨before ++ [.text (String.ofList x)], .text (String.ofList y) :: after, ?_, ?_, ?_⟩
        · exact append_iff.mpr ⟨before, _, doesBefore, .text x .nil, rfl⟩
        · exact .text y doesAfter
        · rw [String.ofList_append, List.append_assoc]
          exact MovesRetold.append (.rfl before) (.split _ _ (.rfl after))

/-! Lines, and the text after them -/

def Makes (source : String) (moves : List Move) : Prop :=
  ∃ found, segments source.toList = .ok found ∧ Moves found moves

theorem parse_eq_ok_iff_makes {source : String} {nodes : List Node} :
    parse source = .ok nodes ↔
      ∃ moves, Makes source moves ∧ Assembly.empty.run moves = .ok ⟨[], nodes⟩ := by
  rw [parse_eq_ok_iff]
  constructor
  · rintro ⟨found, moves, split, does, ran⟩
    exact ⟨moves, ⟨found, split, does⟩, ran⟩
  · rintro ⟨moves, ⟨found, split, does⟩, ran⟩
    exact ⟨found, moves, split, does, ran⟩

theorem Makes.within {source : String} (makes : Makes source moves) :
    ∀ place ∈ moves.flatMap Move.places, place.2.span.start ≤ byteLength source.toList := by
  obtain ⟨found, split, does⟩ := makes
  intro place member
  obtain ⟨_, _, _, _, exprAt⟩ := (does.isReadFrom place member).exprAt split
  exact exprAt.nonempty.le.trans exprAt.covers.stop_le

section

variable {s t : List Char}

theorem segments_append (whole : Whole s) (split : segments s = .ok found)
    (splitAfter : segments t = .ok more) :
    segments (s ++ t) = .ok (joined found (more.map (Segment.shift (byteLength s)))) := by
  have shifted := segmentsFrom_shift splitAfter (byteLength s)
  rw [segments, segmentsFrom_append whole (fun _ => rfl) split, shifted]
  rfl

theorem of_segments_append {apart : List Segment} (whole : Whole s) (split : segments s = .ok found)
    (splitBoth : segments (s ++ t) = .ok apart) :
    ∃ more, segments t = .ok more ∧
      apart = joined found (more.map (Segment.shift (byteLength s))) := by
  have both := splitBoth
  rw [segments, segmentsFrom_append whole (fun _ => rfl) split] at both
  obtain ⟨_, below, -⟩ := Outcome.of_map_ok both
  obtain ⟨layout, rfl⟩ := layout_of_segmentsFrom below
  obtain ⟨more, splitAfter, -⟩ := segments_layout layout
  rw [segments_append whole split splitAfter] at splitBoth
  exact ⟨more, splitAfter, (Except.ok.inj splitBoth).symm⟩

end

variable {before after : String}

theorem Makes.append (whole : Whole before.toList) (makes : Makes before first)
    (makesAfter : Makes after second) :
    ∃ all, Makes (before ++ after) all ∧
      MovesRetold Eq all (first ++ second.map (Move.shift (byteLength before.toList))) := by
  obtain ⟨found, split, does⟩ := makes
  obtain ⟨more, splitAfter, doesAfter⟩ := makesAfter
  obtain ⟨all, doesAll, told⟩ := does.joined (doesAfter.shift (byteLength before.toList))
  refine ⟨all, ⟨_, ?_, doesAll⟩, told⟩
  rw [String.toList_append]
  exact segments_append whole split splitAfter

theorem Makes.of_append (whole : Whole before.toList) (split : segments before.toList = .ok found)
    (makes : Makes (before ++ after) all) :
    ∃ first second, Makes before first ∧ Makes after second ∧
      MovesRetold Eq all (first ++ second.map (Move.shift (byteLength before.toList))) := by
  obtain ⟨apart, splitBoth, does⟩ := makes
  rw [String.toList_append] at splitBoth
  obtain ⟨more, splitAfter, rfl⟩ := of_segments_append whole split splitBoth
  obtain ⟨first, below, doesFirst, doesBelow, told⟩ := does.of_joined
  obtain ⟨second, doesSecond, rfl⟩ := doesBelow.of_shift
  exact ⟨first, second, ⟨found, split, doesFirst⟩, ⟨more, splitAfter, doesSecond⟩, told⟩

/-- The nodes that come of the moves of lines and of the text after them, each read by itself. -/
def PutTogether (before after : String) (nodes : List Node) : Prop :=
  ∃ first second, Makes before first ∧ Makes after second ∧
    Assembly.empty.run (first ++ second.map (Move.shift (byteLength before.toList))) =
      .ok ⟨[], nodes⟩

theorem PutTogether.exists_parse {nodes : List Node} (whole : Whole before.toList)
    (together : PutTogether before after nodes) :
    ∃ read, parse (before ++ after) = .ok read ∧ Retold Eq read nodes := by
  obtain ⟨first, second, makes, makesAfter, ran⟩ := together
  obtain ⟨all, makesAll, told⟩ := makes.append whole makesAfter
  obtain ⟨read, ranAll, toldNodes⟩ := ((Assembled.start Eq []).run_closed told).2 nodes ran
  exact ⟨read, parse_eq_ok_iff_makes.mpr ⟨all, makesAll, ranAll⟩, toldNodes⟩

theorem PutTogether.of_parse {read : List Node} (whole : Whole before.toList)
    (split : segments before.toList = .ok found) (parsed : parse (before ++ after) = .ok read) :
    ∃ nodes, PutTogether before after nodes ∧ Retold Eq read nodes := by
  obtain ⟨all, makesAll, ranAll⟩ := parse_eq_ok_iff_makes.mp parsed
  obtain ⟨first, second, makes, makesAfter, told⟩ := makesAll.of_append whole split
  obtain ⟨_, nodes, rfl, ran, toldNodes⟩ :=
    ((Assembled.start Eq []).run_closed told).1 read ranAll
  exact ⟨nodes, ⟨first, second, makes, makesAfter, ran⟩, toldNodes⟩

theorem PutTogether.of_parses {nodes nodesAfter : List Node} (parsed : parse before = .ok nodes)
    (parsedAfter : parse after = .ok nodesAfter) :
    ∃ below, PutTogether before after (nodes ++ below) ∧
      Retold (fun moved value => moved = value.shift (byteLength before.toList)) below
        nodesAfter := by
  obtain ⟨first, makes, ran⟩ := parse_eq_ok_iff_makes.mp parsed
  obtain ⟨second, makesAfter, ranAfter⟩ := parse_eq_ok_iff_makes.mp parsedAfter
  have told : MovesRetold (fun moved value => moved = value.shift (byteLength before.toList))
      (second.map (Move.shift (byteLength before.toList))) (second.map (Move.shift 0)) := by
    apply MovesRetold.shift
    intro value
    rfl
  rw [map_shift_zero] at told
  obtain ⟨below, ranBelow, toldBelow⟩ :=
    ((Assembled.start _ nodes).run_closed told).2 nodesAfter ranAfter
  refine ⟨below, ⟨first, second, makes, makesAfter, ?_⟩, toldBelow⟩
  rw [Assembly.run_append ran]
  exact ranBelow

end Template

end ThemeRender
