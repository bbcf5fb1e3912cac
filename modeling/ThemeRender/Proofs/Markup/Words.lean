import ThemeRender.Proofs.Markup.Alike
import ThemeRender.Proofs.Markup.LineText
import ThemeRender.Proofs.Text.Marks
import ThemeRender.Proofs.Text.WholeLines
/-!
Words that items write are part of the template that the items are emitted as. Whatever holds other
items emits them with what it adds, or refuses them.
-/

namespace ThemeRender.Markup

open Outcome (except_bind_eq_ok)

/-! Items in a page tree -/

/-- One of the items has the property, or is emitted with one in it that has. -/
inductive Holds (Is : Item → Prop) : List Item → Prop
  | here {item : Item} {rest : List Item} (is : Is item) : Holds Is (item :: rest)
  | inside {construct : Construct} {line : Nat} {span : Span} {nested rest : List Item}
      (nests : construct.nests = true) (holds : Holds Is nested) :
      Holds Is (.mk construct line span nested :: rest)
  | after {item : Item} {rest : List Item} (holds : Holds Is rest) : Holds Is (item :: rest)

namespace Holds

variable {Is : Item → Prop} {items more : List Item}

theorem ne_nil (holds : Holds Is items) : items ≠ [] := by
  rintro rfl
  cases holds

theorem append_right (holds : Holds Is items) (more : List Item) : Holds Is (items ++ more) := by
  induction holds with
  | here is => exact .here is
  | inside nests holds => exact .inside nests holds
  | after _ ih => exact .after ih

theorem append_left (items : List Item) (holds : Holds Is more) : Holds Is (items ++ more) := by
  induction items with
  | nil => exact holds
  | cons item rest ih => exact .after ih

end Holds

/-- Whatever the items hold, the others hold as well. -/
def Reaches (items others : List Item) : Prop :=
  ∀ Is : Item → Prop, Holds Is items → Holds Is others

namespace Reaches

variable {items others more : List Item}

theorem append_right (reaches : Reaches items others) (more : List Item) :
    Reaches items (others ++ more) :=
  fun Is holds => (reaches Is holds).append_right more

theorem append_left (first : List Item) (reaches : Reaches items others) :
    Reaches items (first ++ others) :=
  fun Is holds => (reaches Is holds).append_left first

end Reaches

section

variable {construct : Construct} {line : Nat} {span : Span} {nested : List Item} {depth : Nat}
  {text : List Char}

theorem empty_of_requireLeaf {what : String} {emitted : List Char}
    (leaf : (Item.requireLeaf (.mk construct line span nested) what >>= fun _ => pure text) =
      .ok emitted) : nested = [] ∧ emitted = text := by
  by_cases holds : nested = []
  · obtain ⟨_, _, same⟩ := except_bind_eq_ok.mp leaf
    cases same
    exact ⟨holds, rfl⟩
  · obtain ⟨complaint, fails⟩ := @requireLeaf_error construct line span nested holds what text
    rw [fails] at leaf
    cases leaf

theorem whole_lineAt (depth : Nat) (text : List Char) : Text.Whole (lineAt depth text) :=
  Text.whole_line _

theorem emitItem_parts (emitted : emitItem depth (.mk construct line span nested) = .ok text) :
    (∃ within before body after, emitItems within false nested = .ok body ∧
      text = before ++ body ++ after ∧ Text.Whole before ∧ Text.Whole after) ∨
      Text.Whole text ∧ (construct.nests = true → nested = []) := by
  have wrap {within : Nat} {before after : List Char} (whole : Text.Whole before)
      (wholeAfter : Text.Whole after)
      (emitted : (emitItems within false nested >>= fun body => pure (before ++ body ++ after)) =
        .ok text) :
      ∃ within before body after, emitItems within false nested = .ok body ∧
        text = before ++ body ++ after ∧ Text.Whole before ∧ Text.Whole after := by
    obtain ⟨body, emittedBody, same⟩ := except_bind_eq_ok.mp emitted
    cases same
    exact ⟨within, before, body, after, emittedBody, rfl, whole, wholeAfter⟩
  cases construct with
  | element element =>
      rw [emitItem] at emitted
      split at emitted
      · split at emitted
        · rename_i empty
          cases emitted
          refine .inr ⟨whole_lineAt _ _, fun _ => ?_⟩
          exact List.isEmpty_iff.mp (Bool.and_eq_true_iff.mp empty).2
        · cases emitted
      · split at emitted
        · cases emitted
        · rename_i empty
          cases emitted
          exact .inr ⟨whole_lineAt _ _, fun _ => List.isEmpty_iff.mp empty⟩
        · rename_i empty
          cases emitted
          exact .inr ⟨whole_lineAt _ _, fun _ => List.isEmpty_iff.mp empty⟩
        · exact .inl (wrap (whole_lineAt _ _) (whole_lineAt _ _) emitted)
  | text pieces =>
      rw [emitItem] at emitted
      obtain ⟨empty, rfl⟩ := empty_of_requireLeaf emitted
      exact .inr ⟨whole_lineAt _ _, fun _ => empty⟩
  | output code =>
      rw [emitItem] at emitted
      obtain ⟨empty, rfl⟩ := empty_of_requireLeaf emitted
      exact .inr ⟨whole_lineAt _ _, fun _ => empty⟩
  | code code =>
      rw [emitItem] at emitted
      obtain ⟨empty, rfl⟩ := empty_of_requireLeaf emitted
      exact .inr ⟨whole_lineAt _ _, fun _ => empty⟩
  | control control =>
      cases control with
      | ifBegin condition =>
          rw [emitItem] at emitted
          obtain ⟨body, emittedBody, same⟩ := except_bind_eq_ok.mp emitted
          cases same
          exact .inl ⟨depth, _, body, [], emittedBody, (List.append_nil _).symm, whole_lineAt _ _,
            Text.whole_nil⟩
      | elseBegin =>
          rw [emitItem] at emitted
          exact .inl (wrap (whole_lineAt _ _) (whole_lineAt _ _) emitted)
      | forBegin binding =>
          rw [emitItem] at emitted
          exact .inl (wrap (whole_lineAt _ _) (whole_lineAt _ _) emitted)
  | comment words =>
      rw [emitItem] at emitted
      split at emitted
      · rename_i empty
        cases emitted
        exact .inr ⟨whole_lineAt _ _, fun _ => List.isEmpty_iff.mp empty⟩
      · exact .inl (wrap (whole_lineAt _ _) (whole_lineAt _ _) emitted)
  | doctype kind =>
      rw [emitItem] at emitted
      cases emitted
      exact .inr ⟨whole_lineAt _ _, Bool.noConfusion⟩
  | raw lines =>
      rw [emitItem] at emitted
      cases emitted
      exact .inr ⟨Text.whole_flatMap fun line _ => whole_lineAt _ line, Bool.noConfusion⟩

theorem emitItem_nested (nests : construct.nests = true) (holds : nested ≠ [])
    (emitted : emitItem depth (.mk construct line span nested) = .ok text) :
    ∃ within body, emitItems within false nested = .ok body ∧ Text.LinePart body text := by
  rcases emitItem_parts emitted with ⟨within, before, body, after, emittedBody, rfl, whole, -⟩ | leaf
  · exact ⟨within, body, emittedBody, before, after, rfl, whole⟩
  · exact absurd (leaf.2 nests) holds

mutual

theorem whole_emitItem : ∀ (item : Item) {depth : Nat} {text : List Char},
    emitItem depth item = .ok text → Text.Whole text
  | .mk construct line span nested, depth, text, emitted => by
      rcases emitItem_parts emitted with
        ⟨within, before, body, after, emittedBody, rfl, whole, wholeAfter⟩ | leaf
      · exact (whole.append (whole_emitItems nested emittedBody)).append wholeAfter
      · exact leaf.1

theorem whole_emitItems : ∀ (items : List Item) {depth : Nat} {openIf : Bool} {text : List Char},
    emitItems depth openIf items = .ok text → Text.Whole text
  | [], depth, openIf, text, emitted => by
      rw [emitItems] at emitted
      cases emitted
      exact Text.whole_nil
  | item :: rest, depth, openIf, text, emitted => by
      obtain ⟨-, first, more, emittedItem, emittedRest, rfl⟩ := emitItems_cons emitted
      refine ((whole_emitItem item emittedItem).append ?_).append (whole_emitItems rest emittedRest)
      split
      · exact whole_lineAt _ _
      · exact Text.whole_nil

end

theorem infix_lineAt (depth : Nat) (text : List Char) : text <:+: lineAt depth text :=
  List.infix_append _ text ['\n']

end

theorem emitItems_cons_ok {depth : Nat} {openIf : Bool} {item : Item} {rest : List Item}
    {text : List Char} (emitted : emitItems depth openIf (item :: rest) = .ok text) :
    ∃ first more, emitItem depth item = .ok first ∧
      emitItems depth (item.isIf && startsElse rest) rest = .ok more ∧
      Text.LinePart first text ∧ Text.LinePart more text := by
  obtain ⟨-, first, more, emittedItem, emittedRest, rfl⟩ := emitItems_cons emitted
  refine ⟨first, more, emittedItem, emittedRest, ?_, .append_left ?_ more⟩
  · rw [List.append_assoc]
    exact .append_right first _
  · apply (whole_emitItem item emittedItem).append
    split
    · exact whole_lineAt _ _
    · exact Text.whole_nil

theorem Holds.emitted {Is : Item → Prop} {items : List Item} (holds : Holds Is items) :
    ∀ {depth : Nat} {openIf : Bool} {text : List Char},
      emitItems depth openIf items = .ok text →
        ∃ item within own, Is item ∧ emitItem within item = .ok own ∧ Text.LinePart own text := by
  induction holds with
  | here is =>
      intro depth openIf text emitted
      obtain ⟨first, more, emittedItem, -, part, -⟩ := emitItems_cons_ok emitted
      exact ⟨_, depth, first, is, emittedItem, part⟩
  | inside nests holds ih =>
      intro depth openIf text emitted
      obtain ⟨first, more, emittedItem, -, part, -⟩ := emitItems_cons_ok emitted
      obtain ⟨_, body, emittedBody, inner⟩ := emitItem_nested nests holds.ne_nil emittedItem
      obtain ⟨item, within, own, is, emittedOwn, innermost⟩ := ih emittedBody
      exact ⟨item, within, own, is, emittedOwn, (innermost.trans inner).trans part⟩
  | after _ ih =>
      intro depth openIf text emitted
      obtain ⟨first, more, -, emittedRest, -, part⟩ := emitItems_cons_ok emitted
      obtain ⟨item, within, own, is, emittedOwn, inner⟩ := ih emittedRest
      exact ⟨item, within, own, is, emittedOwn, inner.trans part⟩

/-! Items that write words -/

inductive Item.Writes (words : List Char) : Item → Prop
  | text {pieces : List Piece} {line : Nat} {span : Span} {nested : List Item}
      (part : words <:+: templateOfPieces pieces) :
      Writes words (.mk (.text pieces) line span nested)
  | comment {line : Nat} {span : Span} : Writes words (.mk (.comment words) line span [])
  | raw {lines : List (List Char)} {text : List Char} {line : Nat} {span : Span}
      {nested : List Item} (member : text ∈ lines) (part : words <:+: text) :
      Writes words (.mk (.raw lines) line span nested)

theorem Item.Writes.emitted {words : List Char} {item : Item} (writes : item.Writes words)
    {depth : Nat} {text : List Char} (emitted : emitItem depth item = .ok text) :
    words <:+: text := by
  cases writes with
  | text part =>
      rw [emitItem] at emitted
      obtain ⟨-, rfl⟩ := empty_of_requireLeaf emitted
      exact part.trans (infix_lineAt depth _)
  | comment =>
      rw [emitItem] at emitted
      cases emitted
      exact (List.infix_append _ words _).trans (infix_lineAt depth _)
  | raw member part =>
      rw [emitItem] at emitted
      cases emitted
      have line := List.infix_of_mem_flatten (List.mem_map_of_mem (f := lineAt depth) member)
      exact (part.trans (infix_lineAt depth _)).trans line

abbrev Writes (words : List Char) : List Item → Prop :=
  Holds (Item.Writes words)

theorem Writes.emitted {words : List Char} {items : List Item} (writes : Writes words items)
    {depth : Nat} {openIf : Bool} {text : List Char}
    (emitted : emitItems depth openIf items = .ok text) : words <:+: text := by
  obtain ⟨item, within, own, writesOwn, emittedOwn, part⟩ := Holds.emitted writes emitted
  exact (writesOwn.emitted emittedOwn).trans part.isInfix

/-! Text without expressions -/

theorem templateOfPieces_textPiece (contents : List Char) :
    templateOfPieces (textPiece contents) = contents := by
  cases contents with
  | nil => rfl
  | cons c rest => exact List.append_nil _

theorem interpolate_of_lacks {s : List Char} (lacks : Text.Lacks exprOpen s) :
    interpolate s = .ok (textPiece s) := by
  have noMark : Text.cut? exprOpen s = none := Text.cut?_of_lacks lacks
  rw [interpolate, piecesAfter]
  split
  · rfl
  · rename_i found
    rw [noMark] at found
    cases found

theorem templateOfPieces_interpolate {line : Line} {s : List Char} {pieces : List Piece}
    (lacks : Text.Lacks exprOpen s) (reads : line.check (interpolate s) = .ok pieces) :
    templateOfPieces pieces = s := by
  have same := of_check reads
  rw [interpolate_of_lacks lacks] at same
  cases same
  exact templateOfPieces_textPiece s

theorem writes_text {line : Line} {pieces : List Piece} {inside : List Item}
    {words : List Char} (same : templateOfPieces pieces = words) :
    Writes words [.ofLine line (.text pieces) inside] := by
  subst same
  exact .here (.text (List.infix_refl _))

end ThemeRender.Markup
