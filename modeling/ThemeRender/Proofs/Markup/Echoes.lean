import ThemeRender.Proofs.Markup.Interpretation
import ThemeRender.Proofs.Outcome

namespace ThemeRender.Markup

open Outcome (Alongside)

variable {α : Type} {At : Line → Line → Prop}

/-- The same fault in two lines that correspond, in the whole line or from some point on. -/
inductive Echoes (At : Line → Line → Prop) : Complaint → Complaint → Prop
  | whole {line other : Line} (place : At line other) (fault : CompileFault) :
      Echoes At (line.complain fault) (other.complain fault)
  | ending {line other : Line} (place : At line other) {rest : List Char}
      (part : rest <:+ line.text) (fault : CompileFault) :
      Echoes At (line.complainFrom rest fault) (other.complainFrom rest fault)

namespace Echoes

variable {complaint complaintToo : Complaint}

theorem same_fault (echoes : Echoes At complaint complaintToo) :
    complaint.fault = complaintToo.fault := by
  cases echoes with
  | whole => rfl
  | ending => rfl

theorem lines (echoes : Echoes At complaint complaintToo) :
    ∃ line other, At line other ∧ complaint.line = line.number ∧
      complaintToo.line = other.number := by
  cases echoes with
  | whole place fault => exact ⟨_, _, place, rfl, rfl⟩
  | ending place part fault => exact ⟨_, _, place, rfl, rfl⟩

end Echoes

abbrev Echoed (At : Line → Line → Prop) : Except Complaint α → Except Complaint α → Prop :=
  Alongside (Echoes At) (· = ·)

namespace Echoed

variable {β γ : Type} {After : β → γ → Prop} {first firstToo : Except Complaint α}

theorem bind {next : α → Except Complaint β} {nextToo : α → Except Complaint γ}
    (echoed : Echoed At first firstToo)
    (nextEchoed : ∀ a, first = .ok a → Alongside (Echoes At) After (next a) (nextToo a)) :
    Alongside (Echoes At) After (first >>= next) (firstToo >>= nextToo) := by
  cases echoed with
  | error echoes => exact .error echoes
  | ok same =>
      cases same
      exact nextEchoed _ rfl

theorem map (echoed : Echoed At first firstToo) (f : α → β) :
    Echoed At (first.map f) (firstToo.map f) :=
  Alongside.map echoed fun _ _ => congrArg f

theorem check {line other : Line} (place : At line other) (result : Except CompileFault α) :
    Echoed At (line.check result) (other.check result) := by
  cases result with
  | error fault => exact .error (.whole place fault)
  | ok a => exact .ok rfl

end Echoed

/-- The items are alike except for the lines they stand in, which correspond. -/
inductive Matched (At : Line → Line → Prop) : List Item → List Item → Prop
  | nil : Matched At [] []
  | cons (construct : Construct) {line other : Line} (place : At line other)
      {nested nestedToo rest restToo : List Item} (inside : Matched At nested nestedToo)
      (after : Matched At rest restToo) :
      Matched At (.ofLine line construct nested :: rest) (.ofLine other construct nestedToo :: restToo)

namespace Matched

variable {items itemsToo more moreToo : List Item}

theorem single (construct : Construct) {line other : Line} (place : At line other)
    (inside : Matched At items itemsToo) :
    Matched At [.ofLine line construct items] [.ofLine other construct itemsToo] :=
  .cons construct place inside .nil

theorem append (matched : Matched At items itemsToo) (after : Matched At more moreToo) :
    Matched At (items ++ more) (itemsToo ++ moreToo) := by
  induction matched with
  | nil => exact after
  | cons construct place inside _ _ ih => exact .cons construct place inside ih

theorem isEmpty (matched : Matched At items itemsToo) : items.isEmpty = itemsToo.isEmpty := by
  cases matched with
  | nil => rfl
  | cons => rfl

theorem startsElse (matched : Matched At items itemsToo) :
    Markup.startsElse items = Markup.startsElse itemsToo := by
  cases matched with
  | nil => rfl
  | cons => rfl

end Matched

section

variable {construct : Construct} {line other : Line} {nested nestedToo : List Item}

theorem requireLeaf_echoed (place : At line other) (inside : Matched At nested nestedToo)
    (what : String) (text : List Char) :
    Echoed At (Item.requireLeaf (.ofLine line construct nested) what >>= fun _ => pure text)
      (Item.requireLeaf (.ofLine other construct nestedToo) what >>= fun _ => pure text) := by
  have same : (Item.ofLine line construct nested).nested.isEmpty =
      (Item.ofLine other construct nestedToo).nested.isEmpty := inside.isEmpty
  unfold Item.requireLeaf
  rw [same]
  split
  · exact .ok rfl
  · exact .error (.whole place _)

theorem emitItem_echoed (depth : Nat) (place : At line other) (inside : Matched At nested nestedToo)
    (emitsNested : ∀ depth openIf,
      Echoed At (emitItems depth openIf nested) (emitItems depth openIf nestedToo)) :
    Echoed At (emitItem depth (.ofLine line construct nested))
      (emitItem depth (.ofLine other construct nestedToo)) := by
  have wrap (within : Nat) (next : List Char → Except Complaint (List Char))
      (fine : ∀ body, ∃ text, next body = .ok text) :
      Echoed At (emitItems within false nested >>= next)
        (emitItems within false nestedToo >>= next) := by
    apply (emitsNested within false).bind
    intro body _
    obtain ⟨text, same⟩ := fine body
    rw [same]
    exact .ok rfl
  have echo (fault : CompileFault) :
      Echoed At (.error ((Item.ofLine line construct nested).complain fault))
        (.error ((Item.ofLine other construct nestedToo).complain fault) :
          Except Complaint (List Char)) :=
    .error (.whole place fault)
  rw [Item.ofLine, Item.ofLine] at echo ⊢
  cases construct with
  | element element =>
      rw [emitItem, emitItem, inside.isEmpty]
      split
      · split
        · exact .ok rfl
        · exact echo _
      · cases element.inline.template? with
        | some content =>
            cases nestedToo.isEmpty with
            | true => exact .ok rfl
            | false => exact echo _
        | none =>
            cases nestedToo.isEmpty with
            | true => exact .ok rfl
            | false => exact wrap _ _ fun _ => ⟨_, rfl⟩
  | text pieces =>
      rw [emitItem, emitItem]
      exact requireLeaf_echoed place inside _ _
  | output code =>
      rw [emitItem, emitItem]
      exact requireLeaf_echoed place inside _ _
  | code code =>
      rw [emitItem, emitItem]
      exact requireLeaf_echoed place inside _ _
  | control control =>
      cases control with
      | ifBegin condition =>
          rw [emitItem, emitItem]
          exact wrap _ _ fun _ => ⟨_, rfl⟩
      | elseBegin =>
          rw [emitItem, emitItem]
          exact wrap _ _ fun _ => ⟨_, rfl⟩
      | forBegin binding =>
          rw [emitItem, emitItem]
          exact wrap _ _ fun _ => ⟨_, rfl⟩
  | comment text =>
      rw [emitItem, emitItem, inside.isEmpty]
      split
      · exact .ok rfl
      · exact wrap _ _ fun _ => ⟨_, rfl⟩
  | doctype text =>
      rw [emitItem, emitItem]
      exact .ok rfl
  | raw lines =>
      rw [emitItem, emitItem]
      exact .ok rfl

end

theorem Matched.emitItems {items itemsToo : List Item} (matched : Matched At items itemsToo) :
    ∀ depth openIf,
      Echoed At (Markup.emitItems depth openIf items) (Markup.emitItems depth openIf itemsToo) := by
  induction matched with
  | nil =>
      intro depth openIf
      rw [Markup.emitItems]
      exact .ok rfl
  | @cons construct line other place nested _ _ _ inside after emitsNested emitsAfter =>
      intro depth openIf
      rw [emitItems_cons_eq, emitItems_cons_eq, after.startsElse]
      change Echoed At (if Item.isElse (.ofLine line construct nested) && _ then _ else _)
        (if Item.isElse (.ofLine line construct nested) && _ then _ else _)
      split
      · exact .error (.whole place _)
      · apply (emitItem_echoed depth place inside emitsNested).bind
        intro first _
        apply (emitsAfter depth _).bind
        intro last _
        exact .ok rfl

end ThemeRender.Markup
