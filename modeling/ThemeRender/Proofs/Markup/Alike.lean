import ThemeRender.Proofs.Markup.Echoes
/-!
Items that differ only in their places in a source are emitted alike. Items that are never emitted
are not emitted as part of others either.
-/

namespace ThemeRender.Markup

open Outcome (Together bind_fails except_bind_eq_error)

/-- The items differ in where they stand in their sources, and in nothing else. -/
inductive Alike : List Item → List Item → Prop
  | nil : Alike [] []
  | cons (construct : Construct) (line lineToo : Nat) (span spanToo : Span)
      {nested nestedToo rest restToo : List Item} (inside : Alike nested nestedToo)
      (after : Alike rest restToo) :
      Alike (.mk construct line span nested :: rest)
        (.mk construct lineToo spanToo nestedToo :: restToo)

namespace Alike

variable {items itemsToo more moreToo : List Item}

theorem append (alike : Alike items itemsToo) (after : Alike more moreToo) :
    Alike (items ++ more) (itemsToo ++ moreToo) := by
  induction alike with
  | nil => exact after
  | cons construct line lineToo span spanToo inside _ _ ih =>
      exact .cons construct line lineToo span spanToo inside ih

theorem matched (alike : Alike items itemsToo) : Matched (fun _ _ => True) items itemsToo := by
  induction alike with
  | nil => exact .nil
  | cons construct line lineToo span spanToo _ _ inside after =>
      exact @Matched.cons _ construct ⟨line, 0, [], span⟩ ⟨lineToo, 0, [], spanToo⟩ trivial _ _ _ _
        inside after

end Alike

/-- Both come to the same text, or neither comes to a text. -/
abbrev SameText : Except Complaint (List Char) → Except Complaint (List Char) → Prop :=
  Together (· = ·)

theorem Alike.emitItems {items itemsToo : List Item} (alike : Alike items itemsToo)
    (depth : Nat) (openIf : Bool) :
    SameText (Markup.emitItems depth openIf items) (Markup.emitItems depth openIf itemsToo) :=
  (alike.matched.emitItems depth openIf).together

/-! Items that are never emitted -/

/-- The items are refused wherever they are emitted. -/
def Refused (items : List Item) : Prop :=
  ∀ depth openIf, ∃ complaint, emitItems depth openIf items = .error complaint

theorem not_refused_nil : ¬Refused [] := by
  intro refused
  obtain ⟨complaint, emitted⟩ := refused 0 false
  rw [emitItems] at emitted
  cases emitted

theorem Refused.append_left {more : List Item} (refused : Refused more) (items : List Item) :
    Refused (items ++ more) := by
  induction items with
  | nil => exact refused
  | cons item rest ih =>
      intro depth openIf
      rw [List.cons_append, emitItems_cons_eq]
      split
      · exact ⟨_, rfl⟩
      · apply bind_fails
        intro first _
        obtain ⟨complaint, emitted⟩ := ih depth (item.isIf && startsElse (rest ++ more))
        rw [emitted]
        exact ⟨complaint, rfl⟩

theorem emitItems_append_error {items : List Item} (more : List Item) {depth : Nat}
    {openIf : Bool} {complaint : Complaint}
    (emitted : emitItems depth openIf items = .error complaint) :
    ∃ complaint, emitItems depth openIf (items ++ more) = .error complaint := by
  induction items generalizing openIf complaint with
  | nil =>
      rw [emitItems] at emitted
      cases emitted
  | cons item rest ih =>
      rw [List.cons_append]
      rw [emitItems_cons_eq] at emitted ⊢
      split
      · exact ⟨_, rfl⟩
      · rename_i guard
        rw [if_neg guard] at emitted
        rcases except_bind_eq_error.mp emitted with emittedItem | ⟨first, emittedItem, emitted⟩
        · rw [emittedItem]
          exact ⟨_, rfl⟩
        · rw [emittedItem]
          rcases except_bind_eq_error.mp emitted with emittedRest | ⟨last, -, same⟩
          · cases rest with
            | nil =>
                rw [emitItems] at emittedRest
                cases emittedRest
            | cons next rest =>
                -- the next item decides alone whether an `if` stays open
                obtain ⟨complaintToo, fails⟩ := ih emittedRest
                refine ⟨complaintToo, ?_⟩
                change (emitItems depth (item.isIf && startsElse (next :: rest)) _ >>= _) = _
                rw [fails]
                rfl
          · cases same

theorem Refused.append_right {items : List Item} (refused : Refused items) (more : List Item) :
    Refused (items ++ more) := by
  intro depth openIf
  obtain ⟨complaint, emitted⟩ := refused depth openIf
  exact emitItems_append_error more emitted

/-- Whether what is nested in the construct is emitted or refused. -/
def Construct.nests : Construct → Bool
  | .doctype _ | .raw _ => false
  | _ => true

theorem Construct.nests_ofCode (line : List Char) : (Construct.ofCode line).nests = true := by
  unfold Construct.ofCode
  dsimp only
  split
  · rfl
  · split
    · rfl
    · split <;> rfl

section

variable {construct : Construct} {line : Nat} {span : Span} {nested : List Item}

theorem requireLeaf_error (holds : nested ≠ []) (what : String) (text : List Char) :
    ∃ complaint, (Item.requireLeaf (.mk construct line span nested) what >>=
      fun _ => pure text) = .error complaint := by
  unfold Item.requireLeaf
  rw [if_neg (by simpa [Item.nested] using holds)]
  exact ⟨_, rfl⟩

theorem Refused.emitItem (nests : construct.nests = true) (refused : Refused nested)
    (depth : Nat) :
    ∃ complaint, Markup.emitItem depth (.mk construct line span nested) = .error complaint := by
  have holds : nested ≠ [] := by
    rintro rfl
    exact not_refused_nil refused
  have notEmpty : nested.isEmpty = false := by simpa using holds
  have wrap (within : Nat) (next : List Char → Except Complaint (List Char)) :
      ∃ complaint, (emitItems within false nested >>= next) = .error complaint := by
    obtain ⟨complaint, emitted⟩ := refused within false
    rw [emitted]
    exact ⟨complaint, rfl⟩
  cases construct with
  | element element =>
      rw [Markup.emitItem, notEmpty, Bool.and_false]
      split
      · exact ⟨_, rfl⟩
      · cases element.inline.template? with
        | none => exact wrap _ _
        | some content => exact ⟨_, rfl⟩
  | text pieces =>
      rw [Markup.emitItem]
      exact requireLeaf_error holds _ _
  | output code =>
      rw [Markup.emitItem]
      exact requireLeaf_error holds _ _
  | code code =>
      rw [Markup.emitItem]
      exact requireLeaf_error holds _ _
  | control control =>
      cases control <;> rw [Markup.emitItem] <;> exact wrap _ _
  | comment text =>
      rw [Markup.emitItem, notEmpty]
      exact wrap _ _
  | doctype text => cases nests
  | raw lines => cases nests

theorem refused_single (fails : ∀ depth, ∃ complaint,
    emitItem depth (.mk construct line span nested) = .error complaint) :
    Refused [.mk construct line span nested] := by
  intro depth openIf
  rw [emitItems_cons_eq]
  split
  · exact ⟨_, rfl⟩
  · obtain ⟨complaint, emitted⟩ := fails depth
    rw [emitted]
    exact ⟨complaint, rfl⟩

theorem refused_code {code : List Char} (holds : nested ≠ []) :
    Refused [.mk (.code code) line span nested] := by
  apply refused_single
  intro depth
  rw [emitItem]
  exact requireLeaf_error holds _ _

end

/-! Reading -/

/-- The first reader comes to items that are like those of the second; or it comes to items that are
refused later, where the second refuses the source; or both refuse the source. -/
inductive Agrees : Except Complaint (List Item) → Except Complaint (List Item) → Prop
  | alike {items itemsToo : List Item} (alike : Alike items itemsToo) :
      Agrees (.ok items) (.ok itemsToo)
  | later {items : List Item} (refused : Refused items) (complaint : Complaint) :
      Agrees (.ok items) (.error complaint)
  | error (complaint complaintToo : Complaint) : Agrees (.error complaint) (.error complaintToo)

namespace Agrees

variable {first firstToo second secondToo : Except Complaint (List Item)}

theorem append (agrees : Agrees first firstToo) (agreesAfter : Agrees second secondToo) :
    Agrees (first >>= fun items => second >>= fun more => pure (items ++ more))
      (firstToo >>= fun items => secondToo >>= fun more => pure (items ++ more)) := by
  cases agrees with
  | error complaint complaintToo => exact .error _ _
  | later refused complaint =>
      cases agreesAfter with
      | alike _ => exact .later (refused.append_right _) _
      | later _ _ => exact .later (refused.append_right _) _
      | error _ _ => exact .error _ _
  | alike alike =>
      cases agreesAfter with
      | alike alikeAfter => exact .alike (alike.append alikeAfter)
      | later refused _ => exact .later (refused.append_left _) _
      | error _ _ => exact .error _ _

theorem wrap {construct : Construct} (nests : construct.nests = true)
    (agrees : Agrees first firstToo) (line lineToo : Line) :
    Agrees (first >>= fun items => pure [.ofLine line construct items])
      (firstToo >>= fun items => pure [.ofLine lineToo construct items]) := by
  cases agrees with
  | alike alike => exact .alike (.cons construct _ _ _ _ alike .nil)
  | later refused complaint => exact .later (refused_single (refused.emitItem nests)) _
  | error complaint complaintToo => exact .error _ _

theorem emit (agrees : Agrees first firstToo) :
    SameText (first >>= Markup.emit) (firstToo >>= Markup.emit) := by
  cases agrees with
  | alike alike => exact alike.emitItems 0 false
  | later refused complaint =>
      obtain ⟨complaintToo, emitted⟩ := refused 0 false
      change SameText (emitItems 0 false _) _
      rw [emitted]
      exact .error _ _
  | error complaint complaintToo => exact .error _ _

end Agrees

end ThemeRender.Markup
