import ThemeRender.Proofs.Text.Lines

namespace ThemeRender.Text

variable {s t part text : List Char}

theorem lines_cons (flat : Flat s) (more : List Char) :
    lines (s ++ '\n' :: more) = (s ++ ['\n']) :: lines more := by
  induction s with
  | nil => rfl
  | cons c rest ih =>
      rw [List.cons_append, lines, if_neg flat.head, ih flat.of_cons]
      rfl

def Whole (s : List Char) : Prop :=
  ∀ last ∈ s.getLast?, last = '\n'

theorem whole_nil : Whole [] := by
  intro last none
  cases none

theorem whole_line (s : List Char) : Whole (s ++ ['\n']) := by
  intro last same
  rw [List.getLast?_concat] at same
  exact (Option.some.inj same).symm

theorem Whole.append (whole : Whole s) (wholeAfter : Whole t) : Whole (s ++ t) := by
  cases t with
  | nil =>
      rw [List.append_nil]
      exact whole
  | cons c rest =>
      intro last same
      rw [List.getLast?_append_of_ne_nil _ (List.cons_ne_nil c rest)] at same
      exact wholeAfter last same

theorem Whole.of_cons {c : Char} (whole : Whole (c :: s)) : Whole s := by
  cases s with
  | nil => exact whole_nil
  | cons d rest =>
      intro last same
      apply whole last
      rw [List.getLast?_cons_cons]
      exact same

theorem lines_append (whole : Whole s) (t : List Char) : lines (s ++ t) = lines s ++ lines t := by
  induction s with
  | nil => rfl
  | cons c rest ih =>
      rw [List.cons_append, lines, lines, ih whole.of_cons]
      by_cases feed : c = '\n'
      · rw [if_pos feed, if_pos feed, List.cons_append]
      · rw [if_neg feed, if_neg feed]
        cases found : lines rest with
        | cons line more => rfl
        | nil =>
            have none : rest = [] := by
              rw [← flatten_lines rest, found]
              rfl
            rw [none] at whole
            exact absurd (whole c rfl) feed

theorem lines_rows {rows : List (List Char)} (flat : ∀ row ∈ rows, Flat row) :
    lines (rows.flatMap (· ++ ['\n'])) = rows.map (· ++ ['\n']) := by
  induction rows with
  | nil => rfl
  | cons row rest ih =>
      rw [List.forall_mem_cons] at flat
      rw [List.flatMap_cons, List.append_assoc, List.singleton_append, lines_cons flat.1, ih flat.2,
        List.map_cons]

theorem whole_flatMap {α : Type} {rows : List α} {text : α → List Char}
    (whole : ∀ row ∈ rows, Whole (text row)) : Whole (rows.flatMap text) := by
  induction rows with
  | nil => exact whole_nil
  | cons row rest ih =>
      rw [List.forall_mem_cons] at whole
      exact whole.1.append (ih whole.2)

def LinePart (part text : List Char) : Prop :=
  ∃ before after, text = before ++ part ++ after ∧ Whole before

namespace LinePart

variable {inner : List Char}

theorem append_left (before : Whole s) (part : List Char) : LinePart part (s ++ part) :=
  ⟨s, [], (List.append_nil _).symm, before⟩

theorem append_right (part : List Char) (s : List Char) : LinePart part (part ++ s) :=
  ⟨[], s, rfl, whole_nil⟩

theorem trans (within : LinePart inner part) (starts : LinePart part text) :
    LinePart inner text := by
  obtain ⟨first, last, rfl, wholeFirst⟩ := within
  obtain ⟨before, after, rfl, wholeBefore⟩ := starts
  refine ⟨before ++ first, last ++ after, ?_, wholeBefore.append wholeFirst⟩
  simp only [List.append_assoc]

theorem isInfix (starts : LinePart part text) : part <:+: text := by
  obtain ⟨before, after, rfl, -⟩ := starts
  exact List.infix_append before part after

theorem lines_within (starts : LinePart part text) (whole : Whole part) :
    lines part <:+: lines text := by
  obtain ⟨before, after, rfl, wholeBefore⟩ := starts
  rw [List.append_assoc, lines_append wholeBefore, lines_append whole, ← List.append_assoc]
  exact List.infix_append _ _ _

end LinePart

end ThemeRender.Text
