import ThemeRender.Proofs.Markup.ParallelLines

namespace ThemeRender.Markup

open Outcome (Alongside)

variable {line : Line}

/-- A reader of a line with what is nested in it, and of such lines in a row. A line that is read as
one of the dialect is read alone, and what is nested in it does not matter to it. -/
structure LineReader (within : Line → Context) (alone : Line → Except Complaint Construct)
    (read : LineTree → Except Complaint (List Item))
    (readAll : List LineTree → Except Complaint (List Item)) : Prop where
  nil : readAll [] = .ok []
  cons (tree : LineTree) (rest : List LineTree) :
    readAll (tree :: rest) =
      (do let items ← read tree; let more ← readAll rest; pure (items ++ more))
  alike {At : Line → Line → Prop} {trees treesToo : List LineTree} :
    Parallel within At trees treesToo → ReadAlike At (readAll trees) (readAll treesToo)
  nests {line : Line} (reads : within line = .markup ∨ within line = .dropped)
    (nested : List LineTree) :
    read (.mk line nested) = (do
      let construct ← alone line
      let items ← readAll nested
      pure [.ofLine line construct items])
  within_eq {line other : Line} (same : line.text = other.text) : within line = within other
  echoed {At : Line → Line → Prop} {line other : Line} (place : At line other)
    (same : line.text = other.text) : Echoed At (alone line) (alone other)

namespace Haml

def readAlone (line : Line) : Except Complaint Construct :=
  readConstruct line []

theorem readTree_alone (reads : within line = .markup ∨ within line = .dropped)
    (nested : List LineTree) :
    readTree (.mk line nested) = (do
      let construct ← readAlone line
      let items ← readForest nested
      pure [.ofLine line construct items]) := by
  have notSilent : ¬isSilent line.text = true := by
    intro silent
    obtain ⟨rest, text⟩ := eq_of_isSilent silent
    simp [within, text] at reads
  have notFilter : ¬isFilter line.text = true := by
    intro filter
    simp [within_of_isFilter filter] at reads
  have alone (raw : List (List Char)) : readConstruct line raw = readAlone line := by
    unfold readAlone readConstruct
    split
    case h_2 text => exact absurd (by rw [text]; rfl) notFilter
    all_goals rfl
  rw [readTree, if_neg notSilent, alone]
  simp only [if_neg notFilter]

theorem lineReader : LineReader within readAlone readTree readForest where
  nil := by rw [readForest]
  cons tree rest := by rw [readForest]
  alike := readForest_alike
  nests := readTree_alone
  within_eq same := by rw [within, within, same]
  echoed place same := readConstruct_echoed place same fun _ => rfl

end Haml

namespace Jade

def readAlone (line : Line) : Except Complaint Construct := do
  match ← readSimple line with
  | some construct => return construct
  | none =>
      if startsElement line.text then
        let head ← readHead line
        let element ← readElement line head
        return .element element
      else throw (line.complain (.looseText line.text))

theorem readTree_alone (reads : within line = .markup ∨ within line = .dropped)
    (nested : List LineTree) :
    readTree (.mk line nested) = (do
      let construct ← readAlone line
      let items ← readForest nested
      pure [.ofLine line construct items]) := by
  rw [readTree.eq_def]
  dsimp only
  split
  · rename_i text
    simp [within, text] at reads
  · rename_i rest shown text
    simp [within_of_comment shown text] at reads
  · rename_i noComment
    unfold readAlone
    cases simple : readSimple line with
    | error complaint => rfl
    | ok construct? =>
        cases construct? with
        | some construct => rfl
        | none =>
            change (if _ then _ else _) = (if _ then _ else _) >>= _
            split
            · cases readsHead : readHead line with
              | error complaint => rfl
              | ok head =>
                  rw [within_of_head noComment simple readsHead] at reads
                  have noDot : head.rest ≠ ['.'] := by
                    intro dot
                    rcases Head.taken_of_dot dot with taken | taken
                    · simp [taken] at reads
                    · simp [taken] at reads
                  change (if head.rest = ['.'] then _ else _) =
                    (readElement line head >>= fun element =>
                      pure (Construct.element element)) >>= _
                  rw [if_neg noDot]
                  cases readElement line head with
                  | error complaint => rfl
                  | ok element => rfl
            · rfl

theorem readAlone_echoed {At : Line → Line → Prop} {line other : Line} (place : At line other)
    (same : line.text = other.text) : Echoed At (readAlone line) (readAlone other) := by
  apply (readSimple_echoed place same).bind
  intro construct? _
  cases construct? with
  | some construct => exact .ok rfl
  | none =>
      dsimp only
      rw [← same]
      split
      · apply (readHead_echoed place same).bind
        intro head readsHead
        apply (readElement_echoed place (rest_readHead readsHead)).bind
        intro element _
        exact .ok rfl
      · exact .error (.whole place _)

theorem within_eq {line other : Line} (same : line.text = other.text) :
    within line = within other := by
  have shown : withinShown line = withinShown other := by
    have simple : Echoed (fun _ _ => True) (readSimple line) (readSimple other) :=
      readSimple_echoed trivial same
    have head : Echoed (fun _ _ => True) (readHead line) (readHead other) :=
      readHead_echoed trivial same
    unfold withinShown
    generalize readSimple line = construct?, readSimple other = constructToo? at simple
    generalize readHead line = head?, readHead other = headToo? at head
    cases simple with
    | error => rfl
    | ok same =>
        cases same
        cases head with
        | error =>
            rename_i construct? _ _ _
            rcases construct? with none | construct
            · rfl
            · cases construct <;> rfl
        | ok same => rw [same]
  unfold within
  rw [same, shown]

theorem lineReader : LineReader within readAlone readTree readForest where
  nil := by rw [readForest]
  cons tree rest := by rw [readForest]
  alike := readForest_alike
  nests := readTree_alone
  within_eq := within_eq
  echoed := readAlone_echoed

end Jade

end ThemeRender.Markup
