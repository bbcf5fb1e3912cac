import ThemeRender.Proofs.Template.Nesting

namespace ThemeRender.Template

mutual

def Node.heldText : Node → List Char
  | .text contents => contents.toList
  | .output _ | .eval _ => []
  | .branch _ yes no => Node.allText yes ++ Node.allText no
  | .each _ _ body => Node.allText body

def Node.allText : List Node → List Char
  | [] => []
  | node :: rest => node.heldText ++ Node.allText rest

end

def Part.heldText : Part → List Char
  | .text contents => contents.toList
  | _ => []

def Layout.keptText (layout : Layout) : List Char :=
  layout.pieces.flatMap Layout.Piece.kept

variable {nodes : List Node} {parts : List Part}

theorem Unfolds.allText (unfolds : Unfolds nodes parts) :
    Node.allText nodes = parts.flatMap Part.heldText := by
  induction unfolds with
  | nil => rfl
  | text contents _ ih | output value _ ih | eval code _ ih =>
      simp [Node.allText, Node.heldText, Part.heldText, ih]
  | branch condition _ _ ihFirst ih =>
      simp [Node.allText, Node.heldText, Part.heldText, ihFirst, ih]
  | branchElse condition _ _ _ ihFirst ihSecond ih =>
      simp [Node.allText, Node.heldText, Part.heldText, ihFirst, ihSecond, ih]
  | each name items _ _ ihInside ih =>
      simp [Node.allText, Node.heldText, Part.heldText, ihInside, ih]

theorem Directs.heldText {row : List Token} {part : Part} (directs : Directs row part) :
    part.heldText = [] := by
  cases directs <;> rfl

theorem Reads.heldText {pieces : List Layout.Piece} (reads : Reads pieces parts) :
    parts.flatMap Part.heldText = pieces.flatMap Layout.Piece.kept := by
  induction reads with
  | nil => rfl
  | text contents _ ih => simp [Part.heldText, Layout.Piece.kept, ih]
  | output _ _ _ ih => simp [Part.heldText, Layout.Piece.kept, ih]
  | code _ directs _ ih => simp [directs.heldText, Layout.Piece.kept, ih]
  | comment _ _ ih => simp [Layout.Piece.kept, ih]

/-- The text of an accepted template is kept but for its tags and the lines that they take. -/
theorem allText_of_parse {source : String} (parsed : parse source = .ok nodes) :
    (∃ layout : Layout, layout.text = source.toList) ∧
      ∀ layout : Layout, layout.text = source.toList → Node.allText nodes = layout.keptText := by
  obtain ⟨laidOut, unfolded⟩ := unfolds_of_parse parsed
  refine ⟨laidOut, fun layout same => ?_⟩
  obtain ⟨parts, reads, unfolds⟩ := unfolded layout same
  rw [unfolds.allText, reads.heldText, Layout.keptText]

def commentedLayout : Layout :=
  .cons ⟨"a\n ".toList, by decide⟩ ⟨.comment, " c ".toList, by decide, by decide⟩
    (.last ⟨"\nb".toList, by decide⟩)

theorem commented_keeps_other_lines :
    ∃ nodes, parse "a\n <%# c %>\nb" = .ok nodes ∧ Node.allText nodes = "a\nb".toList := by
  have reads : Reads commentedLayout.pieces [.text "a\n", .text "b"] :=
    .text _ (.comment _ (.text _ .nil))
  have laidOut : commentedLayout.text = "a\n <%# c %>\nb".toList := rfl
  obtain ⟨nodes, parsed⟩ := parse_of_block laidOut reads (.text _ (.text _ .nil))
  exact ⟨nodes, parsed, (allText_of_parse parsed).2 commentedLayout laidOut⟩

end ThemeRender.Template
