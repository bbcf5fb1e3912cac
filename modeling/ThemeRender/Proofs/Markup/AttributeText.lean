import ThemeRender.Markup.Attribute
import ThemeRender.Proofs.Markup.Contents
import ThemeRender.Proofs.Outcome

namespace ThemeRender.Markup

open Outcome (of_map_ok)

variable {s rest : List Char}

theorem flat_takeWhile (flat : Text.Flat s) (p : Char → Bool) : Text.Flat (s.takeWhile p) :=
  flat.subset (List.takeWhile_subset p)

theorem flat_dropWhile (flat : Text.Flat s) (p : Char → Bool) : Text.Flat (s.dropWhile p) :=
  flat.subset (List.dropWhile_subset p)

theorem flat_of_cut {mark before after : List Char} (flat : Text.Flat s)
    (cut : Text.cut? mark s = some (before, after)) : Text.Flat before ∧ Text.Flat after := by
  have whole := Text.cut?_eq_some cut
  rw [whole] at flat
  refine ⟨flat.subset ?_, flat.subset (List.subset_append_right _ _)⟩
  exact List.Subset.trans (List.subset_append_left _ _) (List.subset_append_left _ _)

/-! Pieces -/

theorem onLine_nil : OnLine [] where
  apart := trivial
  literals := by simp
  codes := by simp

theorem onLine_expr {code : List Char} {pieces : List Piece} (flat : Text.Flat code)
    (onLine : OnLine pieces) : OnLine (.expr code :: pieces) where
  apart := onLine.apart
  literals := onLine.literals
  codes := by
    intro found member
    rcases List.mem_append.mp member with first | later
    · rw [List.mem_singleton.mp first]
      exact flat
    · exact onLine.codes found later

theorem onLine_textPiece {contents : List Char} (flat : Text.Flat contents) :
    OnLine (textPiece contents) := by
  unfold textPiece
  split
  · exact onLine_nil
  · constructor
    · trivial
    · intro found member
      rw [List.mem_singleton.mp member]
      exact flat
    · simp [Piece.codes]

theorem onLine_textPiece_expr {contents code : List Char} {pieces : List Piece}
    (flat : Text.Flat contents) (onLine : OnLine (.expr code :: pieces)) :
    OnLine (textPiece contents ++ .expr code :: pieces) := by
  unfold textPiece
  split
  · exact onLine
  · constructor
    · exact onLine.apart
    · intro found member
      rcases List.mem_cons.mp member with rfl | later
      · exact flat
      · exact onLine.literals found later
    · exact onLine.codes

theorem onLine_piecesAfter {literal : List Char} {pieces : List Piece}
    (flatLiteral : Text.Flat literal) (flat : Text.Flat s)
    (reads : piecesAfter literal s = .ok pieces) : OnLine pieces := by
  fun_induction piecesAfter literal s generalizing pieces with
  | case1 literal s noOpen =>
      cases reads
      exact onLine_textPiece (flatLiteral.append flat)
  | case2 literal s before after opened escaped ih =>
      obtain ⟨flatBefore, flatAfter⟩ := flat_of_cut flat opened
      apply ih _ flatAfter reads
      apply (flatLiteral.append (flatBefore.subset (List.dropLast_subset _))).append
      decide
  | case3 => cases reads
  | case4 => cases reads
  | case5 literal s before after opened notEscaped inner rest closed code some =>
      rename_i ih
      obtain ⟨flatBefore, flatAfter⟩ := flat_of_cut flat opened
      obtain ⟨flatInner, flatRest⟩ := flat_of_cut flatAfter closed
      obtain ⟨more, readsMore, rfl⟩ := of_map_ok reads
      apply onLine_textPiece_expr (flatLiteral.append flatBefore)
      exact onLine_expr flatInner.trim (ih Text.Flat.nil flatRest readsMore)

theorem onLine_interpolate {pieces : List Piece} (flat : Text.Flat s)
    (reads : interpolate s = .ok pieces) : OnLine pieces :=
  onLine_piecesAfter Text.Flat.nil flat reads

/-! Shorthands -/

theorem nameChars_takeWhile (s : List Char) : ∀ c ∈ s.takeWhile isNameChar, isNameChar c = true :=
  List.all_eq_true.mp List.all_takeWhile

def Shorthands.OnLine (found : Shorthands) : Prop :=
  ∀ name ∈ found.id?.toList ++ found.classes, ∀ c ∈ name, isNameChar c = true

theorem onLine_readShorthands {found result : Shorthands} (onLine : found.OnLine)
    (flat : Text.Flat s) (reads : readShorthands found s = .ok (result, rest)) :
    result.OnLine ∧ Text.Flat rest := by
  fun_induction readShorthands found s with
  | case1 found c tail isName ih =>
      have flatTail := flat.of_cons.of_cons
      apply ih _ (flat_dropWhile flatTail _) reads
      intro name member
      rw [← List.append_assoc] at member
      rcases List.mem_append.mp member with before | new
      · exact onLine name before
      · rw [List.mem_singleton.mp new]
        exact List.forall_mem_cons.mpr ⟨isName, nameChars_takeWhile tail⟩
  | case2 =>
      cases reads
      exact ⟨onLine, flat⟩
  | case3 => cases reads
  | case4 found c tail isName id noId =>
      rename_i ih
      have flatTail := flat.of_cons.of_cons
      apply ih _ (flat_dropWhile flatTail _) reads
      intro name member
      rcases List.mem_cons.mp member with rfl | before
      · exact List.forall_mem_cons.mpr ⟨isName, nameChars_takeWhile tail⟩
      · exact onLine name (List.mem_append_right _ before)
  | case5 =>
      cases reads
      exact ⟨onLine, flat⟩
  | case6 =>
      cases reads
      exact ⟨onLine, flat⟩

/-! Values -/

theorem flat_readString {quote : Char} {contents : List Char} (flat : Text.Flat s)
    (reads : readString quote s = .ok (contents, rest)) :
    Text.Flat contents ∧ Text.Flat rest := by
  fun_induction readString quote s generalizing contents with
  | case1 => cases reads
  | case2 => cases reads
  | case3 d tail ih =>
      obtain ⟨⟨inner, after⟩, readsInner, same⟩ := of_map_ok reads
      cases same
      obtain ⟨flatInner, flatRest⟩ := ih flat.of_cons.of_cons readsInner
      exact ⟨Text.Flat.cons flat.of_cons.head flatInner, flatRest⟩
  | case4 tail notEscape =>
      cases reads
      exact ⟨Text.Flat.nil, flat.of_cons⟩
  | case5 d tail notEscape notQuote ih =>
      obtain ⟨⟨inner, after⟩, readsInner, same⟩ := of_map_ok reads
      cases same
      obtain ⟨flatInner, flatRest⟩ := ih flat.of_cons readsInner
      exact ⟨Text.Flat.cons flat.head flatInner, flatRest⟩

theorem flat_spanExpr (flat : Text.Flat s) (terminators : List Char) :
    Text.Flat (spanExpr terminators 0 none s).1 ∧ Text.Flat (spanExpr terminators 0 none s).2 := by
  have whole := spanExpr_append terminators 0 none s
  rw [← whole] at flat
  exact ⟨flat.subset (List.subset_append_left _ _), flat.subset (List.subset_append_right _ _)⟩

theorem onLine_readValue {terminators : List Char} {value : AttrValue} (flat : Text.Flat s)
    (reads : readValue terminators s = .ok (value, rest)) :
    value.OnLine ∧ Text.Flat rest := by
  obtain ⟨flatCode, flatRest⟩ := flat_spanExpr flat terminators
  unfold readValue at reads
  dsimp only at reads
  split at reads
  · split at reads
    · cases reads
    · cases reads
      exact ⟨flatCode.trim, flatRest⟩
  · split at reads
    · split at reads
      · cases reads
      · rename_i contents after readsString
        obtain ⟨flatContents, flatAfter⟩ := flat_readString flat.of_cons readsString
        split at reads
        · cases reads
        · rename_i pieces readsPieces
          cases reads
          exact ⟨onLine_interpolate flatContents readsPieces, flatAfter⟩
    · split at reads
      · cases reads
      · cases reads
        exact ⟨flatCode.trim, flatRest⟩

/-! Lists and hashes -/

theorem onLine_readListValue {value : AttrValue} (flat : Text.Flat s)
    (reads : readListValue s = .ok (value, rest)) : value.OnLine ∧ Text.Flat rest := by
  have flatHere : Text.Flat (skipSpaces s) := flat_dropWhile flat _
  unfold readListValue at reads
  split at reads
  · rename_i tail found
    rw [found] at flatHere
    exact onLine_readValue (flat_dropWhile flatHere.of_cons _) reads
  · cases reads
    exact ⟨trivial, flatHere⟩

def AttrsOnLine (attrs : List Attr) : Prop :=
  ∀ attr ∈ attrs, Text.Flat attr.name ∧ attr.value.OnLine

theorem AttrsOnLine.cons {name : List Char} {value : AttrValue} {attrs : List Attr}
    (flat : Text.Flat name) (onLine : value.OnLine) (onLineRest : AttrsOnLine attrs) :
    AttrsOnLine (⟨name, value⟩ :: attrs) := by
  intro attr member
  rcases List.mem_cons.mp member with rfl | later
  · exact ⟨flat, onLine⟩
  · exact onLineRest attr later

theorem AttrsOnLine.nil : AttrsOnLine [] := by
  intro attr member
  cases member

theorem onLine_readList {attrs : List Attr} (flat : Text.Flat s)
    (reads : readList s = .ok (attrs, rest)) : AttrsOnLine attrs ∧ Text.Flat rest := by
  fun_induction readList s generalizing attrs with
  | case1 => cases reads
  | case2 s tail start =>
      have flatStart : Text.Flat (skipSeparators s) := flat_dropWhile flat _
      cases reads
      rw [start] at flatStart
      exact ⟨AttrsOnLine.nil, flatStart.of_cons⟩
  | case3 => cases reads
  | case4 s c tail start notEnd isName name value after readsValue =>
      rename_i ih
      have flatStart : Text.Flat (skipSeparators s) := flat_dropWhile flat _
      rw [start] at flatStart
      obtain ⟨⟨more, left⟩, readsMore, same⟩ := of_map_ok reads
      cases same
      obtain ⟨onLineValue, flatAfter⟩ :=
        onLine_readListValue (flat_dropWhile flatStart.of_cons _) readsValue
      obtain ⟨onLineMore, flatRest⟩ := ih flatAfter readsMore
      refine ⟨AttrsOnLine.cons ?_ onLineValue onLineMore, flatRest⟩
      exact Text.Flat.cons flatStart.head (flat_takeWhile flatStart.of_cons _)
  | case5 => cases reads

theorem onLine_readHashName {c : Char} {tail : List Char} {found : HashName}
    (flat : Text.Flat (c :: tail)) (reads : readHashName c tail = .ok found) :
    Text.Flat found.name ∧ Text.Flat found.rest := by
  unfold readHashName at reads
  split at reads
  · obtain ⟨⟨contents, after⟩, readsString, rfl⟩ := of_map_ok reads
    exact flat_readString flat.of_cons readsString
  · cases reads
    have flatBare : Text.Flat (if c = ':' then tail else c :: tail) := by
      split
      · exact flat.of_cons
      · exact flat
    refine ⟨?_, flat_dropWhile flatBare _⟩
    apply (flat_takeWhile flatBare isAttrNameChar).subset
    intro d member
    have inReverse := List.dropWhile_subset _ (List.mem_reverse.mp member)
    exact List.mem_reverse.mp inReverse

theorem onLine_readHashValue {found : HashName} {value : AttrValue} (flat : Text.Flat found.rest)
    (reads : readHashValue found = .ok (value, rest)) : value.OnLine ∧ Text.Flat rest := by
  have flatHere : Text.Flat (skipSpaces found.rest) := flat_dropWhile flat _
  unfold readHashValue at reads
  split at reads
  · cases reads
  · dsimp only at reads
    split at reads
    · exact onLine_readValue (flat_dropWhile flatHere _) reads
    · split at reads
      · cases reads
      · rename_i after sign
        have flatAfter : Text.Flat after := by
          apply flatHere.subset
          unfold afterHashSign? at sign
          split at sign
          · rename_i same
            cases sign
            rw [same]
            exact List.subset_cons_self _ _
          · rename_i same
            cases sign
            rw [same]
            exact List.Subset.trans (List.subset_cons_self _ _) (List.subset_cons_self _ _)
          · cases sign
        exact onLine_readValue (flat_dropWhile flatAfter _) reads

theorem onLine_readHash {attrs : List Attr} (flat : Text.Flat s)
    (reads : readHash s = .ok (attrs, rest)) : AttrsOnLine attrs ∧ Text.Flat rest := by
  fun_induction readHash s generalizing attrs with
  | case1 => cases reads
  | case2 s tail start =>
      have flatStart : Text.Flat (skipSeparators s) := flat_dropWhile flat _
      cases reads
      rw [start] at flatStart
      exact ⟨AttrsOnLine.nil, flatStart.of_cons⟩
  | case3 => cases reads
  | case4 => cases reads
  | case5 s c tail start notEnd name readsName value after readsValue ih =>
      have flatStart : Text.Flat (skipSeparators s) := flat_dropWhile flat _
      rw [start] at flatStart
      obtain ⟨⟨more, left⟩, readsMore, same⟩ := of_map_ok reads
      cases same
      obtain ⟨flatName, flatNamed⟩ := onLine_readHashName flatStart readsName
      obtain ⟨onLineValue, flatAfter⟩ := onLine_readHashValue flatNamed readsValue
      obtain ⟨onLineMore, flatRest⟩ := ih flatAfter readsMore
      exact ⟨AttrsOnLine.cons flatName onLineValue onLineMore, flatRest⟩

end ThemeRender.Markup
