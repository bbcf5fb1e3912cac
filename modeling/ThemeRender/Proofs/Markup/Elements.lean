import ThemeRender.Proofs.Markup.Contents
import ThemeRender.Proofs.Markup.Pieces

namespace ThemeRender.Markup

open Template

/-! The template of an element -/

theorem templateOfPieces_quoted (name : List Char) (value : List Piece) :
    templateOfPieces (quotedPieces name value) = quotedAttr name (templateOfPieces value) := by
  simp [quotedPieces, quotedAttr, Piece.template]

theorem Attr.template_pieces (attr : Attr) : templateOfPieces attr.pieces = attr.template := by
  obtain ⟨name, value⟩ := attr
  cases value with
  | literal pieces => exact templateOfPieces_quoted name pieces
  | expr code =>
      simp only [Attr.pieces, Attr.template, templateOfPieces_quoted, templateOfPieces_cons,
        templateOfPieces_nil, Piece.template, List.append_nil]
  | flag => simp [Attr.pieces, Attr.template, Piece.template]

theorem Element.template_idPieces (element : Element) :
    templateOfPieces element.idPieces = element.idTemplate := by
  unfold Element.idPieces Element.idTemplate
  cases element.attrs.find? (·.name = "id".toList) with
  | some attr => exact Attr.template_pieces attr
  | none =>
      cases element.shorthands.id? with
      | some id =>
          simp only [templateOfPieces_quoted, templateOfPieces_cons, templateOfPieces_nil,
            Piece.template, List.append_nil]
      | none => rfl

theorem AttrValue.template_classPieces? (value : AttrValue) :
    value.classPieces?.map templateOfPieces = value.classTemplate? := by
  cases value with
  | literal pieces => rfl
  | expr code => simp [classPieces?, classTemplate?, Piece.template]
  | flag => rfl

theorem templateOfPieces_join (words : List (List Piece)) :
    templateOfPieces (joinPieces words) = joinWords (words.map templateOfPieces) := by
  induction words with
  | nil => rfl
  | cons word rest ih =>
      cases rest with
      | nil => rfl
      | cons next more =>
          rw [joinPieces, templateOfPieces_append, templateOfPieces_cons, ih]
          · rfl
          · simp

theorem Element.template_classPieces (element : Element) :
    templateOfPieces element.classPieces = element.classTemplate := by
  have explicit (attrs : List Attr) :
      (attrs.filterMap (·.value.classPieces?)).map templateOfPieces =
        attrs.filterMap (·.value.classTemplate?) := by
    rw [List.map_filterMap]
    simp only [AttrValue.template_classPieces?]
  have shorthands (names : List (List Char)) :
      (names.map fun name => [Piece.text name]).map templateOfPieces = names := by
    rw [List.map_map]
    exact List.map_id'' (fun name => List.append_nil name) names
  have words : (element.shorthands.classes.map (fun name => [Piece.text name]) ++
      (element.attrs.filter (·.name = "class".toList)).filterMap (·.value.classPieces?)).map
        templateOfPieces = element.shorthands.classes ++
      (element.attrs.filter (·.name = "class".toList)).filterMap (·.value.classTemplate?) := by
    rw [List.map_append, explicit, shorthands]
  unfold Element.classPieces Element.classTemplate
  simp only
  rw [← words]
  cases element.shorthands.classes.map (fun name => [Piece.text name]) ++
      (element.attrs.filter (·.name = "class".toList)).filterMap (·.value.classPieces?) with
  | nil => rfl
  | cons first rest =>
      simp only [templateOfPieces_quoted, templateOfPieces_join, List.map_cons]

theorem Element.template_headPieces (element : Element) :
    templateOfPieces element.headPieces = element.head := by
  have others (attrs : List Attr) :
      templateOfPieces (attrs.flatMap Attr.pieces) = attrs.flatMap Attr.template := by
    induction attrs with
    | nil => rfl
    | cons attr rest ih =>
        rw [List.flatMap_cons, List.flatMap_cons, templateOfPieces_append, ih,
          Attr.template_pieces]
  unfold Element.headPieces Element.head
  simp only [templateOfPieces_cons, templateOfPieces_append, others, Element.template_idPieces,
    Element.template_classPieces, Piece.template, List.append_assoc]

/-! Texts in which no tag starts -/

/-- Pieces that can stand in a line of a template. -/
structure Sound (pieces : List Piece) : Prop where
  fit : ∀ piece ∈ pieces, piece.Fits
  clean : Text.Lacks tagOpen (outlineOf pieces)

/-- Sound pieces that can follow a text that ends with an angle bracket. -/
structure Joins (pieces : List Piece) : Prop extends Sound pieces where
  starts : (outlineOf pieces).head? ≠ some '%'

theorem Joins.nil : Joins [] where
  fit := by simp
  clean := Text.lacks_nil
  starts := by simp

theorem Sound.append {first second : List Piece} (sound : Sound first) (joins : Joins second) :
    Sound (first ++ second) where
  fit := by
    intro piece member
    rcases List.mem_append.mp member with before | after
    · exact sound.fit piece before
    · exact joins.fit piece after
  clean := by
    rw [outlineOf_append]
    exact sound.clean.append joins.clean (.inr joins.starts)

theorem Joins.append {first second : List Piece} (joins : Joins first) (joinsAfter : Joins second) :
    Joins (first ++ second) where
  toSound := joins.toSound.append joinsAfter
  starts := by
    rw [outlineOf_append]
    have before := joins.starts
    cases outline : outlineOf first with
    | nil => exact joinsAfter.starts
    | cons c rest =>
        rw [outline] at before
        exact before

theorem Joins.flatMap {α : Type} {items : List α} {f : α → List Piece}
    (each : ∀ item ∈ items, Joins (f item)) : Joins (items.flatMap f) := by
  induction items with
  | nil => exact Joins.nil
  | cons item rest ih =>
      rw [List.flatMap_cons]
      exact (each item List.mem_cons_self).append
        (ih fun item member => each item (List.mem_cons_of_mem _ member))

theorem sound_text {contents : List Char} (flat : Text.Flat contents)
    (clean : Text.Lacks tagOpen contents) : Sound [.text contents] where
  fit := by
    intro piece member
    rw [List.mem_singleton.mp member]
    exact flat
  clean := by simpa [Piece.outline] using clean

theorem joins_text {contents : List Char} (flat : Text.Flat contents)
    (clean : Text.Lacks tagOpen contents) (starts : contents.head? ≠ some '%') :
    Joins [.text contents] where
  toSound := sound_text flat clean
  starts := by simpa [Piece.outline] using starts

theorem joins_expr {code : List Char} (embeds : Embeds readOutput code) : Joins [.expr code] where
  fit := by
    intro piece member
    rw [List.mem_singleton.mp member]
    exact embeds
  clean := by
    change Text.Lacks tagOpen [' ']
    decide
  starts := by
    change (' ' :: [] : List Char).head? ≠ some '%'
    decide

theorem Sound.after {pieces : List Piece} (sound : Sound pieces) {contents : List Char}
    (joins : Joins [.text contents]) (nonempty : contents ≠ [])
    (ends : contents.getLast? ≠ some '<') : Joins (.text contents :: pieces) where
  fit := by
    intro piece member
    rcases List.mem_cons.mp member with rfl | later
    · exact joins.fit _ List.mem_cons_self
    · exact sound.fit piece later
  clean := by
    have clean := joins.clean
    rw [outlineOf_cons, outlineOf_nil, List.append_nil] at clean
    rw [outlineOf_cons]
    exact clean.append sound.clean (.inl ends)
  starts := by
    have starts := joins.starts
    rw [outlineOf_cons, outlineOf_nil, List.append_nil] at starts
    rw [outlineOf_cons]
    cases contents with
    | nil => exact absurd rfl nonempty
    | cons c rest => exact starts

theorem Sound.quoted {name : List Char} {value : List Piece} (sound : Sound value)
    (flat : Text.Flat name) (clean : Text.Lacks tagOpen name) :
    Joins (quotedPieces name value) := by
  have opens : Joins [.text (' ' :: name ++ "=\"".toList)] := by
    apply joins_text
    · exact (Text.Flat.cons (by decide) flat).append (by decide)
    · exact (clean.cons (by decide)).append (by decide) (.inr (by decide))
    · simp
  have closes : Joins [.text ['"']] := joins_text (by decide) (by decide) (by decide)
  have ends : (' ' :: name ++ "=\"".toList).getLast? = some '"' := by
    rw [show ' ' :: name ++ "=\"".toList = (' ' :: name ++ ['=']) ++ ['"'] by simp,
      List.getLast?_concat]
  have first := sound.after opens (by simp) (by rw [ends]; decide)
  exact first.append closes

/-! The pieces of an element -/

theorem lacks_outlineOf {pieces : List Piece} (apart : Apart pieces)
    (clean : ∀ literal ∈ pieces.flatMap Piece.literals, Text.Lacks tagOpen literal) :
    Text.Lacks tagOpen (outlineOf pieces) := by
  induction pieces with
  | nil => exact Text.lacks_nil
  | cons piece rest ih =>
      have cleanRest (literal : List Char) (member : literal ∈ rest.flatMap Piece.literals) :
          Text.Lacks tagOpen literal := clean literal (List.mem_append_right _ member)
      cases piece with
      | expr code => exact (ih apart cleanRest).cons (by decide)
      | text contents =>
          have cleanFirst := clean contents (by simp [Piece.literals])
          rw [outlineOf_cons]
          cases rest with
          | nil => simpa [Piece.outline] using cleanFirst
          | cons next more =>
              cases next with
              | text _ => exact absurd apart (by simp [Apart])
              | expr code =>
                  apply cleanFirst.append (ih apart cleanRest)
                  right
                  change (' ' :: outlineOf more).head? ≠ some '%'
                  simp

theorem sound_pieces {pieces : List Piece} (onLine : OnLine pieces)
    (clean : ∀ literal ∈ pieces.flatMap Piece.literals, Text.Lacks tagOpen literal)
    (embed : ∀ code ∈ pieces.flatMap Piece.codes, Embeds readOutput code) : Sound pieces where
  fit := by
    intro piece member
    cases piece with
    | text contents =>
        exact onLine.literals contents (List.mem_flatMap.mpr ⟨_, member, List.mem_singleton_self _⟩)
    | expr code =>
        exact embed code (List.mem_flatMap.mpr ⟨_, member, List.mem_singleton_self _⟩)
  clean := lacks_outlineOf onLine.apart clean

theorem flat_and_clean_of_nameChars {s : List Char} (chars : ∀ c ∈ s, isNameChar c = true) :
    Text.Flat s ∧ Text.Lacks tagOpen s :=
  ⟨not_mem_of_nameChars chars (by decide),
    Text.lacks_of_not_mem (not_mem_of_nameChars chars (by decide))⟩

structure Element.Fits (element : Element) : Prop where
  onLine : element.OnLine
  clean : ∀ literal ∈ element.literals, Text.Lacks tagOpen literal
  embed : ∀ code ∈ element.codes, Embeds readOutput code

theorem Attr.joins {attr : Attr} (flat : Text.Flat attr.name) (onLine : attr.value.OnLine)
    (cleanName : Text.Lacks tagOpen attr.name)
    (clean : ∀ literal ∈ attr.value.literals, Text.Lacks tagOpen literal)
    (embed : ∀ code ∈ attr.value.codes, Embeds readOutput code) : Joins attr.pieces := by
  obtain ⟨name, value⟩ := attr
  cases value with
  | literal pieces => exact (sound_pieces onLine clean embed).quoted flat cleanName
  | expr code =>
      have embeds := embed code (by simp [AttrValue.codes])
      exact (joins_expr embeds).quoted flat cleanName
  | flag =>
      apply joins_text (Text.Flat.cons (by decide) flat) (cleanName.cons (by decide))
      simp

section

variable {element : Element}

theorem Element.Fits.shorthand (fits : element.Fits) {name : List Char}
    (member : name ∈ element.shorthands.id?.toList ++ element.shorthands.classes) :
    Text.Flat name ∧ Text.Lacks tagOpen name :=
  flat_and_clean_of_nameChars (fits.onLine.shorthands name member)

theorem Element.Fits.attr (fits : element.Fits) {attr : Attr} (member : attr ∈ element.attrs) :
    Joins attr.pieces ∧ ∀ word, attr.value.classPieces? = some word → Sound word := by
  obtain ⟨flat, onLine⟩ := fits.onLine.attrs attr member
  have literal {l : List Char} (within : l ∈ attr.name :: attr.value.literals) :
      Text.Lacks tagOpen l := by
    apply fits.clean
    apply List.mem_append_left
    exact List.mem_flatMap.mpr ⟨attr, member, within⟩
  have embed (code : List Char) (within : code ∈ attr.value.codes) : Embeds readOutput code := by
    apply fits.embed
    apply List.mem_append_left
    exact List.mem_flatMap.mpr ⟨attr, member, within⟩
  have clean (l : List Char) (within : l ∈ attr.value.literals) : Text.Lacks tagOpen l :=
    literal (List.mem_cons_of_mem _ within)
  refine ⟨Attr.joins flat onLine (literal List.mem_cons_self) clean embed, ?_⟩
  intro word hasWord
  cases value : attr.value with
  | literal pieces =>
      rw [value] at hasWord onLine clean embed
      cases hasWord
      exact sound_pieces onLine clean embed
  | expr code =>
      rw [value] at hasWord embed
      cases hasWord
      exact (joins_expr (embed code (by simp [AttrValue.codes]))).toSound
  | flag =>
      rw [value] at hasWord
      cases hasWord

theorem Element.Fits.id (fits : element.Fits) : Joins element.idPieces := by
  unfold Element.idPieces
  cases found : element.attrs.find? (·.name = "id".toList) with
  | some attr => exact (fits.attr (List.mem_of_find?_eq_some found)).1
  | none =>
      cases id : element.shorthands.id? with
      | none => exact Joins.nil
      | some name =>
          obtain ⟨flat, clean⟩ := @Element.Fits.shorthand element fits name (by simp [id])
          exact (sound_text flat clean).quoted (by decide) (by decide)

theorem sound_join {words : List (List Piece)} (each : ∀ word ∈ words, Sound word) :
    Sound (joinPieces words) := by
  induction words with
  | nil => exact Joins.nil.toSound
  | cons word rest ih =>
      have first := each word List.mem_cons_self
      have others := ih fun word member => each word (List.mem_cons_of_mem _ member)
      cases rest with
      | nil => exact first
      | cons next more =>
          have blank : Joins [.text [' ']] := joins_text (by decide) (by decide) (by decide)
          exact first.append (others.after blank (by simp) (by decide))

theorem Element.Fits.classes (fits : element.Fits) : Joins element.classPieces := by
  have each : ∀ word ∈ element.shorthands.classes.map (fun name => [Piece.text name]) ++
      (element.attrs.filter (·.name = "class".toList)).filterMap (·.value.classPieces?),
      Sound word := by
    intro word member
    rcases List.mem_append.mp member with shorthand | written
    · obtain ⟨name, within, rfl⟩ := List.mem_map.mp shorthand
      obtain ⟨flat, clean⟩ := fits.shorthand (List.mem_append_right _ within)
      exact sound_text flat clean
    · obtain ⟨attr, within, hasWord⟩ := List.mem_filterMap.mp written
      exact (fits.attr (List.mem_filter.mp within).1).2 word hasWord
  unfold Element.classPieces
  simp only
  split
  · exact Joins.nil
  · exact (sound_join each).quoted (by decide) (by decide)

theorem Element.Fits.head (fits : element.Fits) : Joins element.headPieces := by
  have chars := fits.onLine.tag
  obtain ⟨flat, clean⟩ := flat_and_clean_of_nameChars chars
  have tag : Joins [.text element.tag] := by
    apply joins_text flat clean
    intro starts
    exact not_mem_of_nameChars chars (by decide) (List.mem_of_head? starts)
  have others : Joins ((element.attrs.filter fun attr =>
      attr.name ≠ "id".toList ∧ attr.name ≠ "class".toList).flatMap Attr.pieces) :=
    Joins.flatMap fun attr member => (fits.attr (List.mem_filter.mp member).1).1
  exact tag.append ((fits.id.append fits.classes).append others)

theorem Element.Fits.inline (fits : element.Fits) : Sound element.inline.pieces := by
  have onLine := fits.onLine.inline
  have clean (l : List Char) (within : l ∈ element.inline.literals) : Text.Lacks tagOpen l :=
    fits.clean l (List.mem_append_right _ within)
  have embed (code : List Char) (within : code ∈ element.inline.codes) : Embeds readOutput code :=
    fits.embed code (List.mem_append_right _ within)
  cases inline : element.inline with
  | none => exact Joins.nil.toSound
  | text pieces =>
      rw [inline] at onLine clean embed
      exact sound_pieces onLine clean embed
  | output code =>
      rw [inline] at embed
      exact (joins_expr (embed code (by simp [Inline.codes]))).toSound

theorem Element.Fits.started (fits : element.Fits) : Joins (.text ['<'] :: element.headPieces) := by
  have bracket : Joins [.text ['<']] := joins_text (by decide) (by decide) (by decide)
  exact bracket.append fits.head

theorem Element.Fits.opening (fits : element.Fits) : Joins element.openPieces :=
  fits.started.append (joins_text (by decide) (by decide) (by decide))

theorem Element.Fits.closing (fits : element.Fits) : Joins element.closePieces := by
  have chars := fits.onLine.tag
  apply joins_text
  · exact (Text.Flat.append (by decide) (not_mem_of_nameChars chars (by decide))).append (by decide)
  · apply Text.lacks_of_not_mem_right
    simp only [List.mem_append, not_or]
    exact ⟨⟨by decide, not_mem_of_nameChars chars (by decide)⟩, by decide⟩
  · simp

theorem Element.Fits.line (fits : element.Fits) : Sound element.linePieces := by
  unfold Element.linePieces
  split
  · apply fits.started.toSound.append
    split
    · exact joins_text (by decide) (by decide) (by decide)
    · exact joins_text (by decide) (by decide) (by decide)
  · have bracket : Joins [.text ['>']] := joins_text (by decide) (by decide) (by decide)
    have content := fits.inline.after bracket (by simp) (by decide)
    have whole := (fits.started.append content).append fits.closing
    rw [Element.openPieces, List.append_assoc (.text ['<'] :: element.headPieces)]
    exact whole.toSound

end

end ThemeRender.Markup
