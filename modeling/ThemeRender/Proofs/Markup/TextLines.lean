import ThemeRender.Proofs.Markup.Interpolation
import ThemeRender.Proofs.Markup.LineReaders
import ThemeRender.Proofs.Markup.SharedElements
/-!
Where the text of a line is looked through for expressions: it is the line itself, it follows the
head of an element, or the line is nested in an element that takes its lines as text.
-/

namespace ThemeRender.Markup

open Outcome (of_toOption)

variable {line : Line} {words : List Char}

/-! ## Lines with text of their own -/

def afterSlash : List Char → List Char
  | '/' :: rest => rest
  | rest => rest

theorem afterSlash_of_none {rest : List Char} (noSlash : ∀ after, rest = '/' :: after → False) :
    afterSlash rest = rest ∧ (rest.head? == some '/') = false := by
  constructor
  · unfold afterSlash
    split
    · exact (noSlash _ rfl).elim
    · rfl
  · rw [beq_eq_false_iff_ne]
    intro slash
    obtain ⟨after, same⟩ := List.head?_eq_some_iff.mp slash
    exact noSlash after same

/-- The construct is made of the pieces of a text. -/
inductive Construct.Bears (pieces : List Piece) : Construct → Prop
  | text : Bears pieces (.text pieces)
  | inline {element : Element} (same : element.inline = .text pieces) :
      Bears pieces (.element element)

def ReadsText (alone : Line → Except Complaint Construct) (line : Line) (words : List Char) :
    Prop :=
  ∃ shape : List Piece → Construct, (∀ pieces, (shape pieces).Bears pieces) ∧
    alone line = (line.check (interpolate words)).map shape

namespace Haml

def inlineText? (line : Line) : Option (List Char) := do
  let found ← (readShorthands ⟨none, []⟩ (readTag line.text).2).toOption
  let attrs ← (readAttributes found.2.length found.2).toOption
  let rest := afterSlash attrs.2
  if rest.head? = some ' ' ∧ Text.trim rest ≠ [] then some (Text.trim rest) else none

/-- The text of a line in which expressions are looked for. -/
def text? (line : Line) : Option (List Char) :=
  if startsElement line.text then inlineText? line else plain? line.text

theorem finish_eq (line : Line) (tag : List Char) (shorthands : Shorthands) (attrs : List Attr)
    (rest : List Char) :
    finish line tag shorthands attrs rest = (readInline line (afterSlash rest)).map fun inline =>
      ⟨tag, shorthands, attrs, rest.head? == some '/', inline⟩ := by
  unfold finish
  split
  rename_i parted
  split at parted
  · cases parted
    rw [afterSlash]
    cases readInline line _ <;> rfl
  · rename_i noSlash
    cases parted
    obtain ⟨same, unclosed⟩ := afterSlash_of_none noSlash
    rw [same, unclosed]
    cases readInline line rest <;> rfl

theorem readInline_text {rest : List Char} (blank : rest.head? = some ' ')
    (some : Text.trim rest ≠ []) :
    readInline line rest = (line.check (interpolate (Text.trim rest))).map .text := by
  unfold readInline
  split
  · cases blank
  · rw [if_neg (by simpa using some), if_pos blank]

theorem readAlone_element (starts : startsElement line.text = true) :
    readAlone line = (readElement line).map .element := by
  unfold readAlone readConstruct
  split
  case h_7 => rw [if_pos starts]
  all_goals
    rename_i text
    rw [text] at starts
    cases starts

theorem readsText_of_text (text : text? line = some words) : ReadsText readAlone line words := by
  unfold text? at text
  split at text
  · rename_i starts
    obtain ⟨found, readsShorthands, text⟩ := Option.bind_eq_some_iff.mp text
    obtain ⟨attrs, readsAttrs, text⟩ := Option.bind_eq_some_iff.mp text
    dsimp only at text
    split at text
    · rename_i follows
      cases text
      refine ⟨fun pieces => .element ⟨(readTag line.text).1, found.1, attrs.1,
        attrs.2.head? == some '/', .text pieces⟩, fun _ => .inline rfl, ?_⟩
      rw [readAlone_element starts, readElement_eq]
      dsimp only
      rw [of_toOption readsShorthands]
      change (line.check (readAttributes _ _) >>= _).map _ = _
      rw [of_toOption readsAttrs]
      change (finish line _ _ _ attrs.2).map _ = _
      rw [finish_eq, readInline_text follows.1 follows.2]
      cases line.check (interpolate (Text.trim (afterSlash attrs.2))) <;> rfl
    · cases text
  · refine ⟨.text, fun _ => .text, ?_⟩
    exact readConstruct_of_plain text []

theorem within_of_text (text : text? line = some words) : within line = .markup := by
  unfold within
  split
  case h_4 => rfl
  all_goals
    rename_i starts
    rw [text?, starts] at text
    cases text

end Haml

namespace Jade

def inlineText? (line : Line) : Option (List Char) := do
  let head ← (readHead line).toOption
  match afterSlash head.rest with
  | ' ' :: text => some text
  | _ => none

def text? (line : Line) : Option (List Char) :=
  match plain? line.text, readSimple line with
  | some words, _ => some words
  | none, .ok none => if startsElement line.text then inlineText? line else none
  | none, _ => none

theorem readElement_eq (line : Line) (head : Head) :
    readElement line head = (readInline line head.tag (afterSlash head.rest)).map fun inline =>
      ⟨head.tag, head.shorthands, head.attrs, head.rest.head? == some '/', inline⟩ := by
  unfold readElement
  split
  rename_i parted
  split at parted
  · rename_i slash
    cases parted
    rw [slash, afterSlash]
    cases readInline line head.tag _ <;> rfl
  · rename_i noSlash
    cases parted
    obtain ⟨same, unclosed⟩ := afterSlash_of_none noSlash
    rw [same, unclosed]
    cases readInline line head.tag head.rest <;> rfl

theorem inline_of_text (text : inlineText? line = some words) :
    ∃ head, readHead line = .ok head ∧ afterSlash head.rest = ' ' :: words := by
  obtain ⟨head, reads, text⟩ := Option.bind_eq_some_iff.mp text
  refine ⟨head, of_toOption reads, ?_⟩
  split at text
  · rename_i follows
    cases text
    exact follows
  · cases text

theorem readsText_of_text (text : text? line = some words) : ReadsText readAlone line words := by
  unfold text? at text
  split at text
  · rename_i plain
    cases text
    refine ⟨.text, fun _ => .text, ?_⟩
    rw [readAlone, readSimple_of_plain plain]
    cases line.check (interpolate words) <;> rfl
  · rename_i simple
    split at text
    · rename_i starts
      obtain ⟨head, readsHead, follows⟩ := inline_of_text text
      refine ⟨fun pieces => .element ⟨head.tag, head.shorthands, head.attrs,
        head.rest.head? == some '/', .text pieces⟩, fun _ => .inline rfl, ?_⟩
      rw [readAlone, simple]
      change (if startsElement line.text then _ else _) = _
      rw [if_pos starts, readsHead]
      change (readElement line head >>= _) = _
      rw [readElement_eq, follows]
      change (((line.check (interpolate words)).map Inline.text).map _ >>= _) = _
      cases line.check (interpolate words) <;> rfl
    · cases text
  · cases text

theorem within_of_text (text : text? line = some words) : within line = .markup := by
  unfold text? at text
  split at text
  · rename_i plain
    have noComment : ∀ rest, line.text ≠ '/' :: '/' :: rest := by
      intro rest same
      rw [same] at plain
      cases plain
    rw [within_of_noComment noComment, withinShown, readSimple_of_plain plain]
    cases line.check (interpolate _) <;> rfl
  · rename_i simple
    split at text
    · rename_i starts
      have noComment : ∀ rest, line.text ≠ '/' :: '/' :: rest := by
        intro rest same
        rw [same] at starts
        cases starts
      obtain ⟨head, readsHead, follows⟩ := inline_of_text text
      have noDot : head.rest ≠ ['.'] := by
        intro dot
        rw [dot] at follows
        cases follows
      rw [within_of_head noComment simple readsHead, Head.within, if_neg noDot]
    · cases text
  · cases text

end Jade

/-! ## Lines that are taken as text -/

/-- Lines of text that stand for the line they are nested in. -/
def readLines (line : Line) (body : List (List Char)) : Except Complaint (List Item) :=
  body.mapM fun text =>
    (line.check (interpolate text)).map fun pieces => .ofLine line (.text pieces) []

/-- What is nested in the line is read as text, unless the line is refused. -/
def TakesText (read : LineTree → Except Complaint (List Item)) (line : Line) : Prop :=
  (∃ construct : Construct, construct.nests = true ∧ ∀ nested, read (.mk line nested) =
    (readLines line (LineTree.rawNested (.mk line nested))).map fun items =>
      [.ofLine line construct items]) ∨
  ∃ fault, ∀ nested, read (.mk line nested) = .error (line.complain fault)

namespace Jade

theorem Head.dot_of_within {head : Head} (taken : head.within = .text) :
    head.rest = ['.'] ∧ head.tag ∉ rawTextTags := by
  unfold Head.within at taken
  split at taken
  · rename_i dot
    split at taken
    · cases taken
    · rename_i notRaw
      exact ⟨dot, fun raw => notRaw (List.contains_iff_mem.mpr raw)⟩
  · cases taken

theorem head_of_within (taken : within line = .text) :
    (∀ rest, line.text ≠ '/' :: '/' :: rest) ∧ readSimple line = .ok none ∧
      ∃ head, readHead line = .ok head ∧ head.rest = ['.'] ∧ head.tag ∉ rawTextTags := by
  unfold within at taken
  split at taken
  · cases taken
  · cases taken
  · rename_i noComment
    unfold withinShown at taken
    split at taken
    · cases taken
    · rename_i simple readsHead
      exact ⟨fun rest => noComment rest, simple, _, readsHead, Head.dot_of_within taken⟩
    · cases taken

theorem takesText (taken : within line = .text) : TakesText readTree line := by
  obtain ⟨noComment, simple, head, readsHead, dot, notRaw⟩ := head_of_within taken
  have read (nested : List LineTree) : readTree (.mk line nested) =
      if startsElement line.text then
        (readLines line (LineTree.rawNested (.mk line nested))).map fun body =>
          [.ofLine line (.element ⟨head.tag, head.shorthands, head.attrs, false, .none⟩) body]
      else .error (line.complain (.looseText line.text)) := by
    rw [readTree.eq_def]
    dsimp only
    split
    · rename_i text
      exact absurd text (noComment _)
    · rename_i text
      exact absurd text (noComment _)
    · rw [simple]
      change (if startsElement line.text then _ else _) = _
      split
      · rw [readsHead]
        change (if head.rest = ['.'] then _ else _) = _
        rw [if_pos dot, readTextBlock, if_neg notRaw]
        change readLines line _ >>= _ = _
        cases readLines line _ <;> rfl
      · rfl
  by_cases starts : startsElement line.text = true
  · refine .inl ⟨.element ⟨head.tag, head.shorthands, head.attrs, false, .none⟩, rfl,
      fun nested => ?_⟩
    rw [read, if_pos starts]
  · refine .inr ⟨.looseText line.text, fun nested => ?_⟩
    rw [read, if_neg starts]

end Jade

structure TextReader (within : Line → Context) (text? : Line → Option (List Char))
    (alone : Line → Except Complaint Construct)
    (read : LineTree → Except Complaint (List Item)) : Prop where
  own {line : Line} {words : List Char} (text : text? line = some words) :
    within line = .markup ∧ ReadsText alone line words
  block {line : Line} (taken : within line = .text) : TakesText read line

theorem Haml.textReader : TextReader within text? readAlone readTree where
  own text := ⟨within_of_text text, readsText_of_text text⟩
  block {line} taken := by
    unfold within at taken
    split at taken <;> cases taken

theorem Jade.textReader : TextReader within text? readAlone readTree where
  own text := ⟨within_of_text text, readsText_of_text text⟩
  block := takesText

def textRule? : Dialect → Option (Line → Option (List Char))
  | .haml => some Haml.text?
  | .jade => some Jade.text?
  | .native => none

/-- The text of a line, and the line that it is read for: a line that is taken as text is read for
the one that takes it. -/
inductive TextPlace (rules : LineRules) (text? : Line → Option (List Char)) (source : List Char) :
    Line → Line → List Char → Prop
  | own {line : Line} {nested : List LineTree} {words : List Char}
      (placed : ⟨.markup, .mk line nested⟩ ∈ LineTree.sourcePlaces rules source)
      (text : text? line = some words) : TextPlace rules text? source line line words
  | block {head : Line} {nested : List LineTree} {placed : Placed}
      (placedHead : ⟨.markup, .mk head nested⟩ ∈ LineTree.sourcePlaces rules source)
      (taken : rules.within head = .text)
      (inner : placed ∈ LineTree.forestPlaces rules .text nested) :
      TextPlace rules text? source placed.tree.line head placed.tree.line.text

end ThemeRender.Markup
