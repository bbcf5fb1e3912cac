import Mathlib.Data.Bool.AllAny
import ThemeRender.Proofs.Markup.LineText
import ThemeRender.Proofs.Markup.Shared
import ThemeRender.Proofs.Text.Splitting

namespace ThemeRender.Markup

open Outcome (Together except_bind_eq_ok of_map_ok)

/-! The line without the blanks at its end -/

theorem not_blank_shorthandsText (shorthands : List Shorthand) :
    ∀ c ∈ shorthandsText shorthands, Text.isBlank c = false := by
  intro c member
  obtain ⟨shorthand, -, within⟩ := List.mem_flatMap.mp member
  cases shorthand with
  | ofClass name =>
      rcases List.mem_cons.mp within with rfl | letter
      · decide
      · exact not_blank_of_nameChar (name.letters c letter)
  | ofId name =>
      rcases List.mem_cons.mp within with rfl | letter
      · decide
      · exact not_blank_of_nameChar (name.letters c letter)

def Content.kept : Content → List Char
  | .none => []
  | .text contents _ _ => ' ' :: contents.text
  | .output code => '=' :: Text.trimEnd (' ' :: code.text)

theorem Content.trimEnd_spelling (content : Content) :
    Text.trimEnd content.spelling = content.kept := by
  cases content with
  | none => rfl
  | text contents some trimmed =>
      have kept := Text.trimEnd_of_trim trimmed
      have busy : Text.trimEnd contents.text ≠ [] := by
        rw [kept]
        exact some
      exact (Text.trimEnd_append_of_busy busy [' ']).trans (by rw [kept]; rfl)
  | output code => exact Text.trimEnd_cons_of_not_blank (by decide) _

def nameEnds : List Char :=
  ['(', '\x7b', '/', '=', ' ']

namespace ElementLine

def tail (element : ElementLine) : List Char :=
  (if element.selfClosing then ['/'] else []) ++ element.content.kept

def rest (element : ElementLine) : List Char :=
  match element.attrs? with
  | none => element.tail
  | some attrs => '(' :: (attrs.body ++ ')' :: element.tail)

theorem trimEnd_afterShorthands (element : ElementLine) :
    Text.trimEnd element.afterShorthands = element.rest := by
  have slashed : Text.trimEnd ((if element.selfClosing then ['/'] else []) ++
      element.content.spelling) = element.tail := by
    rw [Text.trimEnd_append_of_kept, Content.trimEnd_spelling]
    · rfl
    · split <;> decide
  unfold afterShorthands rest
  cases element.attrs? with
  | none => exact slashed
  | some attrs =>
      have close := Text.trimEnd_cons_of_not_blank (c := ')') (by decide)
        ((if element.selfClosing then ['/'] else []) ++ element.content.spelling)
      refine (Text.trimEnd_append_of_busy ?_ ('(' :: attrs.body)).trans ?_
      · rw [close]
        exact List.cons_ne_nil _ _
      · rw [close, slashed]
        rfl

theorem trimEnd_afterTag (element : ElementLine) :
    Text.trimEnd element.afterTag = shorthandsText element.name.shorthands ++ element.rest := by
  rw [afterTag, Text.trimEnd_append_of_kept, trimEnd_afterShorthands]
  exact Text.trimEnd_of_not_blank (not_blank_shorthandsText _)

theorem trimEnd_jade (element : ElementLine) :
    Text.trimEnd element.jade =
      element.name.jade ++ (shorthandsText element.name.shorthands ++ element.rest) := by
  rw [jade, Text.trimEnd_append_of_kept, trimEnd_afterTag]
  cases element.name with
  | tag name shorthands =>
      exact Text.trimEnd_of_not_blank fun c member =>
        not_blank_of_nameChar (name.letters_text c member)
  | bare first more => rfl

theorem trimEnd_haml (element : ElementLine) :
    Text.trimEnd element.haml =
      element.name.haml ++ (shorthandsText element.name.shorthands ++ element.rest) := by
  rw [haml, Text.trimEnd_append_of_kept, trimEnd_afterTag]
  cases element.name with
  | tag name shorthands =>
      refine Text.trimEnd_of_not_blank (List.forall_mem_cons.mpr ⟨by decide, ?_⟩)
      exact fun c member => not_blank_of_nameChar (name.letters_text c member)
  | bare first more => rfl

/-! What the parts of the line start with -/

theorem head_tail (element : ElementLine) :
    ∀ c, element.tail.head? = some c → c ∈ ['/', '=', ' '] := by
  unfold tail
  cases element.selfClosing <;> cases element.content <;> rintro _ ⟨⟩ <;> decide

theorem head_rest (element : ElementLine) :
    ∀ c, element.rest.head? = some c → c ∈ nameEnds := by
  unfold rest
  cases element.attrs? with
  | none =>
      exact fun c first => List.mem_append_right ['(', '\x7b'] (element.head_tail c first)
  | some attrs =>
      rintro _ ⟨⟩
      decide

end ElementLine

/-! Classes and ids -/

theorem stops_shorthands (shorthands : List Shorthand) {rest : List Char}
    (ends : ∀ c, rest.head? = some c → c ∈ nameEnds) :
    ∀ c, (shorthandsText shorthands ++ rest).head? = some c → isNameChar c = false := by
  intro c first
  cases shorthands with
  | nil =>
      have marks : ∀ c ∈ nameEnds, isNameChar c = false := List.all_iff_forall_prop.mp rfl
      exact marks c (ends c first)
  | cons shorthand more => cases shorthand <;> cases first <;> rfl

def Shorthands.add (found : Shorthands) : Shorthand → Except CompileFault Shorthands
  | .ofClass name => .ok { found with classes := found.classes ++ [name.text] }
  | .ofId name =>
      if found.id?.isSome then .error (.secondId name.text)
      else .ok { found with id? := some name.text }

theorem readShorthands_text (shorthands : List Shorthand) (found : Shorthands) {rest : List Char}
    (ends : ∀ c, rest.head? = some c → c ∈ nameEnds) :
    readShorthands found (shorthandsText shorthands ++ rest) =
      (shorthands.foldlM Shorthands.add found).map (·, rest) := by
  induction shorthands generalizing found with
  | nil =>
      change readShorthands found rest = .ok (found, rest)
      rw [readShorthands.eq_def]
      split
      · exact absurd (ends '.' rfl) (by decide)
      · exact absurd (ends '#' rfl) (by decide)
      · rfl
  | cons shorthand more ih =>
      have stops := stops_shorthands more ends
      have split : shorthandsText (shorthand :: more) ++ rest =
          shorthand.text ++ (shorthandsText more ++ rest) := List.append_assoc _ _ _
      rw [split, List.foldlM_cons]
      cases shorthand with
      | ofClass name =>
          obtain ⟨letter, letters⟩ := List.forall_mem_cons.mp name.letters
          change readShorthands found ('.' :: name.first :: (name.rest ++ _)) = _
          rw [readShorthands, if_pos letter, Text.dropWhile_exact letters stops,
            Text.takeWhile_exact letters stops, ih]
          rfl
      | ofId name =>
          obtain ⟨letter, letters⟩ := List.forall_mem_cons.mp name.letters
          change readShorthands found ('#' :: name.first :: (name.rest ++ _)) = _
          rw [readShorthands, if_pos letter]
          dsimp only
          rw [Text.dropWhile_exact letters stops, Text.takeWhile_exact letters stops,
            Shorthands.add]
          split
          · rfl
          · rw [ih]
            rfl

theorem left_of_readShorthands {shorthands : List Shorthand} {found all : Shorthands}
    {rest left : List Char} (ends : ∀ c, rest.head? = some c → c ∈ nameEnds)
    (reads : readShorthands found (shorthandsText shorthands ++ rest) = .ok (all, left)) :
    left = rest := by
  rw [readShorthands_text shorthands found ends] at reads
  obtain ⟨added, -, same⟩ := of_map_ok reads
  cases same
  rfl

/-! The attribute list -/

theorem check_together {α : Type} {P : α → Prop} {result : Except CompileFault α}
    (line lineToo : Line) (holds : ∀ a, result = .ok a → P a) :
    Together (fun a b => a = b ∧ P a) (line.check result) (lineToo.check result) := by
  cases result with
  | error fault => exact .error _ _
  | ok a => exact .ok ⟨rfl, holds a rfl⟩

theorem check_map_together {α β : Type} (result : Except CompileFault α) (f : α → β)
    (line lineToo : Line) :
    Together (· = ·) ((line.check result).map f) ((lineToo.check result).map f) := by
  cases result with
  | error fault => exact .error _ _
  | ok a => exact .ok rfl

theorem Haml.readAttributes_none {s : List Char} (count : Nat)
    (ends : ∀ c, s.head? = some c → c ∈ ['/', '=', ' ']) :
    Haml.readAttributes count s = .ok ([], s) := by
  cases count with
  | zero => rfl
  | succ count =>
      rw [Haml.readAttributes.eq_def]
      dsimp only
      split
      · exact absurd (ends '(' rfl) (by decide)
      · exact absurd (ends '\x7b' rfl) (by decide)
      · rfl

def Jade.readAttributes (line : Line) (rest : List Char) :
    Except Complaint (List Attr × List Char) :=
  match rest with
  | '(' :: rest => line.check (readList rest)
  | _ => pure ([], rest)

theorem Jade.readAttributes_none {line : Line} {rest : List Char}
    (other : ∀ body, rest ≠ '(' :: body) : Jade.readAttributes line rest = pure ([], rest) := by
  unfold Jade.readAttributes
  split
  · exact absurd rfl (other _)
  · rfl

theorem Jade.readHead_eq (line : Line) : Jade.readHead line = (do
    let tag := line.text.takeWhile isNameChar
    let found ← line.check (readShorthands ⟨none, []⟩ (line.text.dropWhile isNameChar))
    let attrs ← Jade.readAttributes line found.2
    return ⟨if tag.isEmpty then "div".toList else tag, found.1, attrs.1, attrs.2⟩) := by
  unfold Jade.readHead
  dsimp only
  congr 1
  funext found
  obtain ⟨shorthands, rest⟩ := found
  dsimp only
  generalize (if (line.text.takeWhile isNameChar).isEmpty then "div".toList
    else line.text.takeWhile isNameChar) = tag
  split
  · rfl
  · rename_i other
    rw [Jade.readAttributes_none other]

theorem attributes_together (element : ElementLine) (line lineToo : Line) :
    Together (fun found foundToo => found = foundToo ∧ found.2 = element.tail)
      (line.check (Haml.readAttributes element.rest.length element.rest))
      (Jade.readAttributes lineToo element.rest) := by
  unfold ElementLine.rest
  cases element.attrs? with
  | none =>
      dsimp only
      rw [Haml.readAttributes_none _ element.head_tail, Jade.readAttributes_none]
      · exact .ok ⟨rfl, rfl⟩
      · intro body same
        exact absurd (element.head_tail '(' (by rw [same]; rfl)) (by decide)
  | some attrs =>
      dsimp only
      rw [List.length_cons, Haml.readAttributes, Jade.readAttributes]
      cases read : readList (attrs.body ++ ')' :: element.tail) with
      | error fault => exact .error _ _
      | ok found =>
          obtain ⟨found, left⟩ := found
          cases attrs.closes _ _ _ read
          change Together _ (line.check ((Haml.readAttributes _ element.tail) >>= _)) _
          rw [Haml.readAttributes_none _ element.head_tail]
          exact .ok ⟨congrArg (·, element.tail) (List.append_nil found), rfl⟩

/-! What follows the head -/

theorem inline_together (content : Content) (line lineToo : Line) (tag : List Char) :
    Together (· = ·) (Haml.readInline line content.kept)
      (Jade.readInline lineToo tag content.kept) := by
  cases content with
  | none => exact .ok rfl
  | text contents some trimmed =>
      have whole : Text.trim (' ' :: contents.text) = contents.text := by
        rw [Text.trim_cons_of_blank (by decide), trimmed]
      have haml : Haml.readInline line (' ' :: contents.text) =
          (line.check (interpolate contents.text)).map .text := by
        change (if (Text.trim (' ' :: contents.text)).isEmpty then Except.ok Inline.none
          else (line.check (interpolate (Text.trim (' ' :: contents.text)))).map .text) = _
        rw [whole, if_neg (by simpa using some)]
      rw [Content.kept, haml]
      exact check_map_together _ _ _ _
  | output code =>
      change Together _ (if (Text.trim (Text.trimEnd (' ' :: code.text))).isEmpty then _ else _)
        (Except.map _ (if (Text.trim (Text.trimEnd (' ' :: code.text))).isEmpty then _ else _))
      split
      · exact .error _ _
      · exact .ok rfl

def Haml.finish (line : Line) (tag : List Char) (shorthands : Shorthands) (attrs : List Attr)
    (rest : List Char) : Except Complaint Element := do
  let (selfClosing, rest) :=
    match rest with
    | '/' :: rest => (true, rest)
    | _ => (false, rest)
  let inline ← Haml.readInline line rest
  return ⟨tag, shorthands, attrs, selfClosing, inline⟩

theorem Haml.readElement_eq (line : Line) : Haml.readElement line = (do
    let tagged := Haml.readTag line.text
    let found ← line.check (readShorthands ⟨none, []⟩ tagged.2)
    let attrs ← line.check (Haml.readAttributes found.2.length found.2)
    Haml.finish line tagged.1 found.1 attrs.1 attrs.2) := rfl

theorem finish_together (element : ElementLine) (line lineToo : Line) (tag : List Char)
    (shorthands : Shorthands) (attrs : List Attr) :
    Together (· = ·) (Haml.finish line tag shorthands attrs element.tail)
      (Jade.readElement lineToo ⟨tag, shorthands, attrs, element.tail⟩) := by
  unfold ElementLine.tail
  cases element.selfClosing with
  | true =>
      apply (inline_together element.content line lineToo tag).bind
      rintro inline _ rfl
      exact .ok rfl
  | false =>
      apply Together.mono _ fun _ _ => id
      cases same : element.content
      all_goals
        have together := inline_together element.content line lineToo tag
        rw [same] at together
        apply together.bind
        rintro inline _ rfl
        exact .ok rfl

/-! The whole line -/

def ElementName.tagText : ElementName → List Char
  | .tag name _ => name.text
  | .bare _ _ => "div".toList

theorem ElementName.letters_jade (name : ElementName) :
    ∀ c ∈ name.jade, isNameChar c = true := by
  cases name with
  | tag name shorthands => exact name.letters_text
  | bare first more => exact fun c member => absurd member List.not_mem_nil

theorem Haml.readTag_line (element : ElementLine) :
    Haml.readTag (Text.trimEnd element.haml) =
      (element.name.tagText, shorthandsText element.name.shorthands ++ element.rest) := by
  have stops := stops_shorthands element.name.shorthands element.head_rest
  rw [element.trimEnd_haml]
  cases named : element.name with
  | tag name shorthands =>
      rw [named] at stops
      exact Prod.ext (Text.takeWhile_exact name.letters_text stops)
        (Text.dropWhile_exact name.letters_text stops)
  | bare first more => cases first <;> rfl

theorem Jade.readTag_line (element : ElementLine) :
    (Text.trimEnd element.jade).takeWhile isNameChar = element.name.jade ∧
      (Text.trimEnd element.jade).dropWhile isNameChar =
        shorthandsText element.name.shorthands ++ element.rest := by
  have stops := stops_shorthands element.name.shorthands element.head_rest
  rw [element.trimEnd_jade]
  exact ⟨Text.takeWhile_exact element.name.letters_jade stops,
    Text.dropWhile_exact element.name.letters_jade stops⟩

theorem ElementName.tagText_jade (name : ElementName) :
    (if name.jade.isEmpty then "div".toList else name.jade) = name.tagText := by
  cases name <;> rfl

section

variable {element : ElementLine} {line lineToo : Line}

theorem readElement_together (haml : line.text = Text.trimEnd element.haml)
    (jade : lineToo.text = Text.trimEnd element.jade) :
    Together (· = ·) (Haml.readElement line)
      (Jade.readHead lineToo >>= Jade.readElement lineToo) := by
  obtain ⟨tag, rest⟩ := Jade.readTag_line element
  rw [Haml.readElement_eq, Jade.readHead_eq, haml, jade, Haml.readTag_line, tag, rest]
  dsimp only
  rw [element.name.tagText_jade]
  simp only [bind_assoc, pure_bind]
  apply (check_together line lineToo fun found reads =>
    left_of_readShorthands element.head_rest reads).bind
  rintro found _ ⟨rfl, same⟩
  rw [same]
  apply (attributes_together element line lineToo).bind
  rintro attrs _ ⟨rfl, sameToo⟩
  rw [sameToo]
  exact finish_together element line lineToo _ _ _

theorem Jade.rest_of_readHead {head : Jade.Head} (jade : lineToo.text = Text.trimEnd element.jade)
    (reads : Jade.readHead lineToo = .ok head) : head.rest ≠ ['.'] := by
  rw [Jade.readHead_eq, jade, (Jade.readTag_line element).2] at reads
  obtain ⟨found, readsShorthands, reads⟩ := except_bind_eq_ok.mp reads
  obtain ⟨attrs, readsAttrs, same⟩ := except_bind_eq_ok.mp reads
  cases same
  rw [left_of_readShorthands element.head_rest (of_check readsShorthands)] at readsAttrs
  have together := attributes_together element lineToo lineToo
  rw [readsAttrs] at together
  generalize lineToo.check _ = haml at together
  cases together with
  | ok related =>
      intro (point : attrs.2 = ['.'])
      rw [← related.1, related.2] at point
      exact absurd (element.head_tail '.' (by rw [point]; rfl)) (by decide)

/-! An element line is no line of another kind in Jade -/

theorem firstWord_word (text : List Char) :
    (firstWord text).1 = text.takeWhile (!Text.isBlank ·) := by
  unfold firstWord
  rw [Text.cutWhere?_eq]
  cases left : text.dropWhile (!Text.isBlank ·) with
  | nil =>
      have whole := List.takeWhile_append_dropWhile (p := (!Text.isBlank ·)) (l := text)
      rw [left, List.append_nil] at whole
      exact whole.symm
  | cons blank after => rfl

theorem letters_leadWords : ∀ word ∈ leadWords, ∀ c ∈ word, isNameChar c = true := by
  intro word member
  have letters : leadWords.all (·.all isNameChar) = true := rfl
  exact List.all_eq_true.mp (List.all_eq_true.mp letters word member)

theorem firstWord_free {lead rest : List Char} (letters : ∀ c ∈ lead, isNameChar c = true)
    (stops : ∀ c, rest.head? = some c → isNameChar c = false) (free : lead ∉ leadWords) :
    (firstWord (lead ++ rest)).1 ∉ leadWords := by
  have busy : ∀ c ∈ lead, (!Text.isBlank c) = true := by
    intro c member
    rw [not_blank_of_nameChar (letters c member)]
    rfl
  rw [firstWord_word, List.takeWhile_append_of_pos busy]
  intro member
  -- a lead word has only name characters, so the word ends where they end
  have whole : rest.takeWhile (!Text.isBlank ·) = [] := by
    cases rest with
    | nil => rfl
    | cons c more =>
        rw [List.takeWhile_cons] at member ⊢
        split at member
        · have letter := letters_leadWords _ member c
            (List.mem_append_right lead List.mem_cons_self)
          rw [stops c rfl] at letter
          cases letter
        · rename_i blank
          exact if_neg blank
  rw [whole, List.append_nil] at member
  exact free member

theorem Jade.readKeyword_free (free : (firstWord lineToo.text).1 ∉ leadWords) :
    Jade.readKeyword lineToo = .ok none := by
  simp only [leadWords, List.map_cons, List.map_nil, List.mem_cons, List.not_mem_nil, not_or,
    or_false] at free
  obtain ⟨noDoctype, noIf, noElse, noEach, noFor⟩ := free
  unfold Jade.readKeyword
  dsimp only
  rw [if_neg noDoctype, if_neg fun both => noElse both.1, if_neg]
  rintro (same | same | same)
  · exact noIf same
  · exact noEach same
  · exact noFor same

def Jade.marks : List Char :=
  ['|', '<', '=', '-', '/']

theorem Jade.readSimple_unmarked (unmarked : ∀ c, lineToo.text.head? = some c → c ∉ Jade.marks) :
    Jade.readSimple lineToo = Jade.readKeyword lineToo := by
  unfold Jade.readSimple
  split
  all_goals first
    | rfl
    | rename_i text
      rw [text] at unmarked
      exact absurd (by decide) (unmarked _ rfl)

theorem ElementName.jade_free (name : ElementName) : name.jade ∉ leadWords := by
  cases name with
  | tag name shorthands => exact name.free
  | bare first more => exact (by decide : [] ∉ leadWords)

theorem Jade.unmarked_element (element : ElementLine) :
    ∀ c, (Text.trimEnd element.jade).head? = some c → c ∉ Jade.marks := by
  rw [element.trimEnd_jade]
  cases element.name with
  | tag name shorthands =>
      rintro _ ⟨⟩ member
      have noLetter : ∀ c ∈ Jade.marks, c.isAlpha = false := List.all_iff_forall_prop.mp rfl
      have starts := name.starts
      rw [noLetter _ member] at starts
      cases starts
  | bare first more => cases first <;> rintro _ ⟨⟩ <;> decide

theorem Jade.readSimple_element (jade : lineToo.text = Text.trimEnd element.jade) :
    Jade.readSimple lineToo = .ok none := by
  have stops := stops_shorthands element.name.shorthands element.head_rest
  rw [Jade.readSimple_unmarked, Jade.readKeyword_free]
  · rw [jade, element.trimEnd_jade]
    exact firstWord_free element.name.letters_jade stops element.name.jade_free
  · rw [jade]
    exact Jade.unmarked_element element

theorem Shorthand.startsElement (first : Shorthand) (rest : List Char) :
    Haml.startsElement (first.text ++ rest) = true ∧
      Jade.startsElement (first.text ++ rest) = true := by
  cases first with
  | ofClass name =>
      have letter : isNameChar name.first = true := name.letters _ List.mem_cons_self
      exact ⟨letter, letter⟩
  | ofId name =>
      have letter : isNameChar name.first = true := name.letters _ List.mem_cons_self
      exact ⟨letter, letter⟩

theorem Haml.startsElement_element (element : ElementLine) :
    Haml.startsElement (Text.trimEnd element.haml) = true := by
  rw [element.trimEnd_haml]
  cases element.name with
  | tag name shorthands => exact nameChar_of_isAlpha name.starts
  | bare first more =>
      change Haml.startsElement (first.text ++ shorthandsText more ++ element.rest) = true
      rw [List.append_assoc]
      exact (first.startsElement _).1

theorem Jade.startsElement_element (element : ElementLine) :
    Jade.startsElement (Text.trimEnd element.jade) = true := by
  rw [element.trimEnd_jade]
  cases element.name with
  | tag name shorthands =>
      have starts := name.starts
      change Jade.startsElement (name.first :: (name.rest ++ _)) = true
      unfold Jade.startsElement
      split
      · rename_i same
        cases same
      · rename_i same
        rw [(List.cons.inj same).1] at starts
        cases starts
      · rename_i same
        rw [(List.cons.inj same).1] at starts
        cases starts
      · rename_i same
        rw [← (List.cons.inj same).1]
        exact starts
  | bare first more =>
      change Jade.startsElement (first.text ++ shorthandsText more ++ element.rest) = true
      rw [List.append_assoc]
      exact (first.startsElement _).2

end

end ThemeRender.Markup
