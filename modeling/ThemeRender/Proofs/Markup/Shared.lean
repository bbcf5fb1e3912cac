import ThemeRender.Markup.Compiler
import ThemeRender.Proofs.Markup.Contents
import ThemeRender.Proofs.Markup.ListEnd
import ThemeRender.Proofs.Text.Lines
/-!
The language that the dialects share. A page in it is a tree, and either dialect spells it line by
line with the same indentation.
-/

namespace ThemeRender.Markup

structure LineEnd where
  text : List Char
  flat : Text.Flat text

structure Blanks where
  text : List Char
  blank : ∀ c ∈ text, Text.isBlank c = true
  flat : Text.Flat text

/-- How much further in nested lines are. -/
structure Step extends Blanks where
  some : text ≠ []

structure Word where
  first : Char
  rest : List Char
  letters : ∀ c ∈ first :: rest, isNameChar c = true

def Word.text (word : Word) : List Char :=
  word.first :: word.rest

/-- The words that start a line of another kind than an element. -/
def leadWords : List (List Char) :=
  ["doctype", "if", "else", "each", "for"].map String.toList

structure TagName where
  first : Char
  rest : List Char
  starts : first.isAlpha = true
  letters : ∀ c ∈ rest, isNameChar c = true
  free : first :: rest ∉ leadWords

def TagName.text (name : TagName) : List Char :=
  name.first :: name.rest

inductive Shorthand where
  | ofClass (name : Word)
  | ofId (name : Word)

def Shorthand.text : Shorthand → List Char
  | .ofClass name => '.' :: name.text
  | .ofId name => '#' :: name.text

def shorthandsText (shorthands : List Shorthand) : List Char :=
  shorthands.flatMap Shorthand.text

/-- A tag with classes and ids, or a class or an id and more of them. -/
inductive ElementName where
  | tag (name : TagName) (shorthands : List Shorthand)
  | bare (first : Shorthand) (more : List Shorthand)

namespace ElementName

def shorthands : ElementName → List Shorthand
  | .tag _ shorthands => shorthands
  | .bare first more => first :: more

def haml : ElementName → List Char
  | .tag name _ => '%' :: name.text
  | .bare _ _ => []

def jade : ElementName → List Char
  | .tag name _ => name.text
  | .bare _ _ => []

end ElementName

/-- An attribute list between its parentheses. If it is not refused, it ends with the closing
parenthesis, whatever comes after it. -/
structure AttrList where
  body : List Char
  flat : Text.Flat body
  closes : ∀ more attrs left, readList (body ++ ')' :: more) = .ok (attrs, left) → left = more

inductive Content where
  | none
  | text (contents : LineEnd) (some : contents.text ≠ [])
      (trimmed : Text.trim contents.text = contents.text)
  | output (code : LineEnd)

def Content.spelling : Content → List Char
  | .none => []
  | .text contents _ _ => ' ' :: contents.text
  | .output code => '=' :: ' ' :: code.text

structure ElementLine where
  name : ElementName
  attrs? : Option AttrList
  selfClosing : Bool
  content : Content

namespace ElementLine

def afterShorthands (element : ElementLine) : List Char :=
  let slashed := (if element.selfClosing then ['/'] else []) ++ element.content.spelling
  match element.attrs? with
  | none => slashed
  | some attrs => '(' :: attrs.body ++ ')' :: slashed

def afterTag (element : ElementLine) : List Char :=
  shorthandsText element.name.shorthands ++ element.afterShorthands

def haml (element : ElementLine) : List Char :=
  element.name.haml ++ element.afterTag

def jade (element : ElementLine) : List Char :=
  element.name.jade ++ element.afterTag

end ElementLine

inductive BlockWord where
  | ifWord
  | forWord
  | eachWord

def BlockWord.text : BlockWord → List Char
  | .ifWord => "if".toList
  | .forWord => "for".toList
  | .eachWord => "each".toList

inductive Shown where
  | element (element : ElementLine)
  | text (contents : LineEnd)
  | output (code : LineEnd)
  | code (code : LineEnd)
  | block (word : BlockWord) (condition : LineEnd)
  | elseBegin

def Shown.haml : Shown → List Char
  | .element head => head.haml
  | .text line => '\\' :: line.text
  | .output value => '=' :: ' ' :: value.text
  | .code line => '-' :: ' ' :: line.text
  | .block word condition => '-' :: ' ' :: (word.text ++ ' ' :: condition.text)
  | .elseBegin => "- else".toList

def Shown.jade : Shown → List Char
  | .element head => head.jade
  | .text line => '|' :: ' ' :: line.text
  | .output value => '=' :: ' ' :: value.text
  | .code line => '-' :: ' ' :: line.text
  | .block word condition => word.text ++ ' ' :: condition.text
  | .elseBegin => "else".toList

def StartsLine (s : List Char) : Prop :=
  Text.Flat s ∧ s.head?.map Text.isBlank = some false

/-- A line that nobody reads. The dialects may have different lines there. -/
structure Hidden where
  step : Step
  haml : List Char
  jade : List Char
  startsHaml : StartsLine haml
  startsJade : StartsLine jade

inductive Tree where
  | shown (line : Shown) (step : Step) (nested : List Tree)
  | comment (text : LineEnd)
  | silent (text : LineEnd) (hidden : List Hidden)

namespace Tree

def haml : Tree → List Char
  | .shown line _ _ => line.haml
  | .comment text => '/' :: ' ' :: text.text
  | .silent text _ => '-' :: '#' :: text.text

def jade : Tree → List Char
  | .shown line _ _ => line.jade
  | .comment text => '/' :: '/' :: ' ' :: text.text
  | .silent text _ => '/' :: '/' :: '-' :: text.text

def isSilent : Tree → Bool
  | .silent _ _ => true
  | _ => false

end Tree

structure Row where
  indent : List Char
  haml : List Char
  jade : List Char

mutual

def Tree.innerRows (indent : List Char) : Tree → List Row
  | .shown _ step nested => Tree.rows (indent ++ step.text) nested
  | .comment _ => []
  | .silent _ hidden => hidden.map fun line => ⟨indent ++ line.step.text, line.haml, line.jade⟩

def Tree.rows (indent : List Char) : List Tree → List Row
  | [] => []
  | tree :: rest =>
      ⟨indent, tree.haml, tree.jade⟩ :: (tree.innerRows indent ++ Tree.rows indent rest)

end

def Shown.lacksCondition : Shown → Bool
  | .block _ condition => (Text.trim condition.text).isEmpty
  | _ => false

mutual

/-- A block may lack its condition only if more than silent comments is nested in it. -/
def Tree.complete : Tree → Bool
  | .shown line _ nested =>
      (!line.lacksCondition || nested.any (!·.isSilent)) && Tree.allComplete nested
  | .comment _ => true
  | .silent _ _ => true

def Tree.allComplete : List Tree → Bool
  | [] => true
  | tree :: rest => tree.complete && Tree.allComplete rest

end

structure SharedPage where
  indent : Blanks
  trees : List Tree

namespace SharedPage

def rows (page : SharedPage) : List Row :=
  Tree.rows page.indent.text page.trees

def haml (page : SharedPage) : String :=
  String.ofList (page.rows.flatMap fun row => row.indent ++ row.haml ++ ['\n'])

def jade (page : SharedPage) : String :=
  String.ofList (page.rows.flatMap fun row => row.indent ++ row.jade ++ ['\n'])

end SharedPage

theorem StartsLine.cons {c : Char} {s : List Char} (busy : Text.isBlank c = false)
    (feed : c ≠ '\n') (flat : Text.Flat s) : StartsLine (c :: s) :=
  ⟨flat.cons feed, congrArg some busy⟩

theorem not_blank_of_nameChar {c : Char} (letter : isNameChar c = true) :
    Text.isBlank c = false := by
  simp only [isNameChar, Bool.or_eq_true, beq_iff_eq] at letter
  rcases letter with (alphanum | rfl) | rfl
  · exact Text.not_blank_of_isAlphanum alphanum
  · decide
  · decide

theorem nameChar_of_isAlpha {c : Char} (letter : c.isAlpha = true) : isNameChar c = true := by
  simp [isNameChar, Char.isAlphanum, letter]

theorem flat_of_letters {s : List Char} (letters : ∀ c ∈ s, isNameChar c = true) :
    Text.Flat s :=
  not_mem_of_nameChars letters (by decide)

/-! The spellings are lines -/

theorem TagName.letters_text (name : TagName) : ∀ c ∈ name.text, isNameChar c = true :=
  List.forall_mem_cons.mpr ⟨nameChar_of_isAlpha name.starts, name.letters⟩

theorem flat_shorthandsText (shorthands : List Shorthand) :
    Text.Flat (shorthandsText shorthands) := by
  induction shorthands with
  | nil => exact Text.Flat.nil
  | cons shorthand rest ih =>
      apply Text.Flat.append _ ih
      cases shorthand with
      | ofClass name => exact (flat_of_letters name.letters).cons (by decide)
      | ofId name => exact (flat_of_letters name.letters).cons (by decide)

theorem Content.flat_spelling (content : Content) : Text.Flat content.spelling := by
  cases content with
  | none => exact Text.Flat.nil
  | text contents => exact contents.flat.cons (by decide)
  | output code => exact (code.flat.cons (by decide)).cons (by decide)

theorem ElementLine.flat_afterShorthands (element : ElementLine) :
    Text.Flat element.afterShorthands := by
  have slashed : Text.Flat ((if element.selfClosing then ['/'] else []) ++
      element.content.spelling) := by
    apply Text.Flat.append _ element.content.flat_spelling
    split <;> decide
  unfold afterShorthands
  cases element.attrs? with
  | none => exact slashed
  | some attrs => exact (attrs.flat.append (slashed.cons (by decide))).cons (by decide)

theorem ElementLine.flat_afterTag (element : ElementLine) : Text.Flat element.afterTag :=
  (flat_shorthandsText element.name.shorthands).append element.flat_afterShorthands

theorem ElementLine.startsLine_bare {element : ElementLine} {first : Shorthand}
    {more : List Shorthand} (name : element.name = .bare first more) :
    StartsLine element.afterTag := by
  refine ⟨element.flat_afterTag, ?_⟩
  rw [afterTag, name]
  cases first <;> rfl

theorem ElementLine.startsLine_haml (element : ElementLine) : StartsLine element.haml := by
  unfold haml
  cases name : element.name with
  | tag tag shorthands =>
      exact .cons (by decide) (by decide)
        ((flat_of_letters tag.letters_text).append element.flat_afterTag)
  | bare first more => exact startsLine_bare name

theorem ElementLine.startsLine_jade (element : ElementLine) : StartsLine element.jade := by
  unfold jade
  cases name : element.name with
  | tag tag shorthands =>
      refine ⟨(flat_of_letters tag.letters_text).append element.flat_afterTag, ?_⟩
      exact congrArg some (not_blank_of_nameChar (nameChar_of_isAlpha tag.starts))
  | bare first more => exact startsLine_bare name

theorem BlockWord.flat_text (word : BlockWord) : Text.Flat word.text := by
  cases word <;> decide

theorem Shown.startsLine_haml (line : Shown) : StartsLine line.haml := by
  cases line with
  | element head => exact head.startsLine_haml
  | text contents => exact .cons (by decide) (by decide) contents.flat
  | output code => exact .cons (by decide) (by decide) (code.flat.cons (by decide))
  | code code => exact .cons (by decide) (by decide) (code.flat.cons (by decide))
  | block word condition =>
      exact .cons (by decide) (by decide)
        ((word.flat_text.append (condition.flat.cons (by decide))).cons (by decide))
  | elseBegin => exact ⟨by decide, rfl⟩

theorem Shown.startsLine_jade (line : Shown) : StartsLine line.jade := by
  cases line with
  | element head => exact head.startsLine_jade
  | text contents => exact .cons (by decide) (by decide) (contents.flat.cons (by decide))
  | output code => exact .cons (by decide) (by decide) (code.flat.cons (by decide))
  | code code => exact .cons (by decide) (by decide) (code.flat.cons (by decide))
  | block word condition =>
      refine ⟨word.flat_text.append (condition.flat.cons (by decide)), ?_⟩
      cases word <;> rfl
  | elseBegin => exact ⟨by decide, rfl⟩

theorem Tree.startsLine_haml (tree : Tree) : StartsLine tree.haml := by
  cases tree with
  | shown line => exact line.startsLine_haml
  | comment text => exact .cons (by decide) (by decide) (text.flat.cons (by decide))
  | silent text => exact .cons (by decide) (by decide) (text.flat.cons (by decide))

theorem Tree.startsLine_jade (tree : Tree) : StartsLine tree.jade := by
  cases tree with
  | shown line => exact line.startsLine_jade
  | comment text =>
      exact .cons (by decide) (by decide) ((text.flat.cons (by decide)).cons (by decide))
  | silent text =>
      exact .cons (by decide) (by decide) ((text.flat.cons (by decide)).cons (by decide))

structure Row.Fits (row : Row) : Prop where
  blank : ∀ c ∈ row.indent, Text.isBlank c = true
  flat : Text.Flat row.indent
  haml : StartsLine row.haml
  jade : StartsLine row.jade

def Blanks.append (first second : Blanks) : Blanks where
  text := first.text ++ second.text
  blank := List.forall_mem_append.mpr ⟨first.blank, second.blank⟩
  flat := first.flat.append second.flat

mutual

theorem Tree.fits_innerRows (indent : Blanks) :
    ∀ tree : Tree, ∀ row ∈ tree.innerRows indent.text, row.Fits
  | .shown _ step nested => Tree.fits_rows (indent.append step.toBlanks) nested
  | .comment _ => by simp [Tree.innerRows]
  | .silent _ hidden => by
      intro row member
      obtain ⟨line, -, rfl⟩ := List.mem_map.mp member
      let further := indent.append line.step.toBlanks
      exact ⟨further.blank, further.flat, line.startsHaml, line.startsJade⟩

theorem Tree.fits_rows (indent : Blanks) :
    ∀ trees : List Tree, ∀ row ∈ Tree.rows indent.text trees, row.Fits
  | [] => by simp [Tree.rows]
  | tree :: rest => by
      rw [Tree.rows, List.forall_mem_cons, List.forall_mem_append]
      exact ⟨⟨indent.blank, indent.flat, tree.startsLine_haml, tree.startsLine_jade⟩,
        tree.fits_innerRows indent, Tree.fits_rows indent rest⟩

end

def AttrList.ofRead (body : List Char) (flat : Text.Flat body)
    (ends : (readList (body ++ [')'])).toOption.map Prod.snd = some []) : AttrList where
  body := body
  flat := flat
  closes := by
    intro more attrs left reads
    cases read : readList (body ++ [')']) with
    | error fault =>
        rw [read] at ends
        cases ends
    | ok found =>
        obtain ⟨attrs', rest⟩ := found
        rw [read] at ends
        cases ends
        obtain ⟨body', same, readsBody⟩ := readList_part read
        cases List.append_cancel_right same
        rw [readsBody more] at reads
        cases reads
        rfl

end ThemeRender.Markup
