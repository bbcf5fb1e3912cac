import ThemeRender.Proofs.Text.Lines
import ThemeRender.Markup.Item
/-!
The texts, the codes and the bindings that a page tree holds, and what reading a source line by line
makes sure of: that none of them has a line break in it, that a tag and its shorthands are made of
name characters, and that two texts do not follow one another without an expression between them.
-/

namespace ThemeRender.Markup

theorem not_mem_of_nameChars {s : List Char} (chars : ∀ c ∈ s, isNameChar c = true) {c : Char}
    (other : isNameChar c = false) : c ∉ s := by
  intro member
  have letter := chars c member
  rw [other] at letter
  cases letter

/-! What a page holds -/

def Piece.literals : Piece → List (List Char)
  | .text contents => [contents]
  | .expr _ => []

def Piece.codes : Piece → List (List Char)
  | .text _ => []
  | .expr code => [code]

def AttrValue.literals : AttrValue → List (List Char)
  | .literal pieces => pieces.flatMap Piece.literals
  | .expr _ | .flag => []

def AttrValue.codes : AttrValue → List (List Char)
  | .literal pieces => pieces.flatMap Piece.codes
  | .expr code => [code]
  | .flag => []

def Inline.literals : Inline → List (List Char)
  | .text pieces => pieces.flatMap Piece.literals
  | .none | .output _ => []

def Inline.codes : Inline → List (List Char)
  | .none => []
  | .text pieces => pieces.flatMap Piece.codes
  | .output code => [code]

def Element.literals (element : Element) : List (List Char) :=
  element.attrs.flatMap (fun attr => attr.name :: attr.value.literals) ++ element.inline.literals

def Element.codes (element : Element) : List (List Char) :=
  element.attrs.flatMap (·.value.codes) ++ element.inline.codes

def Construct.literals : Construct → List (List Char)
  | .element e => e.literals
  | .text pieces => pieces.flatMap Piece.literals
  | .comment words | .doctype words => [words]
  | .raw lines => lines
  | .output _ | .code _ | .control _ => []

def Construct.codes : Construct → List (List Char)
  | .element e => e.codes
  | .text pieces => pieces.flatMap Piece.codes
  | .output expr | .code expr | .control (.ifBegin expr) => [expr]
  | .control .elseBegin | .control (.forBegin _) | .comment _ | .doctype _ | .raw _ => []

def Construct.bindings : Construct → List (List Char)
  | .control (.forBegin binding) => [binding]
  | _ => []

mutual

def Item.constructs : Item → List Construct
  | .mk construct _ _ nested => construct :: constructsOf nested

def constructsOf : List Item → List Construct
  | [] => []
  | item :: rest => item.constructs ++ constructsOf rest

end

/-! What is read from lines -/

/-- No text follows another text. -/
def Apart : List Piece → Prop
  | .text _ :: .text _ :: _ => False
  | _ :: rest => Apart rest
  | [] => True

structure OnLine (pieces : List Piece) : Prop where
  apart : Apart pieces
  literals : ∀ literal ∈ pieces.flatMap Piece.literals, Text.Flat literal
  codes : ∀ code ∈ pieces.flatMap Piece.codes, Text.Flat code

def AttrValue.OnLine : AttrValue → Prop
  | .literal pieces => Markup.OnLine pieces
  | .expr code => Text.Flat code
  | .flag => True

def Inline.OnLine : Inline → Prop
  | .none => True
  | .text pieces => Markup.OnLine pieces
  | .output code => Text.Flat code

structure Element.OnLine (element : Element) : Prop where
  tag : ∀ c ∈ element.tag, isNameChar c = true
  shorthands : ∀ name ∈ element.shorthands.id?.toList ++ element.shorthands.classes,
    ∀ c ∈ name, isNameChar c = true
  attrs : ∀ attr ∈ element.attrs, Text.Flat attr.name ∧ attr.value.OnLine
  inline : element.inline.OnLine

def Construct.OnLine : Construct → Prop
  | .element e => e.OnLine
  | .text pieces => Markup.OnLine pieces
  | .output words | .code words | .comment words | .doctype words => Text.Flat words
  | .control (.ifBegin words) | .control (.forBegin words) => Text.Flat words
  | .control .elseBegin => True
  | .raw lines => ∀ line ∈ lines, Text.Flat line

end ThemeRender.Markup
