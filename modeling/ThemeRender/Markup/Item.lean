import ThemeRender.Markup.Attribute
import ThemeRender.Markup.LineTree

namespace ThemeRender.Markup

inductive Inline where
  | none
  | text (pieces : List Piece)
  | output (code : List Char)

structure Element where
  tag : List Char
  shorthands : Shorthands
  attrs : List Attr
  /-- Whether a slash follows the head. -/
  selfClosing : Bool
  inline : Inline

inductive Control where
  | ifBegin (condition : List Char)
  | elseBegin
  | forBegin (binding : List Char)

inductive Construct where
  | element (element : Element)
  | text (pieces : List Piece)
  | output (code : List Char)
  /-- Code that is run only. -/
  | code (code : List Char)
  | control (control : Control)
  | comment (text : List Char)
  | doctype (text : List Char)
  | raw (lines : List (List Char))

inductive Item where
  | mk (construct : Construct) (line : Nat) (span : Span) (nested : List Item)

namespace Item

def construct : Item → Construct
  | mk construct _ _ _ => construct

def nested : Item → List Item
  | mk _ _ _ nested => nested

def ofLine (line : Line) (construct : Construct) (nested : List Item) : Item :=
  mk construct line.number line.span nested

def complain (item : Item) (fault : CompileFault) : Complaint :=
  match item with
  | mk _ line span _ => ⟨line, span, fault⟩

def isElse (item : Item) : Bool :=
  match item.construct with
  | .control .elseBegin => true
  | _ => false

end Item

def firstWord (text : List Char) : List Char × List Char :=
  match Text.cutWhere? Text.isBlank text with
  | some (word, rest) => (word, Text.trim rest)
  | none => (text, [])

/-- A line of code: `if`, `for` and `each` with something after them and a lone `else` control what
is nested in them. -/
def Construct.ofCode (line : List Char) : Construct :=
  let code := Text.trim line
  let (word, rest) := firstWord code
  if word = "if".toList ∧ rest ≠ [] then .control (.ifBegin rest)
  else if word = "else".toList ∧ rest = [] then .control .elseBegin
  else if (word = "for".toList ∨ word = "each".toList) ∧ rest ≠ [] then .control (.forBegin rest)
  else .code code

end ThemeRender.Markup
