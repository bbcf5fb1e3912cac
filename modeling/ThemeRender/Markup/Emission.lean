import ThemeRender.Markup.Item
/-!
The template text of a page tree. Every piece takes whole lines, indented by the depth of the
elements around it; control lines add no depth.
-/

namespace ThemeRender.Markup

/-- Elements that never have content or a closing tag. -/
def voidTags : List (List Char) :=
  ["area", "base", "br", "col", "embed", "hr", "img", "input", "link", "meta", "param", "source",
    "track", "wbr"].map String.toList

def Element.isVoid (element : Element) : Bool :=
  element.selfClosing || voidTags.contains element.tag

def quotedAttr (name value : List Char) : List Char :=
  ' ' :: name ++ "=\"".toList ++ value ++ ['"']

def Attr.template (attr : Attr) : List Char :=
  match attr.value with
  | .literal pieces => quotedAttr attr.name (templateOfPieces pieces)
  | .expr code => quotedAttr attr.name (outputTag code)
  | .flag => ' ' :: attr.name

def joinWords : List (List Char) → List Char
  | [] => []
  | [word] => word
  | word :: rest => word ++ ' ' :: joinWords rest

/-- The id attribute: the first one that is written out, or else the shorthand. -/
def Element.idTemplate (element : Element) : List Char :=
  match element.attrs.find? (·.name = "id".toList) with
  | some attr => attr.template
  | none =>
      match element.shorthands.id? with
      | some id => quotedAttr "id".toList id
      | none => []

/-- The value of a class attribute; one without a value adds no class. -/
def AttrValue.classTemplate? : AttrValue → Option (List Char)
  | .literal pieces => some (templateOfPieces pieces)
  | .expr code => some (outputTag code)
  | .flag => none

/-- One class attribute with the shorthand classes and those that are written out. -/
def Element.classTemplate (element : Element) : List Char :=
  let explicit := (element.attrs.filter (·.name = "class".toList)).filterMap
    (·.value.classTemplate?)
  match element.shorthands.classes ++ explicit with
  | [] => []
  | words => quotedAttr "class".toList (joinWords words)

def Element.head (element : Element) : List Char :=
  let others := element.attrs.filter fun attr =>
    attr.name ≠ "id".toList ∧ attr.name ≠ "class".toList
  element.tag ++ element.idTemplate ++ element.classTemplate ++ others.flatMap Attr.template

def Inline.template? : Inline → Option (List Char)
  | .none => Option.none
  | .text pieces => some (templateOfPieces pieces)
  | .output code => some (outputTag code)

def Inline.isNone : Inline → Bool
  | .none => true
  | _ => false

def lineAt (depth : Nat) (text : List Char) : List Char :=
  List.replicate (2 * depth) ' ' ++ text ++ ['\n']

def openTag (element : Element) : List Char :=
  '<' :: element.head ++ ['>']

def closeTag (element : Element) : List Char :=
  "</".toList ++ element.tag ++ ['>']

def voidTag (element : Element) : List Char :=
  '<' :: element.head ++ if element.selfClosing then " />".toList else ['>']

def endTag : List Char :=
  codeTag "end".toList

/-- The only kind of thing an item may not hold, if it may hold nothing. -/
def Item.requireLeaf (item : Item) (what : String) : Except Complaint Unit :=
  if item.nested.isEmpty then .ok () else .error (item.complain (.nestedIn what))

mutual

def emitItem (depth : Nat) : Item → Except Complaint (List Char)
  | .mk construct line span nested =>
      let item := Item.mk construct line span nested
      match construct with
      | .element element =>
          if element.isVoid then
            if element.inline.isNone && nested.isEmpty then .ok (lineAt depth (voidTag element))
            else .error (item.complain (.selfClosingContent element.tag))
          else
            match element.inline.template?, nested.isEmpty with
            | some _, false => .error (item.complain .contentTwice)
            | some content, true =>
                .ok (lineAt depth (openTag element ++ content ++ closeTag element))
            | none, true => .ok (lineAt depth (openTag element ++ closeTag element))
            | none, false => do
                let body ← emitItems (depth + 1) false nested
                return lineAt depth (openTag element) ++ body ++ lineAt depth (closeTag element)
      | .text pieces => do
          item.requireLeaf "plain text"
          return lineAt depth (templateOfPieces pieces)
      | .output code => do
          item.requireLeaf "output code"
          return lineAt depth (outputTag code)
      | .code code => do
          item.requireLeaf "code without a block keyword"
          return lineAt depth (codeTag code)
      | .control (.ifBegin condition) => do
          let body ← emitItems depth false nested
          return lineAt depth (codeTag ("if ".toList ++ condition)) ++ body
      | .control .elseBegin => do
          let body ← emitItems depth false nested
          return lineAt depth (codeTag "else".toList) ++ body ++ lineAt depth endTag
      | .control (.forBegin binding) => do
          let body ← emitItems depth false nested
          return lineAt depth (codeTag ("for ".toList ++ binding)) ++ body ++ lineAt depth endTag
      | .comment text =>
          if nested.isEmpty then .ok (lineAt depth ("<!-- ".toList ++ text ++ " -->".toList))
          else do
            let body ← emitItems (depth + 1) false nested
            return lineAt depth "<!--".toList ++ body ++ lineAt depth "-->".toList
      | .doctype text => .ok (lineAt depth ("<!DOCTYPE ".toList ++ text ++ ['>']))
      | .raw lines => .ok (lines.flatMap (lineAt depth))

/-- The lines of items in a row. An `if` stays open for an `else` right after it; `openIf` says
that the item before the first is such an `if`. -/
def emitItems (depth : Nat) (openIf : Bool) : List Item → Except Complaint (List Char)
  | [] => .ok []
  | item :: rest => do
      if item.isElse && !openIf then throw (item.complain .elseWithoutIf)
      let text ← emitItem depth item
      match item.construct with
      | .control (.ifBegin _) =>
          let staysOpen := (rest.head?.map Item.isElse).getD false
          let more ← emitItems depth staysOpen rest
          return text ++ (if staysOpen then [] else lineAt depth endTag) ++ more
      | _ =>
          let more ← emitItems depth false rest
          return text ++ more

end

def emit (items : List Item) : Except Complaint (List Char) :=
  emitItems 0 false items

end ThemeRender.Markup
