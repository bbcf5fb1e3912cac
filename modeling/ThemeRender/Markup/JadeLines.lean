import ThemeRender.Markup.Item

namespace ThemeRender.Markup.Jade

/-- An element starts with a tag, a class or an id. -/
def startsElement : List Char → Bool
  | [] => false
  | '.' :: c :: _ => isNameChar c
  | '#' :: c :: _ => isNameChar c
  | c :: _ => c.isAlpha

/-- Tags whose text is copied without looking for expressions. -/
def rawTextTags : List (List Char) :=
  ["script".toList, "style".toList]

def readCodeAfter (line : Line) (text : List Char) : Except Complaint (List Char) :=
  let code := Text.trim text
  if code.isEmpty then .error (line.complain .missingExpression) else .ok code

/-- `doctype`, `if`, `else`, `each` and `for` lines; a line of another kind is no keyword line. -/
def readKeyword (line : Line) : Except Complaint (Option Construct) :=
  let (word, rest) := firstWord line.text
  if word = "doctype".toList then
    .ok (some (.doctype (if rest.isEmpty then "html".toList else rest)))
  else if word = "else".toList ∧ rest = [] then .ok (some (.control .elseBegin))
  else if word = "if".toList ∨ word = "each".toList ∨ word = "for".toList then
    if rest.isEmpty then .error (line.complain (.bareKeyword word))
    else .ok (some (Construct.ofCode line.text))
  else .ok none

structure Head where
  tag : List Char
  shorthands : Shorthands
  attrs : List Attr
  rest : List Char

def readHead (line : Line) : Except Complaint Head := do
  let tag := line.text.takeWhile isNameChar
  let (shorthands, rest) ←
    line.check (readShorthands ⟨none, []⟩ (line.text.dropWhile isNameChar))
  let (attrs, rest) ←
    match rest with
    | '(' :: rest => line.check (readList rest)
    | _ => pure ([], rest)
  return ⟨if tag.isEmpty then "div".toList else tag, shorthands, attrs, rest⟩

def readInline (line : Line) (tag rest : List Char) : Except Complaint Inline :=
  match rest with
  | [] => .ok .none
  | '=' :: code => (readCodeAfter line code).map .output
  | ' ' :: text => (line.check (interpolate text)).map .text
  | ':' :: _ => .error (line.complainFrom rest .blockExpansion)
  | _ => .error (line.complainFrom rest (.afterTag rest tag))

def readElement (line : Line) (head : Head) : Except Complaint Element := do
  let (selfClosing, rest) :=
    match head.rest with
    | '/' :: rest => (true, rest)
    | rest => (false, rest)
  let inline ← readInline line head.tag rest
  return ⟨head.tag, head.shorthands, head.attrs, selfClosing, inline⟩

/-- The text lines of `tag.`, looked through for expressions unless the tag takes raw text. -/
def readTextBlock (line : Line) (tag : List Char) (body : List (List Char)) :
    Except Complaint (List Item) :=
  if tag ∈ rawTextTags then .ok [.ofLine line (.raw body) []]
  else
    body.mapM fun text =>
      (line.check (interpolate text)).map fun pieces => .ofLine line (.text pieces) []

/-- A line of code, text or a keyword; `none` for a line that must be an element. -/
def readSimple (line : Line) : Except Complaint (Option Construct) :=
  match line.text with
  | '|' :: ' ' :: rest => (line.check (interpolate rest)).map (some <| .text ·)
  | '|' :: rest => (line.check (interpolate rest)).map (some <| .text ·)
  | '<' :: rest => (line.check (interpolate ('<' :: rest))).map (some <| .text ·)
  | '=' :: rest => (readCodeAfter line rest).map (some <| .output ·)
  | '-' :: rest =>
      if (Text.trim rest).isEmpty then .error (line.complain .missingCode)
      else .ok (some (Construct.ofCode rest))
  | _ => readKeyword line

def readComment (line : Line) (text : List Char) (body : List (List Char)) : Item :=
  .ofLine line (.comment (Text.trim text))
    (if body.isEmpty then [] else [.ofLine line (.raw body) []])

mutual

def readTree : LineTree → Except Complaint (List Item)
  | .mk line nested =>
      match line.text with
      | '/' :: '/' :: '-' :: _ => .ok []
      | '/' :: '/' :: rest => .ok [readComment line rest (LineTree.rawNested (.mk line nested))]
      | text => do
          match ← readSimple line with
          | some construct =>
              let items ← readForest nested
              return [.ofLine line construct items]
          | none =>
              if startsElement text then
                let head ← readHead line
                if head.rest = ['.'] then
                  let body ← readTextBlock line head.tag (LineTree.rawNested (.mk line nested))
                  return [.ofLine line
                    (.element ⟨head.tag, head.shorthands, head.attrs, false, .none⟩) body]
                else
                  let element ← readElement line head
                  let items ← readForest nested
                  return [.ofLine line (.element element) items]
              else throw (line.complain (.looseText text))

def readForest : List LineTree → Except Complaint (List Item)
  | [] => .ok []
  | tree :: rest => do
      let items ← readTree tree
      let more ← readForest rest
      return items ++ more

end

theorem readTree_silent {line : Line} {text : List Char}
    (starts : line.text = '/' :: '/' :: '-' :: text) (nested : List LineTree) :
    readTree (.mk line nested) = .ok [] := by
  rw [readTree.eq_def]
  dsimp only
  rw [starts]
  rfl

end ThemeRender.Markup.Jade
