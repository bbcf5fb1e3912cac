import ThemeRender.Markup.Item

namespace ThemeRender.Markup.Haml

def startsElement : List Char → Bool
  | '%' :: c :: _ => isNameChar c
  | '.' :: c :: _ => isNameChar c
  | '#' :: c :: _ => isNameChar c
  | _ => false

/-- Any number of attribute lists and hashes. -/
def readAttributes : Nat → List Char → Except CompileFault (List Attr × List Char)
  | 0, s => .ok ([], s)
  | count + 1, s =>
      match s with
      | '(' :: rest => do
          let (attrs, rest) ← readList rest
          let (more, rest) ← readAttributes count rest
          return (attrs ++ more, rest)
      | '\x7b' :: rest => do
          let (attrs, rest) ← readHash rest
          let (more, rest) ← readAttributes count rest
          return (attrs ++ more, rest)
      | _ => .ok ([], s)

/-- What follows the head of an element. -/
def readInline (line : Line) (rest : List Char) : Except Complaint Inline :=
  match rest with
  | '=' :: code =>
      let code := Text.trim code
      if code.isEmpty then .error (line.complain (.missingScript '='))
      else .ok (.output code)
  | _ =>
      if (Text.trim rest).isEmpty then .ok .none
      else if rest.head? = some ' ' then
        (line.check (interpolate (Text.trim rest))).map .text
      else .error (line.complainFrom rest (.illegalElement rest))

def readTag : List Char → List Char × List Char
  | '%' :: rest => (rest.takeWhile isNameChar, rest.dropWhile isNameChar)
  | s => ("div".toList, s)

def readElement (line : Line) : Except Complaint Element := do
  let (tag, rest) := readTag line.text
  let (shorthands, rest) ← line.check (readShorthands ⟨none, []⟩ rest)
  let (attrs, rest) ← line.check (readAttributes rest.length rest)
  let (selfClosing, rest) :=
    match rest with
    | '/' :: rest => (true, rest)
    | _ => (false, rest)
  let inline ← readInline line rest
  return ⟨tag, shorthands, attrs, selfClosing, inline⟩

def indented (lines : List (List Char)) : List (List Char) :=
  lines.map fun line => ' ' :: ' ' :: line

/-- The nested lines of a filter as they are written, possibly inside a tag of their own. -/
def filterLines (name : List Char) (body : List (List Char)) :
    Except CompileFault (List (List Char)) :=
  let name := Text.trim name
  if name = "plain".toList then .ok body
  else if name = "javascript".toList then
    .ok ("<script>".toList :: indented body ++ ["</script>".toList])
  else if name = "css".toList then
    .ok ("<style>".toList :: indented body ++ ["</style>".toList])
  else .error (.unknownFilter name)

def doctypeOf (text : List Char) : List Char :=
  let kind := Text.trim text
  if kind.isEmpty ∨ kind = ['5'] then "html".toList else kind

/-- A line that is not a silent comment. `raw` are the lines nested in it, as text. -/
def readConstruct (line : Line) (raw : List (List Char)) : Except Complaint Construct :=
  match line.text with
  | '!' :: '!' :: '!' :: rest => .ok (.doctype (doctypeOf rest))
  | ':' :: name => (line.check (filterLines name raw)).map .raw
  | '\\' :: rest => (line.check (interpolate rest)).map .text
  | '/' :: rest => .ok (.comment (Text.trim rest))
  | '=' :: rest =>
      let code := Text.trim rest
      if code.isEmpty then .error (line.complain (.missingScript '=')) else .ok (.output code)
  | '-' :: rest =>
      if (Text.trim rest).isEmpty then .error (line.complain (.missingScript '-'))
      else .ok (Construct.ofCode rest)
  | text =>
      if startsElement text then (readElement line).map .element
      else (line.check (interpolate text)).map .text

/-- A silent comment hides what is nested in it. -/
def isSilent (text : List Char) : Bool :=
  "-#".toList.isPrefixOf text

/-- A filter takes what is nested in it as text. -/
def isFilter (text : List Char) : Bool :=
  text.head? == some ':'

mutual

def readTree : LineTree → Except Complaint (List Item)
  | .mk line nested =>
      if isSilent line.text then .ok []
      else do
        let construct ← readConstruct line (LineTree.rawNested (.mk line nested))
        let items ← if isFilter line.text then pure [] else readForest nested
        return [.ofLine line construct items]

def readForest : List LineTree → Except Complaint (List Item)
  | [] => .ok []
  | tree :: rest => do
      let items ← readTree tree
      let more ← readForest rest
      return items ++ more

end

theorem readTree_silent {line : Line} {text : List Char} (starts : line.text = '-' :: '#' :: text)
    (nested : List LineTree) : readTree (.mk line nested) = .ok [] := by
  rw [readTree, starts]
  rfl

end ThemeRender.Markup.Haml
