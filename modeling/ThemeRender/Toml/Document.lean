import ThemeRender.Toml.Datetime
import ThemeRender.Toml.Item
import ThemeRender.Toml.Number
import ThemeRender.Toml.Quoted

namespace ThemeRender.Toml

namespace Scan

/-! Keys -/

def isKeyCharacter (c : Char) : Bool :=
  c.isAlphanum || c == '-' || c == '_'

def bareKey : Scan String := do
  let first ← one isKeyCharacter
  let more ← run isKeyCharacter
  return String.ofList (first :: more)

def simpleKey : Scan String := do
  blanks
  let key ← (String.ofList <$> (basicString <|> literalString)) <|> bareKey
  blanks
  return key

def depthLimit : Nat := 80

def key : Scan (List String × String) := do
  let names ← separated (char '.') simpleKey
  match names.getLast? with
  | some last => if names.length < depthLimit then return (names.dropLast, last) else failure
  | none => failure

/-! Items -/

def entry (item : Scan Item) : Scan (List String × String × Item) := do
  let (path, name) ← key
  char '='
  blanks
  return (path, name, ← item)

def array (item : Scan Item) : Scan (List Item) := do
  char '['
  let items? ← optional (do
    let items ← separated (char ',') (do gaps; let found ← item; gaps; return found)
    discard (optional (char ','))
    return items)
  gaps
  char ']'
  return items?.getD []

def braces (item : Scan Item) : Scan Entries := do
  char '\x7b'
  let entries? ← optional
    (separated (char ',') (do let found ← entry item; blanks; return found))
  blanks
  char '\x7d'
  match Entries.ofBraces (entries?.getD []) with
  | some entries => return entries
  | none => failure

def scalar : Scan Item :=
  (Item.string <$> quoted) <|> (Item.datetime <$> datetime) <|> (Item.float <$> float) <|>
    (Item.integer <$> integer) <|> ((fun _ => Item.boolean true) <$> word "true") <|>
    ((fun _ => Item.boolean false) <$> word "false")

def item : Nat → Scan Item
  | 0 => scalar
  | depth + 1 =>
      scalar <|> (Item.array <$> array (item depth)) <|> (Item.table .braces <$> braces (item depth))

/-! Lines -/

inductive Line where
  | blank
  | table (path : List String) (name : String)
  | element (path : List String) (name : String)
  | entry (path : List String) (name : String) (item : Item)

def header (opening closing : String) : Scan (List String × String) := do
  word opening
  let found ← key
  word closing
  return found

def line : Scan Line :=
  ((fun _ => Line.blank) <$> lineEnd) <|> do
    blanks
    let found ←
      ((fun (path, name) => Line.element path name) <$> header "[[" "]]") <|>
        ((fun (path, name) => Line.table path name) <$> header "[" "]") <|>
        ((fun (path, name, item) => Line.entry path name item) <$> entry (item (depthLimit - 1)))
    lineEnd
    return found

def lines : Scan (List Line) := do
  discard (optional (char '\uFEFF'))
  let lines ← many line
  atEnd
  return lines

end Scan

structure Draft where
  entries : Entries
  header : List String

def Draft.add (draft : Draft) : Scan.Line → Option Draft
  | .blank => some draft
  | .table path name =>
      (Entries.openTable path name draft.entries).map (⟨·, path ++ [name]⟩)
  | .element path name =>
      (Entries.openElement path name draft.entries).map (⟨·, path ++ [name]⟩)
  | .entry path name item =>
      (Entries.changeAt false (Entries.define path name item) draft.header
        ⟨.header, draft.entries⟩).map (⟨·, draft.header⟩)

def read? (source : String) : Option Entries := do
  let (lines, _) ← Scan.lines source.toList
  let draft ← lines.foldlM Draft.add ⟨[], []⟩
  return draft.entries

end ThemeRender.Toml
