import ThemeRender.Text.Cut
/-!
Slash-separated paths. A path keeps the text it was written with, and two paths name the same place
when they have the same components: doubled slashes, `.` inside a path and a slash at the end do not
count. A leading `.` is a component, and `..` is not resolved.
-/

namespace ThemeRender

structure Path where
  text : List Char
deriving DecidableEq, Repr

namespace Path

inductive Component where
  | root
  | current
  | parent
  | name (text : List Char)
deriving DecidableEq, Repr

def ofString (text : String) : Path := ⟨text.toList⟩

def display (path : Path) : String := String.ofList path.text

inductive Lead where
  | root
  | current
  | none
deriving DecidableEq, Repr

structure Pieces where
  lead : Lead
  body : List (List Char)
deriving Repr

def pieces (path : Path) : Pieces :=
  match path.text with
  | '/' :: rest => ⟨.root, Text.splitAt '/' rest⟩
  | ['.'] => ⟨.current, []⟩
  | '.' :: '/' :: rest => ⟨.current, Text.splitAt '/' rest⟩
  | text => ⟨.none, Text.splitAt '/' text⟩

def joinPieces : List (List Char) → List Char
  | [] => []
  | [piece] => piece
  | piece :: rest => piece ++ '/' :: joinPieces rest

def ofPieces (pieces : Pieces) : Path :=
  match pieces.lead, pieces.body with
  | .root, body => ⟨'/' :: joinPieces body⟩
  | .current, [] => ⟨['.']⟩
  | .current, body => ⟨'.' :: '/' :: joinPieces body⟩
  | .none, body => ⟨joinPieces body⟩

/-- Pieces inside a path that are no components. -/
def isIdle (piece : List Char) : Bool :=
  piece.isEmpty || piece == ['.']

def component (piece : List Char) : Component :=
  if piece = ['.', '.'] then .parent else .name piece

def Lead.components : Lead → List Component
  | .root => [.root]
  | .current => [.current]
  | .none => []

def components (path : Path) : List Component :=
  path.pieces.lead.components ++ (path.pieces.body.filter (!isIdle ·)).map component

def same (a b : Path) : Bool :=
  a.components == b.components

def startsWith (path base : Path) : Bool :=
  base.components.isPrefixOf path.components

def isAbsolute (path : Path) : Bool :=
  path.text.head? == some '/'

def isEmpty (path : Path) : Bool :=
  path.text.isEmpty

/-- `path` seen from `base`. -/
def join (base path : Path) : Path :=
  if path.isAbsolute || base.isEmpty then path
  else if base.text.getLast? = some '/' then ⟨base.text ++ path.text⟩
  else ⟨base.text ++ '/' :: path.text⟩

def trimIdle : List (List Char) → List (List Char)
  | [] => []
  | piece :: rest =>
      match trimIdle rest with
      | [] => if isIdle piece then [] else [piece]
      | kept => piece :: kept

/-- The path without its last component; a root and an empty path have no parent. -/
def parent? (path : Path) : Option Path :=
  let pieces := path.pieces
  match pieces.lead, trimIdle pieces.body with
  | .root, [] => none
  | .none, [] => none
  | .current, [] => some ⟨[]⟩
  | lead, body => some (ofPieces ⟨lead, trimIdle body.dropLast⟩)

def ancestorsWithin : Nat → Path → List Path
  | 0, path => [path]
  | steps + 1, path =>
      match path.parent? with
      | none => [path]
      | some parent => path :: ancestorsWithin steps parent

def ancestors (path : Path) : List Path :=
  ancestorsWithin (path.pieces.body.length + 1) path

def dropComponents : Nat → List (List Char) → List (List Char)
  | 0, body => body.dropWhile isIdle
  | _ + 1, [] => []
  | count + 1, piece :: rest =>
      if isIdle piece then dropComponents (count + 1) rest else dropComponents count rest

def stripPrefix? (path base : Path) : Option Path :=
  if path.startsWith base then
    let pieces := path.pieces
    match base.components.length with
    | 0 => some (ofPieces ⟨pieces.lead, trimIdle pieces.body⟩)
    | count + 1 =>
        let inBody := if pieces.lead = .none then count + 1 else count
        some (ofPieces ⟨.none, trimIdle (dropComponents inBody pieces.body)⟩)
  else none

def fileName? (path : Path) : Option (List Char) :=
  match path.components.getLast? with
  | some (.name text) => some text
  | _ => none

/-- What follows the last point of a name that does not start with that point. -/
def extensionOf? (name : List Char) : Option (List Char) :=
  match Text.splitAt '.' name with
  | [] => none
  | [_] => none
  | [[], _] => none
  | pieces => pieces.getLast?

def extension? (path : Path) : Option (List Char) :=
  path.fileName?.bind extensionOf?

end Path

end ThemeRender
