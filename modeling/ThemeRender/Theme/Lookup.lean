import ThemeRender.Markup.Dialect
import ThemeRender.Store.Basic

namespace ThemeRender

structure TemplateFile where
  path : Path
  dialect : Dialect
deriving DecidableEq, Repr

namespace TemplateFile

/-- What is tried after a name, the first that names a file being taken. -/
def suffixes : List String :=
  [".html.jade", ".html.haml", ".haml", ".html.php", ".php"]

def candidates (viewsRoot : Path) (name : String) : List Path :=
  suffixes.map fun suffix => viewsRoot.join (.ofString (name ++ suffix))

def ofPath? {σ : Type} [Store σ] (store : σ) (path : Path) : Option TemplateFile :=
  if Store.isFile store path then (Dialect.ofPath? path).map (⟨path, ·⟩) else none

def find? {σ : Type} [Store σ] (store : σ) (viewsRoot : Path) (name : String) :
    Option TemplateFile :=
  (candidates viewsRoot name).findSome? (ofPath? store)

end TemplateFile

/-- What the last segment of a partial's name starts with. -/
def partialMark : Char := '_'

/-- The last slash-separated segment of a name and what comes before it, with the slash. -/
def lastSegment : List Char → List Char × List Char
  | [] => ([], [])
  | c :: rest =>
      if '/' ∈ c :: rest then (c :: (lastSegment rest).1, (lastSegment rest).2)
      else ([], c :: rest)

/-- The name of a partial: its last segment is marked unless it already is. -/
def partialName (name : String) : String :=
  let (before, last) := lastSegment name.toList
  if last.head? = some partialMark then name
  else String.ofList (before ++ partialMark :: last)

theorem lastSegment_append (name : List Char) :
    (lastSegment name).1 ++ (lastSegment name).2 = name := by
  fun_induction lastSegment name <;> simp_all

end ThemeRender
