import ThemeRender.Store.Basic

namespace ThemeRender

structure Settings where
  root : Path
  /-- Where views, layouts and partials are, seen from the root. -/
  viewsDir : Path
  /-- Where compiled templates go, seen from the root. -/
  tempDir : Path
  defaultLayout : String
  dirMode : Mode
  maxDepth : Nat
deriving DecidableEq, Repr

namespace Settings

def default : Settings where
  root := .ofString "."
  viewsDir := .ofString "views"
  tempDir := .ofString "tmp"
  defaultLayout := "default"
  dirMode := 0o760
  maxDepth := 64

instance : Inhabited Settings := ⟨default⟩

def withRoot (root : Path) : Settings :=
  { default with root }

def viewsRoot (settings : Settings) : Path :=
  settings.root.join settings.viewsDir

def tempRoot (settings : Settings) : Path :=
  settings.root.join settings.tempDir

end Settings

end ThemeRender
