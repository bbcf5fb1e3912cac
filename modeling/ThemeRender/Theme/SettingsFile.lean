import ThemeRender.Store.Basic
import ThemeRender.Theme.Settings
import ThemeRender.Toml.Document
/-!
Settings written as a TOML document. What the document leaves out is as by default, but a document
in a file also places the root, next to that file. Keys without a meaning are passed over.
-/

namespace ThemeRender

inductive SettingsError where
  | unreadable (error : FileError)
  | malformed

def SettingsError.message : SettingsError → String
  | .unreadable error => s!"Failed to read theme config file: {error.message}"
  | .malformed => "Failed to parse theme config TOML"

structure GivenSettings where
  root? : Option Path
  viewsDir? : Option Path
  tempDir? : Option Path
  defaultLayout? : Option String
  dirMode? : Option Mode
  maxDepth? : Option Nat

namespace GivenSettings

/--
The three entries of a group, of which any may be missing. An array gives them in order, without
their names, and a date stands for no entries.
-/
def group (first second third : String) :
    Option Toml.Item → Option (Option Toml.Item × Option Toml.Item × Option Toml.Item)
  | none | some (.datetime _) => some (none, none, none)
  | some (.table _ entries) =>
      some (Fields.get? first entries, Fields.get? second entries, Fields.get? third entries)
  | some (.array (a :: b :: c :: _)) => some (some a, some b, some c)
  | some _ => none

def text? : Option Toml.Item → Option (Option String)
  | none => some none
  | some (.string text) => some (some text)
  | some _ => none

def path? (item? : Option Toml.Item) : Option (Option Path) :=
  (text? item?).map (·.map Path.ofString)

def natural? (bound : Nat) : Option Toml.Item → Option (Option Nat)
  | none => some none
  | some (.integer n) => if 0 ≤ n ∧ n < bound then some (some n.toNat) else none
  | some _ => none

def ofEntries (document : Toml.Entries) : Option GivenSettings := do
  let (root, views, temp) ← group "root" "views" "temp" (document.get? "theme")
  let (layout, mode, depth) ←
    group "default_layout" "dir_mode" "max_depth" (document.get? "render")
  return {
    root? := ← path? root
    viewsDir? := ← path? views
    tempDir? := ← path? temp
    defaultLayout? := ← text? layout
    dirMode? := ← natural? 0x100000000 mode
    maxDepth? := ← natural? 0x10000000000000000 depth }

def settings (given : GivenSettings) : Settings where
  root := given.root?.getD Settings.default.root
  viewsDir := given.viewsDir?.getD Settings.default.viewsDir
  tempDir := given.tempDir?.getD Settings.default.tempDir
  defaultLayout := given.defaultLayout?.getD Settings.default.defaultLayout
  dirMode := given.dirMode?.getD Settings.default.dirMode
  maxDepth := given.maxDepth?.getD Settings.default.maxDepth

def ofToml (source : String) : Except SettingsError GivenSettings :=
  match (Toml.read? source).bind ofEntries with
  | some given => .ok given
  | none => .error .malformed

end GivenSettings

namespace Settings

def ofToml (source : String) : Except SettingsError Settings :=
  (GivenSettings.ofToml source).map GivenSettings.settings

/-- The settings of a file; a root that it does not give is the directory it is in. -/
def ofFile {σ : Type} [Store σ] (store : σ) (path : Path) : Except SettingsError Settings := do
  let source ← (Store.read store path).mapError .unreadable
  let given ← GivenSettings.ofToml source
  return { given with root? := given.root? <|> path.parent? }.settings

end Settings

end ThemeRender
