import ThemeRender.Markup.Compiler
import ThemeRender.Theme.Lookup
import ThemeRender.Theme.RenderError
import ThemeRender.Theme.Settings
/-!
Compiled templates. A source is compiled into a file of its own below the temp root, which is used
again as long as it is not older than its source.
-/

namespace ThemeRender

/-- Where the compiled form of a source is. It keeps the source's place below the views root, and
its name but for the extension of executable templates, which every compiled template has. -/
def artifactPath (viewsRoot tempRoot source : Path) : Path :=
  let relative :=
    match source.stripPrefix? viewsRoot with
    | some relative => relative
    | none => (source.fileName?.map Path.mk).getD source
  let name := relative.fileName?.getD []
  let dotted := '.' :: Dialect.native.extension.toList
  let file := Path.mk ((Text.dropTail? dotted name).getD name ++ dotted)
  match relative.parent? with
  | some dir => (tempRoot.join dir).join file
  | none => tempRoot.join file

structure Theme where
  settings : Settings
  compilers : Compilers

/-- A store, and the sources that were handed to a compiler so far. -/
structure Workroom (σ : Type) where
  store : σ
  compiled : List Path

namespace Workroom

variable {σ : Type}

def ofStore (store : σ) : Workroom σ := ⟨store, []⟩

def ask {α : Type} (path : Path) (question : σ → Except FileError α) :
    EStateM RenderError (Workroom σ) α := do
  match question (← get).store with
  | .ok answer => return answer
  | .error error => throw (.file path error)

def act (path : Path) (action : EStateM FileError σ Unit) :
    EStateM RenderError (Workroom σ) Unit := fun room =>
  match action room.store with
  | .ok () store => .ok () { room with store }
  | .error error store => .error (.file path error) { room with store }

end Workroom

namespace Theme

variable {σ : Type} [Store σ]

/-- The store after an action, whether it succeeded or not. -/
def attempt (action : EStateM FileError σ Unit) (store : σ) : σ :=
  match action store with
  | .ok () store => store
  | .error _ store => store

def artifactPath (theme : Theme) (source : Path) : Path :=
  ThemeRender.artifactPath theme.settings.viewsRoot theme.settings.tempRoot source

def isFresh (source artifact : Path) : EStateM RenderError (Workroom σ) Bool := do
  if Store.isFile (← get).store artifact then
    let sourceTime ← Workroom.ask source (Store.modified · source)
    let artifactTime ← Workroom.ask artifact (Store.modified · artifact)
    return decide (sourceTime ≤ artifactTime)
  else return false

/-- Makes a directory if it is missing, and gives it the mode of the settings if it refuses writes.
Either may fail. -/
def prepareDir (theme : Theme) (dir : Path) (store : σ) : σ :=
  let store :=
    if Store.isDir store dir then store
    else attempt (Store.createDirs dir theme.settings.dirMode) store
  if Store.isDir store dir && !Store.isWritable store dir then
    attempt (Store.setMode dir theme.settings.dirMode) store
  else store

/-- The directories to prepare for files in `dir`, from the temp root down. -/
def levels (theme : Theme) (dir : Path) : List Path :=
  match dir.ancestors.takeWhile (·.startsWith theme.settings.tempRoot) with
  | [] => [dir]
  | levels => levels.reverse

/-- Prepares a directory and those above it up to the temp root. What counts is whether the
directory takes files afterwards. -/
def ensureWritable (theme : Theme) (dir : Path) : EStateM RenderError (Workroom σ) Unit := do
  modify fun room =>
    { room with store := (theme.levels dir).foldl (fun store dir => theme.prepareDir dir store) room.store }
  let store := (← get).store
  if Store.isDir store dir && Store.isWritable store dir then return
  else throw (.notWritable dir)

def compileTo (theme : Theme) (file : TemplateFile) (artifact : Path) :
    EStateM RenderError (Workroom σ) Unit := do
  match theme.compilers.compiler? file.dialect with
  | none => throw (.runtime file.path.display none (.noCompiler file.dialect))
  | some compiler =>
      match artifact.parent? with
      | some dir => theme.ensureWritable dir
      | none => pure ()
      let source ← Workroom.ask file.path (Store.read · file.path)
      modify fun room => { room with compiled := room.compiled ++ [file.path] }
      match compiler source file.path with
      | .error error => throw (.compile error)
      | .ok text => Workroom.act artifact (Store.write artifact text)

def ensureCompiled (theme : Theme) (file : TemplateFile) :
    EStateM RenderError (Workroom σ) Path := do
  if !file.dialect.isCompiled then return file.path
  else
    let artifact := theme.artifactPath file.path
    if ← isFresh file.path artifact then return artifact
    else
      theme.compileTo file artifact
      return artifact

end Theme

end ThemeRender
