import ThemeRender.Command.Arguments
import ThemeRender.Command.Finding
import ThemeRender.Data.JsonReader
import ThemeRender.Store.Disk
import ThemeRender.Theme.Page
import ThemeRender.Theme.SettingsFile

namespace ThemeRender.Command

structure Outcome where
  code : Nat
  output : List UInt8
  errors : String
  disk : Disk

namespace Outcome

def failure (disk : Disk) (message : String) : Outcome :=
  ⟨1, [], message ++ "\n", disk⟩

end Outcome

inductive LocalsError where
  | unreadable (fault : FileError)
  | malformed (error : JsonError)
  | notObject

def LocalsError.message (path : Path) : LocalsError → String
  | .unreadable error => s!"Error reading locals '{path.display}': {error.message}"
  | .malformed error => s!"Error parsing locals '{path.display}': {error.message}"
  | .notObject => s!"Locals file '{path.display}' must contain a JSON object"

def readLocals (disk : Disk) (path : Path) : Except LocalsError Locals := do
  let source ← (Store.read disk path).mapError .unreadable
  let value ← (Value.ofJson source).mapError .malformed
  match Locals.ofValue? value with
  | some locals => .ok locals
  | none => .error .notObject

/-- The settings of the file that is asked for, with the root that is asked for. -/
def settings (disk : Disk) (request : Request) : Except SettingsError Settings := do
  let settings ←
    match request.config? with
    | some path => Settings.ofFile disk path
    | none => .ok .default
  return { settings with root := request.theme?.getD settings.root }

/-! Rendering -/

def PageError.line : PageError → String
  | .halted title message => s!"Error: {title}: {message}"
  | .undelivered cause => s!"Error: {(PageError.undelivered cause).display}"

def renderPage (theme : Theme) (view : String) (layout? : Option String) (locals : Locals)
    (fragment : Bool) (disk : Disk) : PageOutcome Disk :=
  let room := Workroom.ofStore disk
  if fragment then theme.renderFragment htmlErrorPage view locals .unlimited room
  else
    let layout := layout?.getD theme.settings.defaultLayout
    theme.renderView htmlErrorPage view { ViewOptions.withLayout layout with locals } .unlimited room

def render (theme : Theme) (view : String) (layout? : Option String) (locals? : Option Path)
    (fragment : Bool) (disk : Disk) : Outcome :=
  match locals?.elim (.ok .empty) (fun path => (readLocals disk path).mapError (·.message path)) with
  | .error message => .failure disk message
  | .ok locals =>
      let outcome := renderPage theme view layout? locals fragment disk
      let (code, errors) :=
        match outcome.result with
        | .ok () => (0, "")
        | .error error => (1, PageError.line error ++ "\n")
      ⟨code, outcome.sink.taken, errors, outcome.room.store⟩

/-! Checking -/

structure Tally where
  checked : Nat
  failed : Nat
  errors : String
  /-- Whether something was found that cannot be shown, which ends the check. -/
  stuck : Bool

def Tally.fail (tally : Tally) (text : String) : Tally :=
  { tally with failed := tally.failed + 1, errors := tally.errors ++ text ++ "\n" }

def Tally.add (theme : Theme) (disk : Disk) (tally : Tally) (path : Path) : Tally :=
  match Dialect.ofPath? path with
  | none => tally
  | some dialect =>
      if tally.stuck then tally
      else
        match Store.read disk path with
        | .error error => tally.fail s!"Error reading '{path.display}': {error.message}"
        | .ok source =>
            let finding := Finding.ofTemplate theme.compilers dialect path source
            let tally := { tally with checked := tally.checked + 1 }
            if finding.isClean then tally
            else
              match finding.text? with
              | some text => tally.fail text
              | none => { tally with stuck := true }

def stuckCode : Nat := 101

def check (theme : Theme) (disk : Disk) : Outcome :=
  let tally :=
    (disk.filesBelow theme.settings.viewsRoot).foldl (Tally.add theme disk) ⟨0, 0, "", false⟩
  if tally.stuck then ⟨stuckCode, [], tally.errors, disk⟩
  else
    let summary := s!"{tally.checked} templates checked, {tally.failed} with errors\n"
    ⟨if tally.failed = 0 then 0 else 1, summary.toUTF8.toList, tally.errors, disk⟩

/-! The command line -/

def Request.run (request : Request) (disk : Disk) : Outcome :=
  match settings disk request with
  | .error error =>
      let file := (request.config?.map Path.display).getD ""
      .failure disk s!"Error loading config '{file}': {error.message}"
  | .ok settings =>
      let theme : Theme := ⟨settings, .standard⟩
      match request.task with
      | .render view layout? locals? fragment => render theme view layout? locals? fragment disk
      | .check => check theme disk

def usageCode : Nat := 2

def run (words : List String) (disk : Disk) : Outcome :=
  match Request.ofWords words with
  | .error error => ⟨usageCode, [], s!"error: {error.message}\n", disk⟩
  | .ok request => request.run disk

end ThemeRender.Command
