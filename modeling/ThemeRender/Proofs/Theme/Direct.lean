import ThemeRender.Proofs.Outcome
import ThemeRender.Theme.Page
/-!
Rendering without artifacts. Every source is compiled where it is used, from a store that is only
read, and goes by the path that its artifact would have.
-/

namespace ThemeRender

open Outcome (finalState)

namespace Theme

variable {σ : Type} [Store σ]

def readFile (store : σ) (path : Path) : Except RenderError String :=
  (Store.read store path).mapError (.file path)

/-- The executable text of a template and the path it goes by. -/
def executable (theme : Theme) (store : σ) (file : TemplateFile) :
    Except RenderError (Path × String) := do
  if !file.dialect.isCompiled then
    return (file.path, ← readFile store file.path)
  else
    match theme.compilers.compiler? file.dialect with
    | none => throw (.runtime file.path.display none (.noCompiler file.dialect))
    | some compiler =>
        let text ← (compiler (← readFile store file.path) file.path).mapError .compile
        return (theme.artifactPath file.path, text)

def template (theme : Theme) (store : σ) (name : String) :
    Except RenderError (Path × String × List Template.Node) :=
  let viewsRoot := theme.settings.viewsRoot
  match TemplateFile.find? store viewsRoot name with
  | none => .error (.missing name (TemplateFile.candidates viewsRoot name))
  | some file =>
      match theme.executable store file with
      | .error error => .error error
      | .ok (path, text) =>
          match Template.parse text with
          | .error errors => .error (.malformed path errors)
          | .ok nodes => .ok (path, text, nodes)

/-- Renders the template of a name, and notes the names of all templates that are rendered. -/
def renderDirect (theme : Theme) (store : σ) (view? : Option ViewFrame) :
    Nat → String → Locals → Render (List String) Unit
  | 0, name, _ => throw (.runtime name none (.nestedTooDeep theme.settings.maxDepth))
  | levels + 1, name, locals => do
      Staged.modifyState (· ++ [name])
      match theme.template store name with
      | .error error => throw error
      | .ok (path, text, nodes) =>
          Template.run (hostOver view? (theme.renderDirect store view? levels)) path.display text
            locals nodes

end Theme

inductive PageCall where
  | view (name : String) (options : ViewOptions)
  | fragment (name : String) (locals : Locals)

/-- What is heard of a page: how it ended and the bytes that were delivered. -/
abbrev PageAnswer := Except PageError Unit × List UInt8

namespace PageCall

variable {σ : Type} [Store σ]

def page (theme : Theme) (errorPage : ErrorPage) (room : Workroom σ) : PageCall → PageOutcome σ
  | .view name options => theme.renderView errorPage name options .unlimited room
  | .fragment name locals => theme.renderFragment errorPage name locals .unlimited room

/-- Renders pages one after another, each in the store that the one before it left. -/
def pages (theme : Theme) (errorPage : ErrorPage) (room : Workroom σ) :
    List PageCall → List PageAnswer
  | [] => []
  | call :: rest =>
      let outcome := call.page theme errorPage room
      (outcome.result, outcome.sink.taken) :: pages theme errorPage outcome.room rest

def renderDirect (theme : Theme) (store : σ) : PageCall → Render (List String) Unit
  | .view name options =>
      theme.renderDirect store (some ⟨name, options.locals⟩) theme.settings.maxDepth
        s!"layouts/{options.layout}" options.locals
  | .fragment name locals =>
      theme.renderDirect store none theme.settings.maxDepth (partialName name) locals

def direct (theme : Theme) (errorPage : ErrorPage) (store : σ) (call : PageCall) : PageAnswer :=
  match call.renderDirect theme store ⟨.empty, []⟩ with
  | .ok () stage => (.ok (), stage.frames.base.toUTF8.toList)
  | .error error _ =>
      (.error (.halted error.title error.message),
        (errorPage error.title error.message).toUTF8.toList)

def names (theme : Theme) (store : σ) (call : PageCall) : List String :=
  (finalState (call.renderDirect theme store) ⟨.empty, []⟩).state

end PageCall

end ThemeRender
