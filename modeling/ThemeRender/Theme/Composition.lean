import ThemeRender.Template.Parse
import ThemeRender.Template.Run
import ThemeRender.Theme.Artifact
/-!
Views, layouts and partials. A layout is rendered with the locals of a view and draws the view in;
partials are templates whose last name segment is marked. Templates can be nested only so deep, so
that every render comes to an end.
-/

namespace ThemeRender

structure ViewFrame where
  name : String
  locals : Locals

namespace Theme

variable {σ : Type} [Store σ]

abbrev Rendering (σ : Type) := Render (Workroom σ)

def findFile (theme : Theme) (name : String) : EStateM RenderError (Workroom σ) TemplateFile := do
  let viewsRoot := theme.settings.viewsRoot
  match TemplateFile.find? (← get).store viewsRoot name with
  | some file => return file
  | none => throw (.missing name (TemplateFile.candidates viewsRoot name))

def load (path : Path) : EStateM RenderError (Workroom σ) (String × List Template.Node) := do
  let source ← Workroom.ask path (Store.read · path)
  match Template.parse source with
  | .ok nodes => return (source, nodes)
  | .error errors => throw (.malformed path errors)

def hostOver {τ : Type} (view? : Option ViewFrame) (render : String → Locals → Render τ Unit) :
    Template.Host τ where
  yieldView :=
    match view? with
    | some view => render view.name view.locals
    | none => throw (.runtime "yield" none .outsideView)
  renderPartial name locals := render (partialName name) locals
  partialContent name locals := Staged.capture (render (partialName name) locals)

/-- Renders the template of a name. At most as many templates as there are levels left are rendered
inside one another. -/
def renderNested (theme : Theme) (view? : Option ViewFrame) :
    Nat → String → Locals → Rendering σ Unit
  | 0, name, _ => throw (.runtime name none (.nestedTooDeep theme.settings.maxDepth))
  | levels + 1, name, locals => do
      let file ← Staged.onState (theme.findFile name)
      let executable ← Staged.onState (theme.ensureCompiled file)
      let (source, nodes) ← Staged.onState (load executable)
      Template.run (hostOver view? (renderNested theme view? levels)) executable.display source
        locals nodes

def renderTemplate (theme : Theme) (view? : Option ViewFrame) (name : String) (locals : Locals) :
    Rendering σ Unit :=
  theme.renderNested view? theme.settings.maxDepth name locals

def host (theme : Theme) (view? : Option ViewFrame) : Template.Host (Workroom σ) :=
  hostOver view? (theme.renderTemplate view?)

end Theme

end ThemeRender
