import ThemeRender.Theme.Composition
import ThemeRender.Theme.ViewOptions
/-!
Whole pages. A render that fails leaves nothing of what it wrote: the page of its error is delivered
instead.
-/

namespace ThemeRender

abbrev ErrorPage := String → String → String

def htmlErrorPage : ErrorPage := fun title message =>
  let title := Text.escapeHtml title
  let message := Text.escapeHtml message
  String.join [
    "<!DOCTYPE html>\n",
    "<html>\n",
    "<head>\n",
    "  <meta charset=\"utf-8\">\n",
    s!"  <title>{title}</title>\n",
    "</head>\n",
    "<body class=\"render-error\">\n",
    s!"  <h1>{title}</h1>\n",
    s!"  <p>{message}</p>\n",
    "</body>\n",
    "</html>\n"]

/-- A place that takes bytes up to a limit, if it has one. -/
structure Sink where
  taken : List UInt8
  limit? : Option Nat

namespace Sink

def unlimited : Sink := ⟨[], none⟩

def deliver (page : String) (sink : Sink) : Bool × Sink :=
  let bytes := page.toUTF8.toList
  match sink.limit? with
  | none => (true, { sink with taken := sink.taken ++ bytes })
  | some limit =>
      let space := limit - sink.taken.length
      (decide (bytes.length ≤ space), { sink with taken := sink.taken ++ bytes.take space })

end Sink

inductive PageError where
  /-- The render failed, and the error page was delivered. -/
  | halted (title message : String)
  | undelivered (cause : String)

def PageError.display : PageError → String
  | .halted title message => s!"render halted: {title}: {message}"
  | .undelivered cause => s!"failed to write rendered output: {cause}"

structure PageOutcome (σ : Type) where
  result : Except PageError Unit
  sink : Sink
  room : Workroom σ

namespace Theme

variable {σ : Type} [Store σ]

def sinkFull : String := "sink full"

/-- Runs a render on empty frames and delivers its page, or the error page if it fails. -/
def deliverPage (errorPage : ErrorPage) (render : Rendering σ Unit) (sink : Sink)
    (room : Workroom σ) : PageOutcome σ :=
  match render ⟨.empty, room⟩ with
  | .ok () stage =>
      let (complete, sink) := sink.deliver stage.frames.base
      ⟨if complete then .ok () else .error (.undelivered sinkFull), sink, stage.state⟩
  | .error error stage =>
      let (complete, sink) := sink.deliver (errorPage error.title error.message)
      ⟨.error (if complete then .halted error.title error.message else .undelivered sinkFull),
        sink, stage.state⟩

def defaultOptions (theme : Theme) : ViewOptions :=
  .withLayout theme.settings.defaultLayout

def renderView (theme : Theme) (errorPage : ErrorPage) (name : String) (options : ViewOptions)
    (sink : Sink) (room : Workroom σ) : PageOutcome σ :=
  deliverPage errorPage
    (theme.renderTemplate (some ⟨name, options.locals⟩) s!"layouts/{options.layout}" options.locals)
    sink room

/-- Renders a partial outside any view. -/
def renderFragment (theme : Theme) (errorPage : ErrorPage) (name : String) (locals : Locals)
    (sink : Sink) (room : Workroom σ) : PageOutcome σ :=
  deliverPage errorPage ((theme.host none).renderPartial name locals) sink room

end Theme

end ThemeRender
