import ThemeRender.Markup.CompileError
import ThemeRender.Store.Basic
import ThemeRender.Template.SyntaxError

namespace ThemeRender

inductive RuntimeFault where
  | yieldArguments
  | partialWithoutName (function : String)
  | partialName (function found : String)
  | partialLocals (function found : String)
  | partialArguments (function : String)
  | escapeArguments
  | unknownFunction (name : String)
  | notIterable (found : String)
  | outsideView
  | nestedTooDeep (limit : Nat)
  | noCompiler (dialect : Dialect)
  | refused (name : String)

def RuntimeFault.message : RuntimeFault → String
  | .yieldArguments => "yield() takes no arguments"
  | .partialWithoutName function => s!"{function}() needs a template name"
  | .partialName function found => s!"{function}() name must be a string, got {found}"
  | .partialLocals function found => s!"{function}() locals must be a map, got {found}"
  | .partialArguments function => s!"{function}() takes at most two positional arguments"
  | .escapeArguments => "escape() takes exactly one argument"
  | .unknownFunction name => s!"unknown function '{name}'"
  | .notIterable found => s!"cannot iterate over a {found}"
  | .outsideView => "yield() called outside of a view"
  | .nestedTooDeep limit =>
      s!"templates nested more than {limit} deep; is a partial or yield recursing?"
  | .noCompiler dialect => s!"no compiler registered for {dialect.name} templates"
  | .refused name => s!"refused {name}"

inductive RenderError where
  | missing (name : String) (candidates : List Path)
  | notWritable (dir : Path)
  | compile (error : CompileError)
  | malformed (path : Path) (errors : List Template.SyntaxError)
  /-- `line?` is known when the fault lies in the template itself. -/
  | runtime (template : String) (line? : Option Nat) (fault : RuntimeFault)
  | file (path : Path) (error : FileError)

namespace RenderError

def runtimeMessage (line? : Option Nat) (fault : RuntimeFault) : String :=
  match line? with
  | some line => s!"line {line}: {fault.message}"
  | none => fault.message

def title : RenderError → String
  | .missing _ _ => "Template missing"
  | .notWritable _ => "Directory not writable"
  | .compile error => error.category
  | .malformed _ _ => "TemplateSyntaxError"
  | .runtime _ _ _ => "TemplateRuntimeError"
  | .file _ _ => "IoError"

def message : RenderError → String
  | .missing name candidates =>
      let tried := ", ".intercalate (candidates.map Path.display)
      s!"It seems that no template exists for `{name}` (tried: {tried})."
  | .notWritable dir =>
      s!"It seems that the `{dir.display}` directory is not writable by the server."
  | .compile error => error.display
  | .malformed path errors => s!"{path.display}: {Template.SyntaxError.displayAll errors}"
  | .runtime template line? fault => s!"{template}: {runtimeMessage line? fault}"
  | .file path error => s!"{path.display}: {error.message}"

def display : RenderError → String
  | .missing name _ => s!"template missing: {name}"
  | .notWritable dir => s!"directory not writable: {dir.display}"
  | .compile error => s!"compile error: {error.display}"
  | .malformed path errors =>
      s!"syntax error in {path.display}: {Template.SyntaxError.displayAll errors}"
  | .runtime template line? fault => s!"runtime error in {template}: {runtimeMessage line? fault}"
  | .file path error => s!"I/O error on {path.display}: {error.message}"

end RenderError

end ThemeRender
