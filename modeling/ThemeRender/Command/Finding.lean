import ThemeRender.Diagnostic.Report
import ThemeRender.Markup.Compiler
import ThemeRender.Template.Parse

namespace ThemeRender.Command

structure Finding where
  reports : List Report
  source : String

namespace Finding

def ofExecutable (file source : String) : Finding where
  reports :=
    match Template.parse source with
    | .ok _ => []
    | .error errors => errors.map (Report.ofSyntaxError file)
  source

def ofTemplate (compilers : Compilers) (dialect : Dialect) (path : Path) (source : String) :
    Finding :=
  match compilers.compiler? dialect with
  | none => ofExecutable path.display source
  | some compiler =>
      match compiler source path with
      | .ok compiled => ofExecutable s!"{path.display} (compiled)" compiled
      | .error error => ⟨[.ofCompileError error], source⟩

def isClean (finding : Finding) : Bool :=
  finding.reports.isEmpty

/-- The reports one below the other, if all of them can be shown. -/
def text? (finding : Finding) : Option String := do
  let texts ← finding.reports.mapM (Report.render? · finding.source)
  return "\n".intercalate texts

end Finding

end ThemeRender.Command
