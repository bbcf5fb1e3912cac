import ThemeRender.Template.Block
import ThemeRender.Template.Segment
/-!
Reading a whole template. A tag with an error is left out and reading goes on, so that all errors
are found; only when there are none, blocks left open count.
-/

namespace ThemeRender.Template

structure Progress where
  assembly : Assembly
  errors : List SyntaxError

namespace Progress

def start : Progress := ⟨.empty, []⟩

def fail (error : SyntaxError) (progress : Progress) : Progress :=
  { progress with errors := progress.errors ++ [error] }

def push (node : Node) (progress : Progress) : Progress :=
  { progress with assembly := progress.assembly.push node }

def step (progress : Progress) : Segment → Progress
  | .text contents => progress.push (.text (String.ofList contents))
  | .tag .comment _ _ _ => progress
  | .tag .output code offset _ =>
      match readCode readOutput code with
      | .ok value => progress.push (.output (value.shift offset))
      | .error error => progress.fail (error.shift offset)
  | .tag .code code offset span =>
      match readCode readDirective code with
      | .error error => progress.fail (error.shift offset)
      | .ok directive =>
          match progress.assembly.apply (directive.shift offset) span with
          | .ok assembly => { progress with assembly }
          | .error error => progress.fail error

def finish (progress : Progress) : Except (List SyntaxError) (List Node) :=
  if progress.errors.isEmpty then progress.assembly.finish.mapError ([·])
  else .error progress.errors

end Progress

def parse (source : String) : Except (List SyntaxError) (List Node) :=
  match segments source.toList with
  | .error error => .error [error]
  | .ok segments => (segments.foldl Progress.step .start).finish

end ThemeRender.Template
