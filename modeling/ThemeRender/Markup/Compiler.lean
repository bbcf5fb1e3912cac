import ThemeRender.Markup.Emission
import ThemeRender.Markup.HamlLines
import ThemeRender.Markup.JadeLines

namespace ThemeRender

/-- Template text from a source and its path, which is only named in errors. -/
abbrev Compiler := String → Path → Except CompileError String

namespace Markup

/-- Reads the lines of a source as a page tree and emits it. -/
def compileWith (dialect : Dialect) (read : List LineTree → Except Complaint (List Item)) :
    Compiler := fun source path =>
  let compiled := do
    let trees ← LineTree.ofSource source.toList
    let items ← read trees
    emit items
  match compiled with
  | .ok text => .ok (String.ofList text)
  | .error complaint => .error ⟨dialect, path, complaint⟩

section

variable {dialect : Dialect} {read : List LineTree → Except Complaint (List Item)}
  {source : String} {path : Path}

theorem compileWith_eq_ok {output : String} :
    compileWith dialect read source path = .ok output ↔
      (LineTree.ofSource source.toList >>= fun trees => read trees >>= emit) =
        .ok output.toList := by
  unfold compileWith
  cases compiled : LineTree.ofSource source.toList >>= fun trees => read trees >>= emit with
  | ok text => simp [← String.toList_inj]
  | error complaint => simp

theorem compileWith_eq_error {error : CompileError} :
    compileWith dialect read source path = .error error ↔
      error.dialect = dialect ∧ error.path = path ∧
        (LineTree.ofSource source.toList >>= fun trees => read trees >>= emit) =
          .error error.complaint := by
  obtain ⟨dialectOf, pathOf, complaintOf⟩ := error
  unfold compileWith
  cases compiled : LineTree.ofSource source.toList >>= fun trees => read trees >>= emit with
  | ok text => simp
  | error complaint => simp [eq_comm]

end

def compileHaml : Compiler := compileWith .haml Haml.readForest

def compileJade : Compiler := compileWith .jade Jade.readForest

end Markup

/-- The compilers at hand, at most one for each dialect. -/
structure Compilers where
  compiler? : Dialect → Option Compiler

namespace Compilers

def empty : Compilers := ⟨fun _ => none⟩

def register (dialect : Dialect) (compiler : Compiler) (compilers : Compilers) : Compilers :=
  ⟨fun other => if other = dialect then some compiler else compilers.compiler? other⟩

def haml : Compilers := empty.register .haml Markup.compileHaml

def jade : Compilers := empty.register .jade Markup.compileJade

def standard : Compilers := haml.register .jade Markup.compileJade

end Compilers

end ThemeRender
