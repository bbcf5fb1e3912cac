import ThemeRender.Markup.Compiler
import ThemeRender.Proofs.Theme.ArtifactPath
import ThemeRender.Proofs.Theme.Compiling
/-!
Artifacts and their sources. An artifact that is not older than its source holds what the compiler
gives for the source.
-/

namespace ThemeRender

/-- Whether the compilers give the same text for a source however its path is spelled. -/
def Compilers.SpellingBlind (compilers : Compilers) : Prop :=
  ∀ {dialect compiler source path other text}, compilers.compiler? dialect = some compiler →
    compiler source path = .ok text → other.components = path.components →
      compiler source other = .ok text

theorem Markup.compileWith_of_path (dialect : Dialect)
    (read : List LineTree → Except Complaint (List Item)) {source text : String} {path : Path}
    (compiles : compileWith dialect read source path = .ok text) (other : Path) :
    compileWith dialect read source other = .ok text :=
  compileWith_eq_ok.mpr (compileWith_eq_ok.mp compiles)

theorem Compilers.standard_of_path {dialect : Dialect} {compiler : Compiler}
    {source text : String} {path : Path} (registered : standard.compiler? dialect = some compiler)
    (compiles : compiler source path = .ok text) (other : Path) :
    compiler source other = .ok text := by
  cases dialect with
  | jade =>
      cases registered
      exact Markup.compileWith_of_path _ _ compiles other
  | haml =>
      cases registered
      exact Markup.compileWith_of_path _ _ compiles other
  | native => cases registered

theorem Compilers.standard_spellingBlind : standard.SpellingBlind := by
  intro dialect compiler source path other text registered compiles _
  exact standard_of_path registered compiles other

namespace Theme

/-- A file inside the views root whose extension is that of its dialect, a compiled one. -/
structure IsSource (theme : Theme) (file : TemplateFile) : Prop where
  spelled : Dialect.ofPath? file.path = some file.dialect
  compiled : file.dialect.isCompiled = true
  inside : file.path.Inside theme.settings.viewsRoot

def Separate (theme : Theme) : Prop :=
  theme.settings.viewsRoot.Apart theme.settings.tempRoot

def standard : Theme := ⟨.default, .standard⟩

theorem standard_separate : standard.Separate := by
  constructor <;> decide +kernel

variable {theme : Theme} {file other : TemplateFile}

namespace IsSource

theorem outside (isSource : theme.IsSource file) (separate : theme.Separate) :
    file.path.startsWith theme.settings.tempRoot = false :=
  separate.not_both isSource.inside.startsWith

theorem artifact_below (isSource : theme.IsSource file) (separate : theme.Separate) :
    (theme.artifactPath file.path).startsWith theme.settings.tempRoot = true :=
  artifactPath_startsWith separate.nonempty.1 isSource.spelled isSource.compiled

theorem artifact_congr_iff (isSource : theme.IsSource file) (isSource' : theme.IsSource other)
    (separate : theme.Separate) :
    (theme.artifactPath file.path).components = (theme.artifactPath other.path).components ↔
      file.path.components = other.path.components :=
  artifactPath_congr_iff separate.nonempty.1 isSource.spelled isSource.compiled isSource'.spelled
    isSource'.compiled isSource.inside isSource'.inside

theorem dialect_congr (isSource : theme.IsSource file) (isSource' : theme.IsSource other)
    (same : file.path.components = other.path.components) : file.dialect = other.dialect := by
  have spelled := isSource.spelled
  unfold Dialect.ofPath? Path.extension? Path.fileName? at spelled
  rw [same] at spelled
  exact Option.some.inj (spelled.symm.trans isSource'.spelled)

end IsSource

variable (theme)

def Fresh (store : MemoryStore) (file : TemplateFile) : Prop :=
  ∃ source artifact, store.files.get? file.path = some source ∧
    store.files.get? (theme.artifactPath file.path) = some artifact ∧
    source.modified ≤ artifact.modified

/-- Whether the artifact of a source, unless it is stale, is what the compiler makes of it. -/
def Coherent (store : MemoryStore) (file : TemplateFile) : Prop :=
  ∀ source artifact, store.files.get? file.path = some source →
    store.files.get? (theme.artifactPath file.path) = some artifact →
    source.modified ≤ artifact.modified →
    ∃ compiler, theme.compilers.compiler? file.dialect = some compiler ∧
      compiler source.contents file.path = .ok artifact.contents

open Outcome (finalState)

variable {theme}

theorem coherent_of_noFilesBelow {store : MemoryStore} (separate : theme.Separate)
    (clean : store.NoFilesBelow theme.settings.tempRoot) (isSource : theme.IsSource file) :
    theme.Coherent store file := by
  intro source artifact _ kept
  rw [clean _ (isSource.artifact_below separate)] at kept
  cases kept

theorem ensureCompiled_frame (compiled : other.dialect.isCompiled = true)
    (room : Workroom MemoryStore) {path : Path}
    (different : path.components ≠ (theme.artifactPath other.path).components) :
    (finalState (theme.ensureCompiled other) room).store.files.get? path =
      room.store.files.get? path := by
  have outcome := theme.ensureCompiled_outcome other compiled room
  unfold finalState
  generalize theme.ensureCompiled other room = result at outcome
  cases outcome with
  | fresh => rfl
  | compiled written stale registered compiles files =>
      dsimp only
      rw [files, PathMap.get?_insert, if_neg different]
  | failed kept =>
      dsimp only
      rw [kept.files]

theorem IsSource.ne_artifact (isSource : theme.IsSource file) (isSource' : theme.IsSource other)
    (separate : theme.Separate) :
    file.path.components ≠ (theme.artifactPath other.path).components :=
  Path.components_ne_of_startsWith (isSource'.artifact_below separate) (isSource.outside separate)

theorem ensureCompiled_outside (separate : theme.Separate) (isSource : theme.IsSource file)
    (room : Workroom MemoryStore) {path : Path}
    (outside : path.startsWith theme.settings.tempRoot = false) :
    (finalState (theme.ensureCompiled file) room).store.files.get? path =
      room.store.files.get? path :=
  ensureCompiled_frame isSource.compiled room
    (Path.components_ne_of_startsWith (isSource.artifact_below separate) outside)

theorem Coherent.ensureCompiled (separate : theme.Separate) (blind : theme.compilers.SpellingBlind)
    (isSource : theme.IsSource file) (isSource' : theme.IsSource other)
    {room : Workroom MemoryStore} (coherent : theme.Coherent room.store file) :
    theme.Coherent (finalState (theme.ensureCompiled other) room).store file := by
  have sourceKept := ensureCompiled_frame isSource'.compiled room (isSource.ne_artifact isSource' separate)
  by_cases same : file.path.components = other.path.components
  · have outcome := theme.ensureCompiled_outcome other isSource'.compiled room
    have artifactSame := (isSource.artifact_congr_iff isSource' separate).mpr same
    unfold finalState at sourceKept ⊢
    generalize theme.ensureCompiled other room = result at outcome sourceKept ⊢
    cases outcome with
    | fresh => exact coherent
    | compiled written stale registered compiles files =>
        intro source artifact written' kept _
        dsimp only at sourceKept written' kept
        rw [sourceKept, PathMap.get?_congr _ same, written] at written'
        rw [files, PathMap.get?_insert, if_pos artifactSame] at kept
        cases written'
        cases kept
        rw [isSource.dialect_congr isSource' same]
        exact ⟨_, registered, blind registered compiles same⟩
    | failed kept =>
        unfold Coherent
        dsimp only
        rw [kept.files]
        exact coherent
  · have artifactKept := ensureCompiled_frame isSource'.compiled room
      (fun equal => same ((isSource.artifact_congr_iff isSource' separate).mp equal))
    unfold Coherent
    rw [sourceKept, artifactKept]
    exact coherent

end Theme

end ThemeRender
