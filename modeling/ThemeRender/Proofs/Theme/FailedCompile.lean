import ThemeRender.Proofs.Store.MemoryHistory
import ThemeRender.Proofs.Theme.CacheTransparency
/-!
What a call for an executable form leaves behind when it fails. The directories may have been
prepared by then, but no file is touched before the last step, and that one cannot fail.
-/

namespace ThemeRender

open Outcome (bind_ok bind_error)

theorem Path.exists_parent?_join {file : List Char} (noSlash : '/' ∉ file)
    (busy : isIdle file = false) (notParent : file ≠ ['.', '.']) (base : Path) :
    ∃ dir, (base.join ⟨file⟩).parent? = some dir := by
  obtain ⟨dir, above, -⟩ :=
    parent?_of_concat_name (@components_join_name base file noSlash busy notParent)
  exact ⟨dir, above⟩

theorem artifactName_isName {name : List Char} (noSlash : '/' ∉ name) :
    let dotted := '.' :: Dialect.native.extension.toList
    let file := (Text.dropTail? dotted name).getD name ++ dotted
    '/' ∉ file ∧ Path.isIdle file = false ∧ file ≠ ['.', '.'] := by
  intro dotted file
  have front : '/' ∉ (Text.dropTail? dotted name).getD name := by
    unfold Text.dropTail?
    split
    · exact fun member => noSlash (List.mem_of_mem_take member)
    · exact noSlash
  have long : 4 ≤ file.length := by
    rw [List.length_append]
    exact Nat.le_add_left 4 _
  have other {mark : List Char} (short : mark.length < 4) : file ≠ mark := by
    intro same
    rw [same] at long
    omega
  refine ⟨?_, ?_, other (by decide)⟩
  · rw [List.mem_append, not_or]
    exact ⟨front, by decide⟩
  · have notPoint : file ≠ ['.'] := other (by decide)
    have notEmpty : file ≠ [] := other (by decide)
    simp [Path.isIdle, notPoint, notEmpty]

theorem exists_parent?_artifactPath (viewsRoot tempRoot source : Path) :
    ∃ dir, (artifactPath viewsRoot tempRoot source).parent? = some dir := by
  have noSlash : '/' ∉ (relativeTo viewsRoot source).fileName?.getD [] := by
    cases named : (relativeTo viewsRoot source).fileName? with
    | none => exact List.not_mem_nil
    | some name => exact (Path.name_of_fileName? named).2.1
  obtain ⟨noSlash, busy, notParent⟩ := artifactName_isName noSlash
  rw [artifactPath_eq]
  unfold executableUnder
  dsimp only
  split
  · exact Path.exists_parent?_join noSlash busy notParent _
  · exact Path.exists_parent?_join noSlash busy notParent _

namespace Theme

open MemoryStore (Change DirsOnly afterChanges)

variable {theme : Theme} {file : TemplateFile} {room after : Workroom MemoryStore}
  {error : RenderError}

/-! How a call fails -/

variable (theme) in
/-- For want of a compiler, of a directory or of the source, or since the source is refused. -/
inductive CompileFailure (file : TemplateFile) (room : Workroom MemoryStore) :
    RenderError → Workroom MemoryStore → Prop
  | noCompiler :
      CompileFailure file room (.runtime file.path.display none (.noCompiler file.dialect)) room
  | notWritable (dir : Path) {after : Workroom MemoryStore}
      (kept : DirsOnly room.store after.store) (uncalled : after.compiled = room.compiled) :
      CompileFailure file room (.notWritable dir) after
  | noSource {after : Workroom MemoryStore} (kept : DirsOnly room.store after.store)
      (uncalled : after.compiled = room.compiled) :
      CompileFailure file room (.file file.path (.notFound file.path)) after
  | refused {compiler : Compiler} (error : CompileError) {after : Workroom MemoryStore}
      (registered : theme.compilers.compiler? file.dialect = some compiler)
      (kept : DirsOnly room.store after.store) :
      CompileFailure file room (.compile error) after

namespace CompileFailure

theorem dirsOnly (failure : theme.CompileFailure file room error after) :
    DirsOnly room.store after.store := by
  cases failure with
  | noCompiler => exact .refl _
  | notWritable _ kept => exact kept
  | noSource kept => exact kept
  | refused _ _ kept => exact kept

theorem uncalled (failure : theme.CompileFailure file room error after)
    (early : (∃ dir, error = .notWritable dir) ∨ theme.compilers.compiler? file.dialect = none) :
    after.compiled = room.compiled := by
  cases failure with
  | noCompiler => rfl
  | notWritable _ _ uncalled => exact uncalled
  | noSource _ uncalled => exact uncalled
  | refused _ registered _ =>
      rcases early with ⟨dir, same⟩ | unknown
      · cases same
      · cases registered.symm.trans unknown

end CompileFailure

theorem compileTo_failure
    (fails : theme.compileTo file (theme.artifactPath file.path) room = .error error after) :
    theme.CompileFailure file room error after := by
  obtain ⟨dir, above⟩ : ∃ dir, (theme.artifactPath file.path).parent? = some dir :=
    exists_parent?_artifactPath _ _ _
  cases registered : theme.compilers.compiler? file.dialect with
  | none =>
      unfold compileTo at fails
      rw [registered] at fails
      cases fails
      exact .noCompiler
  | some compiler =>
      obtain ⟨middle, kept, uncalled, found | refused⟩ := theme.ensureWritable_kept dir room
      · rw [compileTo_ready above found registered] at fails
        split at fails
        · cases fails
          exact .noSource kept uncalled
        · split at fails
          · cases fails
            exact .refused _ registered kept
          · cases fails
      · unfold compileTo at fails
        rw [registered, above] at fails
        cases (bind_error refused).symm.trans fails
        exact .notWritable dir kept uncalled

theorem ensureCompiled_failure (fails : theme.ensureCompiled file room = .error error after) :
    theme.CompileFailure file room error after ∧ ¬ theme.Fresh room.store file := by
  have compiled : file.dialect.isCompiled = true := by
    cases native : file.dialect.isCompiled with
    | true => rfl
    | false => cases (ensureCompiled_of_native native room).symm.trans fails
  have stale : ¬ theme.Fresh room.store file := by
    intro fresh
    cases (ensureCompiled_of_fresh compiled fresh).symm.trans fails
  have refuses (judged : isFresh file.path (theme.artifactPath file.path) room = .ok false room) :
      theme.CompileFailure file room error after := by
    unfold ensureCompiled at fails
    rw [compiled] at fails
    have fails := (bind_ok judged).symm.trans fails
    cases compiles : theme.compileTo file (theme.artifactPath file.path) room with
    | ok _ middle => cases (bind_ok compiles).symm.trans fails
    | error fault middle =>
        cases (bind_error compiles).symm.trans fails
        exact compileTo_failure compiles
  refine ⟨?_, stale⟩
  cases written : room.store.files.get? file.path with
  | some source => exact refuses (isFresh_of_stale written stale)
  | none =>
      have judged := isFresh_apply file.path (theme.artifactPath file.path) room
      rw [written] at judged
      cases kept : room.store.files.get? (theme.artifactPath file.path) with
      | none =>
          rw [kept] at judged
          exact refuses judged
      | some artifact =>
          -- there is an artifact, but nothing to compare its time with
          rw [kept] at judged
          unfold ensureCompiled at fails
          rw [compiled] at fails
          cases (bind_error judged).symm.trans fails
          exact .noSource (.refl _) rfl

/-! What a call changes -/

/-- A call for an executable form that fails leaves all files and the clock as they were, so that an
artifact that there was is stale the next time too; and no compiler is called for want of a directory
or of a compiler. A call that succeeds changes no other file than the artifact, and none if the
template is executable itself. Once the directory takes files and the compiler has succeeded, so does
the call. -/
theorem failed_compile_changes_no_file (theme : Theme) (file : TemplateFile)
    (room : Workroom MemoryStore) :
    let artifact := theme.artifactPath file.path
    (∀ error after, theme.ensureCompiled file room = .error error after →
      after.store.files = room.store.files ∧ after.store.clock = room.store.clock ∧
      (∀ source old, room.store.files.get? file.path = some source →
        room.store.files.get? artifact = some old →
        isFresh file.path artifact after = .ok false after) ∧
      ((∃ dir, error = .notWritable dir) ∨ theme.compilers.compiler? file.dialect = none →
        after.compiled = room.compiled)) ∧
    (∀ executable after, theme.ensureCompiled file room = .ok executable after →
      (∀ path : Path, path.components ≠ artifact.components →
        after.store.files.get? path = room.store.files.get? path) ∧
      (file.dialect.isCompiled = false → after = room)) ∧
    ∃ dir, artifact.parent? = some dir ∧
      ∀ middle source compiler text, theme.ensureWritable dir room = .ok () middle →
        room.store.files.get? file.path = some source →
        theme.compilers.compiler? file.dialect = some compiler →
        compiler source.contents file.path = .ok text →
        theme.compileTo file artifact room =
          .ok () (called file { middle with store := middle.store.putFile artifact text }) := by
  intro artifact
  refine ⟨?_, ?_, ?_⟩
  · intro error after fails
    obtain ⟨failure, stale⟩ := ensureCompiled_failure fails
    have kept := failure.dirsOnly
    refine ⟨kept.files, kept.clock, ?_, failure.uncalled⟩
    intro source old written _
    have staleAfter : ¬ theme.Fresh after.store file := by
      unfold Fresh
      rw [kept.files]
      exact stale
    rw [← kept.files] at written
    exact isFresh_of_stale written staleAfter
  · intro executable after succeeds
    cases compiled : file.dialect.isCompiled with
    | true =>
        refine ⟨fun path different => ?_, fun native => by cases native⟩
        have frame := ensureCompiled_frame compiled room different
        rw [Outcome.finalState_ok succeeds] at frame
        exact frame
    | false =>
        cases (ensureCompiled_of_native compiled room).symm.trans succeeds
        exact ⟨fun _ _ => rfl, fun _ => rfl⟩
  · obtain ⟨dir, above⟩ : ∃ dir, artifact.parent? = some dir := exists_parent?_artifactPath _ _ _
    refine ⟨dir, above, ?_⟩
    intro middle source compiler text found written registered compiles
    rw [compileTo_ready above found registered, written]
    dsimp only
    rw [compiles]

def brokenChanges : List Change :=
  [.addFile (.ofString "./tmp/a.haml.php") "<p></p>\n",
    .addFile (.ofString "./views/a.haml") "%p(", .addDir (.ofString "./tmp") 0o555]

def isRefused (outcome : EStateM.Result RenderError (Workroom MemoryStore) Path) : Bool :=
  match outcome with
  | .ok _ _ => false
  | .error _ _ => true

theorem broken_page_keeps_artifact :
    let page : TemplateFile := ⟨.ofString "./views/a.haml", .haml⟩
    let store := afterChanges brokenChanges
    ∃ error after, standard.ensureCompiled page ⟨store, []⟩ = .error error after ∧
      after.store.files = store.files ∧
      isFresh page.path (standard.artifactPath page.path) after = .ok false after := by
  intro page store
  obtain ⟨failing, -, -⟩ := failed_compile_changes_no_file standard page ⟨store, []⟩
  have refused : isRefused (standard.ensureCompiled page ⟨store, []⟩) = true := by decide +kernel
  cases outcome : standard.ensureCompiled page ⟨store, []⟩ with
  | ok path after =>
      rw [outcome] at refused
      cases refused
  | error error after =>
      obtain ⟨files, -, stale, -⟩ := failing error after outcome
      refine ⟨error, after, rfl, files, stale ⟨"%p(", 2⟩ ⟨"<p></p>\n", 1⟩ ?_ ?_⟩
      · decide +kernel
      · decide +kernel

end Theme

end ThemeRender
