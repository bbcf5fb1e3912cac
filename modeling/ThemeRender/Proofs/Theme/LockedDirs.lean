import ThemeRender.Proofs.Store.Locks
import ThemeRender.Proofs.Theme.Coherence
/-!
Locked directories under a renderer. Preparing directories and compiling templates change a store
through its own actions alone, so that what every action keeps they keep too. What is below a lock
therefore stays as it is, whatever is asked of the store or of the cache.
-/

namespace ThemeRender

open Outcome (finalState finalState_ok finalState_error finalState_bind_trans)

/-! What all actions keep -/

def KeepsThroughout {σ α : Type} (Keeps : σ → σ → Prop)
    (action : EStateM RenderError (Workroom σ) α) : Prop :=
  ∀ room, Keeps room.store (finalState action room).store

theorem KeepsThroughout.act {σ : Type} {Keeps : σ → σ → Prop} {path : Path}
    {action : EStateM FileError σ Unit} (keeps : ∀ store, Keeps store (finalState action store)) :
    KeepsThroughout Keeps (Workroom.act path action) := by
  intro room
  have moved := keeps room.store
  unfold finalState Workroom.act at *
  cases result : action room.store with
  | ok _ after =>
      rw [result] at moved
      exact moved
  | error error after =>
      rw [result] at moved
      exact moved

/-- Whether a relation holds between a store and what becomes of it by any action. -/
structure KeptByActions {σ : Type} [Store σ] (Keeps : σ → σ → Prop) : Prop
    extends Theme.KeptByDirs Keeps where
  write : ∀ path contents store, Keeps store (finalState (Store.write path contents) store)

namespace KeptByActions

variable {σ α β : Type} [Store σ] {Keeps : σ → σ → Prop} (kept : KeptByActions Keeps)
  (theme : Theme)

include kept

theorem of_unchanged {action : EStateM RenderError (Workroom σ) α}
    (same : ∀ room, (finalState action room).store = room.store) :
    KeepsThroughout Keeps action := by
  intro room
  rw [same]
  exact kept.refl room.store

theorem pure (a : α) : KeepsThroughout Keeps (pure a) :=
  kept.of_unchanged fun _ => rfl

theorem bind {first : EStateM RenderError (Workroom σ) α}
    {next : α → EStateM RenderError (Workroom σ) β} (keeps : KeepsThroughout Keeps first)
    (nextKeeps : ∀ a, KeepsThroughout Keeps (next a)) : KeepsThroughout Keeps (first >>= next) :=
  fun room => @finalState_bind_trans _ _ _ _ first next room
    (fun before after => Keeps before.store after.store) kept.trans (keeps room)
    fun a after _ => nextKeeps a after

theorem ask (path : Path) (question : σ → Except FileError α) :
    KeepsThroughout Keeps (Workroom.ask path question) := by
  apply kept.of_unchanged
  intro room
  cases answer : question room.store with
  | ok a => rw [finalState_ok (Theme.ask_ok answer)]
  | error error => rw [finalState_error (Theme.ask_error answer)]

theorem ensureWritable (dir : Path) : KeepsThroughout Keeps (theme.ensureWritable dir) := by
  intro room
  have prepared : Keeps room.store (theme.prepared dir room.store) :=
    kept.prepareDirs theme (theme.levels dir) room.store
  unfold finalState
  rw [Theme.ensureWritable_apply]
  cases Store.isDir (theme.prepared dir room.store) dir &&
      Store.isWritable (theme.prepared dir room.store) dir with
  | true => exact prepared
  | false => exact prepared

theorem isFresh (source artifact : Path) :
    KeepsThroughout Keeps (Theme.isFresh (σ := σ) source artifact) := by
  unfold Theme.isFresh
  apply kept.bind (kept.of_unchanged fun _ => rfl)
  intro room
  split
  · apply kept.bind (kept.ask source _)
    intro sourceTime
    apply kept.bind (kept.ask artifact _)
    intro artifactTime
    exact kept.pure _
  · exact kept.pure false

theorem compileInto (compiler : Compiler) (file : TemplateFile) (artifact : Path) :
    KeepsThroughout Keeps (Theme.compileInto (σ := σ) compiler file artifact) := by
  unfold Theme.compileInto
  apply kept.bind (kept.ask file.path _)
  intro source
  apply kept.bind (kept.of_unchanged fun _ => rfl)
  intro _
  cases compiler source file.path with
  | error error => exact kept.of_unchanged fun _ => rfl
  | ok text => exact .act (kept.write artifact text)

theorem compileTo (file : TemplateFile) (artifact : Path) :
    KeepsThroughout Keeps (theme.compileTo file artifact) := by
  unfold Theme.compileTo
  cases theme.compilers.compiler? file.dialect with
  | none => exact kept.of_unchanged fun _ => rfl
  | some compiler =>
      cases artifact.parent? with
      | none => exact kept.compileInto compiler file artifact
      | some dir =>
          apply kept.bind (kept.ensureWritable theme dir)
          intro _
          exact kept.compileInto compiler file artifact

theorem ensureCompiled (file : TemplateFile) :
    KeepsThroughout Keeps (theme.ensureCompiled file) := by
  unfold Theme.ensureCompiled
  split
  · exact kept.pure file.path
  · apply kept.bind (kept.isFresh file.path _)
    intro fresh
    cases fresh with
    | true => exact kept.pure _
    | false =>
        apply kept.bind (kept.compileTo theme file _)
        intro _
        exact kept.pure _

end KeptByActions

theorem keptByActions_heldBelow (root : Path) :
    KeptByActions (σ := MemoryStore) (MemoryStore.HeldBelow root) where
  refl := .refl root
  trans := .trans
  createDirs := .createDirs
  setMode := .setMode
  write := .writeFile

/-! One call after another -/

inductive CacheCall where
  | write (path : Path) (contents : String)
  | createDirs (path : Path) (mode : Mode)
  | setMode (path : Path) (mode : Mode)
  | ensureWritable (theme : Theme) (dir : Path)
  | ensureCompiled (theme : Theme) (file : TemplateFile)

namespace CacheCall

def run (room : Workroom MemoryStore) : CacheCall → Workroom MemoryStore
  | .write path contents =>
      { room with store := finalState (MemoryStore.writeFile path contents) room.store }
  | .createDirs path mode =>
      { room with store := finalState (MemoryStore.createDirs path mode) room.store }
  | .setMode path mode =>
      { room with store := finalState (MemoryStore.setMode path mode) room.store }
  | .ensureWritable theme dir => finalState (theme.ensureWritable dir) room
  | .ensureCompiled theme file => finalState (theme.ensureCompiled file) room

theorem run_heldBelow (root : Path) (room : Workroom MemoryStore) (call : CacheCall) :
    MemoryStore.HeldBelow root room.store (run room call).store := by
  have kept := keptByActions_heldBelow root
  cases call with
  | write path contents => exact kept.write path contents room.store
  | createDirs path mode => exact kept.createDirs path mode room.store
  | setMode path mode => exact kept.setMode path mode room.store
  | ensureWritable theme dir => exact kept.ensureWritable theme dir room
  | ensureCompiled theme file => exact kept.ensureCompiled theme file room

theorem runAll_heldBelow (root : Path) (calls : List CacheCall) (room : Workroom MemoryStore) :
    MemoryStore.HeldBelow root room.store (calls.foldl run room).store := by
  induction calls generalizing room with
  | nil => exact .refl root room.store
  | cons call rest ih => exact (run_heldBelow root room call).trans (ih (run room call))

/-- Whatever a renderer asks of a store and its cache, for any theme and with any paths: at and
below a path with a lock over it, the directories and their modes stay what they are, and so do the
files below it with their contents and times. -/
theorem locked_dirs_stay (path : Path) (room : Workroom MemoryStore)
    (locked : room.store.isLocked path = true) (calls : List CacheCall) :
    let after := (calls.foldl run room).store
    (∀ dir : Path, dir.startsWith path = true →
      after.dirs.get? dir = room.store.dirs.get? dir) ∧
    ∀ file : Path, file.startsWith path = true → file.components ≠ path.components →
      after.files.get? file = room.store.files.get? file := by
  intro after
  have same := runAll_heldBelow path calls room locked
  exact ⟨same.dirs, same.files⟩

def draftsSite : MemoryStore :=
  let written := MemoryStore.empty.addFile (.ofString "./views/drafts/a.haml") "%p a"
  (written.addFile (.ofString "./tmp/drafts/b.haml.php") "<p>b</p>").lock (.ofString "./tmp/drafts")

def draftsCalls : List CacheCall :=
  [.ensureCompiled .standard ⟨.ofString "./views/drafts/a.haml", .haml⟩,
    .write (.ofString "./tmp/drafts/b.haml.php") "", .setMode (.ofString "./tmp//drafts") 0,
    .createDirs (.ofString "./tmp/drafts/old") 0o777,
    .ensureWritable .standard (.ofString "./tmp/drafts/new"),
    .ensureWritable .standard (.ofString "./tmp/posts")]

theorem locked_drafts_stay :
    let after := (draftsCalls.foldl run (.ofStore draftsSite)).store
    draftsSite.isLocked (.ofString "./tmp/drafts") = true ∧
    after.dirs.get? (.ofString "./tmp/drafts") = some 0o755 ∧
    after.dirs.contains (.ofString "./tmp/drafts/new") = false ∧
    after.files.get? (.ofString "./tmp/drafts/b.haml.php") = some ⟨"<p>b</p>", 2⟩ ∧
    after.dirs.contains (.ofString "./tmp/posts") = true := by
  intro after
  have locked : draftsSite.isLocked (.ofString "./tmp/drafts") = true := by decide +kernel
  obtain ⟨dirs, files⟩ := locked_dirs_stay (.ofString "./tmp/drafts") (.ofStore draftsSite) locked
    draftsCalls
  refine ⟨locked, ?_, ?_, ?_, by decide +kernel⟩
  · exact (dirs _ (by decide +kernel)).trans (by decide +kernel)
  · exact (congrArg Option.isSome (dirs (.ofString "./tmp/drafts/new") (by decide +kernel))).trans
      (by decide +kernel)
  · exact (files _ (by decide +kernel) (by decide +kernel)).trans (by decide +kernel)

end CacheCall

end ThemeRender
