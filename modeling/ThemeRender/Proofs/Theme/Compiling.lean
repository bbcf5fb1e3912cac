import ThemeRender.Proofs.Store.MemoryFiles
import ThemeRender.Proofs.Theme.Preparing

namespace ThemeRender.Theme

open Outcome (bind_ok bind_error bind_ok_iff)
open MemoryStore (DirsOnly)

variable (theme : Theme)

/-! Asking for an executable form -/

theorem ask_ok {σ α : Type} {path : Path} {question : σ → Except FileError α} {answer : α}
    {room : Workroom σ} (found : question room.store = .ok answer) :
    Workroom.ask path question room = .ok answer room := by
  rw [Workroom.ask, Outcome.get_bind, found]
  rfl

theorem ask_error {σ α : Type} {path : Path} {question : σ → Except FileError α}
    {error : FileError} {room : Workroom σ} (fails : question room.store = .error error) :
    Workroom.ask path question room = .error (.file path error) room := by
  rw [Workroom.ask, Outcome.get_bind, fails]
  rfl

theorem modified_ok {store : MemoryStore} {path : Path} {file : MemoryFile}
    (kept : store.files.get? path = some file) :
    Store.modified store path = .ok file.modified := by
  simp only [Store.modified, kept]

theorem modified_error {store : MemoryStore} {path : Path}
    (absent : store.files.get? path = none) :
    Store.modified store path = .error (.notFound path) := by
  simp only [Store.modified, absent]

theorem read_ok {store : MemoryStore} {path : Path} {file : MemoryFile}
    (kept : store.files.get? path = some file) :
    Store.read store path = .ok file.contents := by
  simp only [Store.read, MemoryStore.contents?, kept, Option.map_some]

theorem read_error {store : MemoryStore} {path : Path}
    (absent : store.files.get? path = none) :
    Store.read store path = .error (.notFound path) := by
  simp only [Store.read, MemoryStore.contents?, absent, Option.map_none]

theorem isFresh_apply (source artifact : Path) (room : Workroom MemoryStore) :
    isFresh source artifact room =
      match room.store.files.get? artifact with
      | none => .ok false room
      | some compiled =>
          match room.store.files.get? source with
          | none => .error (.file source (.notFound source)) room
          | some written => .ok (decide (written.modified ≤ compiled.modified)) room := by
  change (if room.store.files.contains artifact then _ else _ :
    EStateM RenderError (Workroom MemoryStore) Bool) room = _
  unfold PathMap.contains
  cases kept : room.store.files.get? artifact with
  | none => rfl
  | some compiled =>
      cases written : room.store.files.get? source with
      | none => exact bind_error (ask_error (modified_error written))
      | some original =>
          have sourceTime : Workroom.ask source (Store.modified · source) room =
              .ok original.modified room := ask_ok (modified_ok written)
          have artifactTime : Workroom.ask artifact (Store.modified · artifact) room =
              .ok compiled.modified room := ask_ok (modified_ok kept)
          exact (bind_ok sourceTime).trans (bind_ok artifactTime)

inductive CompileOutcome (file : TemplateFile) (room : Workroom MemoryStore) :
    EStateM.Result RenderError (Workroom MemoryStore) Path → Prop
  | fresh {source artifact : MemoryFile}
      (written : room.store.files.get? file.path = some source)
      (kept : room.store.files.get? (theme.artifactPath file.path) = some artifact)
      (fresh : source.modified ≤ artifact.modified) :
      CompileOutcome file room (.ok (theme.artifactPath file.path) room)
  | compiled {source : MemoryFile} {compiler : Compiler} {text : String}
      {after : Workroom MemoryStore}
      (written : room.store.files.get? file.path = some source)
      (stale : ∀ artifact, room.store.files.get? (theme.artifactPath file.path) = some artifact →
        artifact.modified < source.modified)
      (registered : theme.compilers.compiler? file.dialect = some compiler)
      (compiles : compiler source.contents file.path = .ok text)
      (files : after.store.files =
        room.store.files.insert (theme.artifactPath file.path) ⟨text, room.store.clock + 1⟩)
      (clock : after.store.clock = room.store.clock + 1)
      (calls : after.compiled = room.compiled ++ [file.path]) :
      CompileOutcome file room (.ok (theme.artifactPath file.path) after)
  | failed {error : RenderError} {after : Workroom MemoryStore}
      (kept : DirsOnly room.store after.store) :
      CompileOutcome file room (.error error after)

theorem ensureWritable_kept (dir : Path) (room : Workroom MemoryStore) :
    ∃ after : Workroom MemoryStore,
      DirsOnly room.store after.store ∧ after.compiled = room.compiled ∧
      (theme.ensureWritable dir room = .ok () after ∨
        theme.ensureWritable dir room = .error (.notWritable dir) after) := by
  refine ⟨{ room with store := theme.prepared dir room.store },
    keptByDirs_memory.prepareDirs theme _ _, rfl, ?_⟩
  rw [ensureWritable_apply]
  split
  · exact .inl rfl
  · exact .inr rfl

theorem act_write (artifact : Path) (text : String) (room : Workroom MemoryStore) :
    Workroom.act artifact (Store.write artifact text) room =
        .ok () { room with store := room.store.putFile artifact text } ∨
      ∃ error, Workroom.act artifact (Store.write artifact text) room = .error error room := by
  unfold Workroom.act
  rcases MemoryStore.writeFile_outcome artifact text room.store with written | ⟨error, refused⟩
  · have written' : Store.write artifact text room.store = _ := written
    rw [written']
    exact .inl rfl
  · have refused' : Store.write artifact text room.store = _ := refused
    rw [refused']
    exact .inr ⟨_, rfl⟩

section

variable {σ : Type} [Store σ]

def compileInto (compiler : Compiler) (file : TemplateFile) (artifact : Path) :
    EStateM RenderError (Workroom σ) Unit := do
  let source ← Workroom.ask file.path (Store.read · file.path)
  modify fun room => { room with compiled := room.compiled ++ [file.path] }
  match compiler source file.path with
  | .error error => throw (.compile error)
  | .ok text => Workroom.act artifact (Store.write artifact text)

def called (file : TemplateFile) (room : Workroom σ) : Workroom σ :=
  { room with compiled := room.compiled ++ [file.path] }

theorem compileInto_of_read (compiler : Compiler) (file : TemplateFile) (artifact : Path)
    (room : Workroom σ) :
    compileInto compiler file artifact room =
      match Store.read room.store file.path with
      | .error error => .error (.file file.path error) room
      | .ok source =>
          match compiler source file.path with
          | .error error => .error (.compile error) (called file room)
          | .ok text => Workroom.act artifact (Store.write artifact text) (called file room) := by
  unfold compileInto
  cases reads : Store.read room.store file.path with
  | error error => exact bind_error (ask_error reads)
  | ok source =>
      have noted : (modify (called file) : EStateM RenderError (Workroom σ) Unit) room =
          .ok () (called file room) := rfl
      refine (bind_ok (ask_ok reads)).trans ((bind_ok noted).trans ?_)
      dsimp only
      cases compiler source file.path with
      | error error => rfl
      | ok text => rfl

end

theorem compileInto_apply (compiler : Compiler) (file : TemplateFile) (artifact : Path)
    (room : Workroom MemoryStore) :
    compileInto compiler file artifact room =
      match room.store.files.get? file.path with
      | none => .error (.file file.path (.notFound file.path)) room
      | some source =>
          match compiler source.contents file.path with
          | .error error => .error (.compile error) (called file room)
          | .ok text => Workroom.act artifact (Store.write artifact text) (called file room) := by
  rw [compileInto_of_read]
  cases written : room.store.files.get? file.path with
  | none => rw [read_error written]
  | some source => rw [read_ok written]

variable {theme} in
theorem ready_of_ensureWritable {dir : Path} {room after : Workroom MemoryStore}
    (found : theme.ensureWritable dir room = .ok () after) :
    after.store.dirs.contains dir = true ∧ after.store.isWritable dir = true ∧
      DirsOnly room.store after.store ∧ after.compiled = room.compiled := by
  rw [ensureWritable_apply] at found
  split at found
  · rename_i ready
    obtain ⟨there, writable⟩ := Bool.and_eq_true_iff.mp ready
    cases found
    exact ⟨there, writable, keptByDirs_memory.prepareDirs theme _ _, rfl⟩
  · cases found

variable {theme} in
theorem compileTo_ready {file : TemplateFile} {artifact dir : Path} {compiler : Compiler}
    {room middle : Workroom MemoryStore} (above : artifact.parent? = some dir)
    (found : theme.ensureWritable dir room = .ok () middle)
    (registered : theme.compilers.compiler? file.dialect = some compiler) :
    theme.compileTo file artifact room =
      match room.store.files.get? file.path with
      | none => .error (.file file.path (.notFound file.path)) middle
      | some source =>
          match compiler source.contents file.path with
          | .error error => .error (.compile error) (called file middle)
          | .ok text =>
              .ok () (called file { middle with store := middle.store.putFile artifact text }) := by
  obtain ⟨there, writable, kept, -⟩ := ready_of_ensureWritable found
  unfold compileTo
  rw [registered, above]
  refine (bind_ok found).trans ((compileInto_apply compiler file artifact middle).trans ?_)
  rw [kept.files]
  cases room.store.files.get? file.path with
  | none => rfl
  | some source =>
      dsimp only
      cases compiler source.contents file.path with
      | error error => rfl
      | ok text =>
          have written : Store.write artifact text (called file middle).store =
              .ok () (middle.store.putFile artifact text) :=
            MemoryStore.writeFile_ok above there writable text
          dsimp only
          unfold Workroom.act
          rw [written]
          rfl

theorem compileInto_outcome {file : TemplateFile} {room middle : Workroom MemoryStore}
    {compiler : Compiler} (kept : DirsOnly room.store middle.store)
    (calls : middle.compiled = room.compiled)
    (registered : theme.compilers.compiler? file.dialect = some compiler)
    (stale : ∀ source artifact, room.store.files.get? file.path = some source →
      room.store.files.get? (theme.artifactPath file.path) = some artifact →
        artifact.modified < source.modified) :
    theme.CompileOutcome file room
      ((do compileInto compiler file (theme.artifactPath file.path)
           return theme.artifactPath file.path) middle) := by
  have runs := compileInto_apply compiler file (theme.artifactPath file.path) middle
  rw [kept.files] at runs
  cases written : room.store.files.get? file.path with
  | none =>
      rw [written] at runs
      rw [bind_error runs]
      exact .failed kept
  | some source =>
      rw [written] at runs
      dsimp only at runs
      cases compiles : compiler source.contents file.path with
      | error error =>
          rw [compiles] at runs
          rw [bind_error runs]
          exact .failed kept
      | ok text =>
          rw [compiles] at runs
          rcases act_write (theme.artifactPath file.path) text (called file middle) with
            done | ⟨error, refused⟩
          · rw [bind_ok (runs.trans done)]
            refine .compiled written (fun artifact => stale source artifact written) registered
              compiles ?_ ?_ ?_
            · simp only [called, MemoryStore.putFile, kept.files, kept.clock]
            · simp only [called, MemoryStore.putFile, kept.clock]
            · simp only [called, calls]
          · rw [bind_error (runs.trans refused)]
            exact .failed kept

theorem compileTo_outcome (file : TemplateFile) (room : Workroom MemoryStore)
    (stale : ∀ source artifact, room.store.files.get? file.path = some source →
      room.store.files.get? (theme.artifactPath file.path) = some artifact →
        artifact.modified < source.modified) :
    theme.CompileOutcome file room
      ((do theme.compileTo file (theme.artifactPath file.path)
           return theme.artifactPath file.path) room) := by
  unfold compileTo
  cases registered : theme.compilers.compiler? file.dialect with
  | none => exact .failed (.refl _)
  | some compiler =>
      dsimp only
      cases above : (theme.artifactPath file.path).parent? with
      | none => exact theme.compileInto_outcome (.refl _) rfl registered stale
      | some dir =>
          dsimp only
          rw [bind_assoc]
          obtain ⟨middle, kept, calls, prepared | refused⟩ := theme.ensureWritable_kept dir room
          · rw [bind_ok prepared]
            exact theme.compileInto_outcome kept calls registered stale
          · rw [bind_error refused]
            exact .failed kept

theorem ensureCompiled_outcome (file : TemplateFile) (compiled : file.dialect.isCompiled = true)
    (room : Workroom MemoryStore) :
    theme.CompileOutcome file room (theme.ensureCompiled file room) := by
  unfold ensureCompiled
  simp only [compiled, Bool.not_true, Bool.false_eq_true, if_false]
  have freshness := isFresh_apply file.path (theme.artifactPath file.path) room
  cases kept : room.store.files.get? (theme.artifactPath file.path) with
  | none =>
      rw [kept] at freshness
      rw [bind_ok freshness]
      apply theme.compileTo_outcome
      intro source artifact _ found
      rw [kept] at found
      cases found
  | some artifact =>
      rw [kept] at freshness
      cases written : room.store.files.get? file.path with
      | none =>
          rw [written] at freshness
          rw [bind_error freshness]
          exact .failed (.refl _)
      | some source =>
          rw [written] at freshness
          rw [bind_ok freshness]
          by_cases fresh : source.modified ≤ artifact.modified
          · simp only [fresh, decide_true, if_true]
            exact .fresh written kept fresh
          · simp only [fresh, decide_false, Bool.false_eq_true, if_false]
            apply theme.compileTo_outcome
            intro source' artifact' written' kept'
            rw [written] at written'
            rw [kept] at kept'
            cases written'
            cases kept'
            omega

variable {theme} in
theorem executable_of_ensureCompiled {σ : Type} [Store σ] {file : TemplateFile}
    (compiled : file.dialect.isCompiled = true) {room after : Workroom σ} {executable : Path}
    (succeeds : theme.ensureCompiled file room = .ok executable after) :
    executable = theme.artifactPath file.path := by
  unfold ensureCompiled at succeeds
  simp only [compiled, Bool.not_true, Bool.false_eq_true, if_false] at succeeds
  obtain ⟨fresh, middle, -, delivers⟩ := bind_ok_iff.mp succeeds
  cases fresh with
  | true =>
      cases delivers
      rfl
  | false =>
      obtain ⟨_, last, -, ends⟩ := bind_ok_iff.mp delivers
      cases ends
      rfl

end ThemeRender.Theme
