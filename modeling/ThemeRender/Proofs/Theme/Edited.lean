import ThemeRender.Proofs.Theme.Compiling
import ThemeRender.Theme.Composition
/-!
A store whose files are read in an edited form. Finding templates, compiling them and everything
else that is done to a store is done to it in the same way.
-/

namespace ThemeRender

structure Edited (edit : Path → String → String) (σ : Type) where
  store : σ

namespace Edited

variable {edit : Path → String → String} {σ : Type}

def lift (action : EStateM FileError σ Unit) : EStateM FileError (Edited edit σ) Unit :=
  fun edited => Outcome.mapState mk (action edited.store)

instance [Store σ] : Store (Edited edit σ) where
  isFile edited := Store.isFile edited.store
  isDir edited := Store.isDir edited.store
  isWritable edited := Store.isWritable edited.store
  modified edited := Store.modified edited.store
  read edited path := (Store.read edited.store path).map (edit path)
  write path contents := lift (Store.write path contents)
  createDirs path mode := lift (Store.createDirs path mode)
  setMode path mode := lift (Store.setMode path mode)

end Edited

def Workroom.edited {σ : Type} (edit : Path → String → String) (room : Workroom σ) :
    Workroom (Edited edit σ) :=
  ⟨⟨room.store⟩, room.compiled⟩

namespace Theme

open Outcome (Mirrors)

variable {σ α : Type} {edit : Path → String → String}

theorem ask_mirrors (path : Path) {question : σ → Except FileError α}
    {question' : Edited edit σ → Except FileError α}
    (same : ∀ store, question' ⟨store⟩ = question store) :
    Mirrors (Workroom.edited edit) (Workroom.ask path question)
      (Workroom.ask path question') := by
  intro room
  cases asked : question room.store with
  | ok answer =>
      rw [ask_ok asked]
      exact ask_ok ((same room.store).trans asked)
  | error error =>
      rw [ask_error asked]
      exact ask_error ((same room.store).trans asked)

theorem act_mirrors (path : Path) (action : EStateM FileError σ Unit) :
    Mirrors (Workroom.edited edit) (Workroom.act path action)
      (Workroom.act path (Edited.lift action)) := by
  intro room
  unfold Workroom.act Edited.lift Workroom.edited
  dsimp only
  cases action room.store with
  | ok _ after => rfl
  | error error after => rfl

theorem attempt_lift (action : EStateM FileError σ Unit) (store : σ) :
    attempt (Edited.lift action : EStateM FileError (Edited edit σ) Unit) ⟨store⟩ =
      ⟨attempt action store⟩ := by
  unfold attempt Edited.lift
  dsimp only
  cases action store with
  | ok _ after => rfl
  | error error after => rfl

variable [Store σ] (theme : Theme)

theorem prepareDir_edited (dir : Path) (store : σ) :
    theme.prepareDir dir (⟨store⟩ : Edited edit σ) = ⟨theme.prepareDir dir store⟩ := by
  have made : (if Store.isDir (⟨store⟩ : Edited edit σ) dir then (⟨store⟩ : Edited edit σ)
      else attempt (Store.createDirs dir theme.settings.dirMode) ⟨store⟩) =
      ⟨if Store.isDir store dir then store
        else attempt (Store.createDirs dir theme.settings.dirMode) store⟩ := by
    change (if Store.isDir store dir then (⟨store⟩ : Edited edit σ) else _) = _
    cases Store.isDir store dir with
    | true => rfl
    | false => exact attempt_lift _ store
  unfold prepareDir
  generalize (if Store.isDir store dir then store
    else attempt (Store.createDirs dir theme.settings.dirMode) store) = after at made ⊢
  dsimp only
  rw [made]
  change (if Store.isDir after dir && !Store.isWritable after dir then
    attempt (Edited.lift (Store.setMode dir theme.settings.dirMode)) ⟨after⟩ else ⟨after⟩) = _
  cases Store.isDir after dir && !Store.isWritable after dir with
  | true => exact attempt_lift _ after
  | false => rfl

theorem prepareDirs_edited (dirs : List Path) (store : σ) :
    dirs.foldl (fun store dir => theme.prepareDir dir store) (⟨store⟩ : Edited edit σ) =
      ⟨dirs.foldl (fun store dir => theme.prepareDir dir store) store⟩ := by
  induction dirs generalizing store with
  | nil => rfl
  | cons dir rest ih => rw [List.foldl_cons, List.foldl_cons, prepareDir_edited, ih]

theorem ensureWritable_mirrors (dir : Path) :
    Mirrors (Workroom.edited edit) (theme.ensureWritable (σ := σ) dir)
      (theme.ensureWritable dir) := by
  apply Mirrors.bind
  · apply Mirrors.modify
    intro room
    exact congrArg (Workroom.mk · room.compiled) (theme.prepareDirs_edited _ room.store)
  · intro _ room
    change (ite (Store.isDir room.store dir && Store.isWritable room.store dir) _ _ :
      EStateM RenderError (Workroom (Edited edit σ)) Unit) (room.edited edit) =
        Outcome.mapState _ ((ite (Store.isDir room.store dir && Store.isWritable room.store dir) _ _ :
          EStateM RenderError (Workroom σ) Unit) room)
    split
    · rfl
    · rfl

theorem isFresh_mirrors (source artifact : Path) :
    Mirrors (Workroom.edited edit) (isFresh (σ := σ) source artifact)
      (isFresh source artifact) := by
  intro room
  change (ite (Store.isFile room.store artifact) _ _ :
    EStateM RenderError (Workroom (Edited edit σ)) Bool) (room.edited edit) =
      Outcome.mapState _ ((ite (Store.isFile room.store artifact) _ _ :
        EStateM RenderError (Workroom σ) Bool) room)
  split
  · apply Mirrors.bind (ask_mirrors source fun _ => rfl)
    intro sourceTime
    apply Mirrors.bind (ask_mirrors artifact fun _ => rfl)
    intro artifactTime
    exact .pure _
  · rfl

theorem findFile_mirrors (name : String) :
    Mirrors (Workroom.edited edit) (theme.findFile (σ := σ) name) (theme.findFile name) := by
  intro room
  have same : TemplateFile.find? (room.edited edit).store theme.settings.viewsRoot name =
      TemplateFile.find? room.store theme.settings.viewsRoot name := rfl
  rw [findFile, findFile, Outcome.get_bind, Outcome.get_bind, same]
  cases TemplateFile.find? room.store theme.settings.viewsRoot name with
  | some file => rfl
  | none => rfl

variable {theme}

theorem readSource_mirrors {file : TemplateFile} (kept : ∀ text, edit file.path text = text) :
    Mirrors (Workroom.edited edit)
      (Workroom.ask file.path fun store : σ => Store.read store file.path)
      (Workroom.ask file.path (Store.read · file.path)) := by
  apply ask_mirrors
  intro store
  change (Store.read store file.path).map (edit file.path) = Store.read store file.path
  cases Store.read store file.path with
  | ok text => exact congrArg Except.ok (kept text)
  | error error => rfl

theorem compileSource_mirrors {file : TemplateFile} (kept : ∀ text, edit file.path text = text)
    (compiler : Compiler) (artifact : Path) :
    Mirrors (Workroom.edited edit)
      (do
        let source ← Workroom.ask file.path fun store : σ => Store.read store file.path
        modify fun room => { room with compiled := room.compiled ++ [file.path] }
        match compiler source file.path with
        | .error error => throw (.compile error)
        | .ok text => Workroom.act artifact (Store.write artifact text))
      (do
        let source ← Workroom.ask file.path (Store.read · file.path)
        modify fun room => { room with compiled := room.compiled ++ [file.path] }
        match compiler source file.path with
        | .error error => throw (.compile error)
        | .ok text => Workroom.act artifact (Store.write artifact text)) := by
  apply (readSource_mirrors kept).bind
  intro source
  refine Mirrors.bind (.modify ?_) ?_
  · intro room
    rfl
  · intro _
    split
    · exact .throw _
    · exact act_mirrors artifact _

theorem compileTo_mirrors {file : TemplateFile} (kept : ∀ text, edit file.path text = text)
    (artifact : Path) :
    Mirrors (Workroom.edited edit) (theme.compileTo (σ := σ) file artifact)
      (theme.compileTo file artifact) := by
  unfold compileTo
  split
  · exact .throw _
  · dsimp only
    split
    · exact (theme.ensureWritable_mirrors _).bind fun _ => compileSource_mirrors kept _ _
    · exact compileSource_mirrors kept _ _

theorem ensureCompiled_mirrors {file : TemplateFile}
    (kept : file.dialect.isCompiled = true → ∀ text, edit file.path text = text) :
    Mirrors (Workroom.edited edit) (theme.ensureCompiled (σ := σ) file)
      (theme.ensureCompiled file) := by
  unfold ensureCompiled
  cases compiled : file.dialect.isCompiled with
  | false => exact .pure _
  | true =>
      apply Mirrors.bind (isFresh_mirrors _ _)
      intro fresh
      cases fresh with
      | true => exact .pure _
      | false =>
          apply Mirrors.bind (compileTo_mirrors (kept compiled) _)
          intro _
          exact .pure _

end Theme

end ThemeRender
