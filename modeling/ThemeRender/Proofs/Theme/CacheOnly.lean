import ThemeRender.Proofs.Store.MemoryHistory
import ThemeRender.Proofs.Theme.Vouching

namespace ThemeRender

open Outcome (finalState finalState_ok finalState_bind_trans)
open MemoryStore (Confined)

namespace Theme

variable {theme : Theme}

theorem keptAmong_confined (root : Path) :
    KeptAmong (·.startsWith root = true) (Confined root) where
  refl := .refl root
  trans := .trans
  createDirs _ mode _ below := .createDirs below mode
  setMode _ mode _ below := .setMode below mode

def WritesBelow {α : Type} (root : Path)
    (action : EStateM RenderError (Workroom MemoryStore) α) : Prop :=
  ∀ room, Confined root room.store (finalState action room).store

namespace WritesBelow

variable {α β : Type} {root : Path}

theorem of_unchanged {action : EStateM RenderError (Workroom MemoryStore) α}
    (same : ∀ room, finalState action room = room) : WritesBelow root action := by
  intro room
  rw [same]
  exact .refl root room.store

theorem pure (a : α) : WritesBelow root (pure a) :=
  of_unchanged fun _ => rfl

theorem bind {first : EStateM RenderError (Workroom MemoryStore) α}
    {next : α → EStateM RenderError (Workroom MemoryStore) β} (stays : WritesBelow root first)
    (nextStays : ∀ a, WritesBelow root (next a)) : WritesBelow root (first >>= next) := fun room =>
  @finalState_bind_trans _ _ _ _ first next room
    (fun before after => Confined root before.store after.store) .trans (stays room)
    fun a after _ => nextStays a after

theorem ensureWritable {dir : Path} (below : dir.startsWith theme.settings.tempRoot = true) :
    WritesBelow theme.settings.tempRoot (theme.ensureWritable dir) := by
  intro room
  have prepared := (keptAmong_confined theme.settings.tempRoot).prepareDirs theme
    (levels_below below) room.store
  unfold finalState
  rw [ensureWritable_apply]
  cases Store.isDir (theme.prepared dir room.store) dir &&
      Store.isWritable (theme.prepared dir room.store) dir with
  | true => exact prepared
  | false => exact prepared

theorem act {artifact : Path} (below : artifact.startsWith root = true) (text : String) :
    WritesBelow root (Workroom.act artifact (Store.write artifact text)) := by
  intro room
  have written : Confined root room.store (finalState (Store.write artifact text) room.store) :=
    .writeFile below text
  unfold finalState Workroom.act at *
  cases result : Store.write artifact text room.store with
  | ok _ after =>
      rw [result] at written
      exact written
  | error error after =>
      rw [result] at written
      exact written

theorem compileInto {artifact : Path} (below : artifact.startsWith root = true)
    (compiler : Compiler) (file : TemplateFile) :
    WritesBelow root (compileInto compiler file artifact) := by
  intro room
  have wrote (text : String) := act below text (called file room)
  unfold finalState at *
  rw [compileInto_apply]
  cases room.store.files.get? file.path with
  | none => exact .refl root room.store
  | some source =>
      dsimp only
      cases compiler source.contents file.path with
      | error error => exact .refl root room.store
      | ok text => exact wrote text

theorem isFresh (source artifact : Path) : WritesBelow root (isFresh source artifact) := by
  apply of_unchanged
  intro room
  unfold finalState
  rw [isFresh_apply]
  cases room.store.files.get? artifact with
  | none => rfl
  | some compiled =>
      cases room.store.files.get? source with
      | none => rfl
      | some written => rfl

section

variable {file : TemplateFile} (views : theme.settings.viewsRoot.components ≠ [])
  (spelled : Dialect.ofPath? file.path = some file.dialect)

include views spelled

theorem compileTo (compiled : file.dialect.isCompiled = true) :
    WritesBelow theme.settings.tempRoot (theme.compileTo file (theme.artifactPath file.path)) := by
  have below : (theme.artifactPath file.path).startsWith theme.settings.tempRoot = true :=
    artifactPath_startsWith views spelled compiled
  obtain ⟨dir, above, dirBelow⟩ := @parent?_artifactPath _ theme.settings.tempRoot _ _
    views spelled compiled
  have above' : (theme.artifactPath file.path).parent? = some dir := above
  unfold Theme.compileTo
  cases theme.compilers.compiler? file.dialect with
  | none => exact of_unchanged fun _ => rfl
  | some compiler =>
      simp only [above']
      exact (ensureWritable dirBelow).bind fun _ => compileInto below compiler file

theorem ensureCompiled : WritesBelow theme.settings.tempRoot (theme.ensureCompiled file) := by
  cases compiled : file.dialect.isCompiled with
  | false =>
      apply of_unchanged
      intro room
      exact finalState_ok (ensureCompiled_of_native compiled room)
  | true =>
      unfold Theme.ensureCompiled
      simp only [compiled, Bool.not_true, Bool.false_eq_true, if_false]
      apply (isFresh _ _).bind
      intro fresh
      cases fresh with
      | true => exact pure _
      | false => exact (compileTo views spelled compiled).bind fun _ => pure _

end

theorem fetch (views : theme.settings.viewsRoot.components ≠ []) (name : String) :
    WritesBelow theme.settings.tempRoot (theme.fetch name) := by
  intro room
  rw [finalState_fetch]
  cases found : TemplateFile.find? room.store theme.settings.viewsRoot name with
  | none => exact .refl _ room.store
  | some file => exact ensureCompiled views (TemplateFile.of_find? found).2.2 room

end WritesBelow

theorem WritesBelow.onState {α : Type} {root : Path}
    {action : EStateM RenderError (Workroom MemoryStore) α} (stays : WritesBelow root action)
    (stage : Stage (Workroom MemoryStore)) :
    Confined root stage.state.store (finalState (Staged.onState action) stage).state.store := by
  rw [Staged.finalState_onState]
  exact stays stage.state

/-- Rendering a template, a view or a fragment, whether that succeeds or not and whatever names the
templates call each other by, leaves all files outside the temp root as they are, removes no file,
and makes no directories outside the temp root but those that lead to it. -/
theorem rendering_stays_below_temp_root (theme : Theme)
    (views : theme.settings.viewsRoot.isEmpty = false) (room : Workroom MemoryStore) :
    (∀ view? name locals frames, Confined theme.settings.tempRoot room.store
      (finalState (theme.renderTemplate view? name locals) ⟨frames, room⟩).state.store) ∧
    (∀ errorPage (call : PageCall) sink, Confined theme.settings.tempRoot room.store
      (call.deliver theme errorPage sink room).room.store) := by
  have spelled : theme.settings.viewsRoot.components ≠ [] := by
    intro empty
    rw [(Path.isEmpty_iff _).mpr empty] at views
    cases views
  have inherited := @inherited_finalState (Workroom MemoryStore)
    (fun before after => Confined theme.settings.tempRoot before.store after.store)
    (fun room => .refl _ room.store) .trans
  have fetches (name : String) := (WritesBelow.fetch spelled name).onState
  constructor
  · intro view? name locals frames
    exact renderNested_inherits inherited fetches view? _ name locals ⟨frames, room⟩
  · intro errorPage call sink
    rw [PageCall.room_deliver]
    apply @PageCall.rendering_inherits _ _ theme (fun _ => True) _ inherited
    · exact fun name _ => fetches name
    · exact fun _ _ => trivial

def motdSite : MemoryStore :=
  MemoryStore.empty.addFile (.ofString "/etc/_motd.haml") "%p hello"

theorem motd_stays_below_temp_root :
    let page := (PageCall.fragment "/etc/motd" .empty).deliver standard htmlErrorPage .unlimited
      (.ofStore motdSite)
    standard.settings.viewsRoot.isEmpty = false ∧
      Confined standard.settings.tempRoot motdSite page.room.store ∧
      page.room.store.files.contains
        (standard.artifactPath (.ofString "/etc/_motd.haml")) = true := by
  intro page
  have views : standard.settings.viewsRoot.isEmpty = false := by decide +kernel
  refine ⟨views, ?_, by decide +kernel⟩
  exact (rendering_stays_below_temp_root standard views (.ofStore motdSite)).2 htmlErrorPage
    (.fragment "/etc/motd" .empty) .unlimited

end Theme

end ThemeRender
