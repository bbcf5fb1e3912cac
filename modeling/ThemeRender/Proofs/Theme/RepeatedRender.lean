import ThemeRender.Proofs.Theme.CacheHistory
import ThemeRender.Proofs.Theme.Vouching
/-!
Renders made again. Whatever a render has used is fresh after it, and stays as it is until sources
are edited, so the same render finds all of it and writes nothing.
-/

namespace ThemeRender

open Outcome (finalState finalState_ok bind_ok)

namespace Theme

variable {theme : Theme} {file : TemplateFile} {room : Workroom MemoryStore}

/-- Whether a store may have come of another one by renders. Artifacts that were fresh are the ones
that there were. -/
structure Later (theme : Theme) (before after : MemoryStore) : Prop where
  outside : ∀ path : Path, path.startsWith theme.settings.tempRoot = false →
    after.files.get? path = before.files.get? path
  clock : before.clock ≤ after.clock
  artifacts : ∀ file, theme.IsSource file → theme.Fresh before file →
    after.files.get? (theme.artifactPath file.path) =
      before.files.get? (theme.artifactPath file.path)

namespace Later

variable {first second third : MemoryStore}

theorem refl (store : MemoryStore) : theme.Later store store :=
  ⟨fun _ _ => rfl, Nat.le_refl _, fun _ _ _ => rfl⟩

theorem fresh (later : theme.Later first second) (separate : theme.Separate)
    (isSource : theme.IsSource file) (fresh : theme.Fresh first file) : theme.Fresh second file :=
  (Fresh.congr (later.outside file.path (isSource.outside separate))
    (later.artifacts file isSource fresh)).mpr fresh

theorem trans (separate : theme.Separate) (before : theme.Later first second)
    (after : theme.Later second third) : theme.Later first third where
  outside path outside := (after.outside path outside).trans (before.outside path outside)
  clock := Nat.le_trans before.clock after.clock
  artifacts file isSource fresh :=
    (after.artifacts file isSource (before.fresh separate isSource fresh)).trans
      (before.artifacts file isSource fresh)

theorem dated (later : theme.Later first second) {path : Path}
    (outside : path.startsWith theme.settings.tempRoot = false) (dated : first.Dated path) :
    second.Dated path := by
  intro file kept
  rw [later.outside path outside] at kept
  exact Nat.le_trans (dated file kept) later.clock

end Later

theorem ensureCompiled_later (separate : theme.Separate) (isSource : theme.IsSource file)
    (room : Workroom MemoryStore) :
    theme.Later room.store (finalState (theme.ensureCompiled file) room).store := by
  have views := fun path => @ensureCompiled_outside theme file separate isSource room path
  have frame := fun path => @ensureCompiled_frame theme file isSource.compiled room path
  have outcome := theme.ensureCompiled_outcome file isSource.compiled room
  refine ⟨views, ?_, ?_⟩
  · unfold finalState
    cases result : theme.ensureCompiled file room with
    | error error after =>
        rw [result] at outcome
        cases outcome with
        | failed kept => exact Nat.le_of_eq kept.clock.symm
    | ok path after =>
        rw [result] at outcome
        cases outcome with
        | fresh => exact Nat.le_refl _
        | compiled written stale registered compiles files clock =>
            dsimp only
            omega
  · intro other isOther fresh
    by_cases place : other.path.components = file.path.components
    · rw [Fresh.of_same_place isSource isOther separate place] at fresh
      rw [finalState_ok (ensureCompiled_of_fresh isSource.compiled fresh)]
    · apply frame
      exact fun same => place ((isOther.artifact_congr_iff isSource separate).mp same)

theorem fresh_of_ensureCompiled (separate : theme.Separate) (isSource : theme.IsSource file)
    (dated : room.store.Dated file.path) {path : Path} {after : Workroom MemoryStore}
    (succeeds : theme.ensureCompiled file room = .ok path after) :
    theme.Fresh after.store file := by
  have sourceKept := ensureCompiled_frame isSource.compiled room
    (isSource.ne_artifact isSource separate)
  have outcome := theme.ensureCompiled_outcome file isSource.compiled room
  rw [finalState_ok succeeds] at sourceKept
  rw [succeeds] at outcome
  cases outcome with
  | fresh written kept fresh => exact ⟨_, _, written, kept, fresh⟩
  | @compiled source _ text _ written _ _ _ files =>
      have kept : after.store.files.get? (theme.artifactPath file.path) =
          some ⟨text, room.store.clock + 1⟩ := by
        rw [files, PathMap.get?_insert, if_pos rfl]
      exact ⟨source, _, sourceKept.trans written, kept, Nat.le_succ_of_le (dated source written)⟩

theorem read_congr {first second : MemoryStore} {path : Path}
    (same : first.files.get? path = second.files.get? path) :
    Store.read first path = Store.read second path := by
  simp only [Store.read, MemoryStore.contents?, same]

/-! Templates fetched again -/

variable {name : String}

theorem fetch_later (separate : theme.Separate) (relative : RelativeName name)
    (room : Workroom MemoryStore) :
    theme.Later room.store (finalState (theme.fetch name) room).store := by
  rw [finalState_fetch]
  cases found : TemplateFile.find? room.store theme.settings.viewsRoot name with
  | none => exact .refl room.store
  | some file =>
      obtain ⟨candidate, -, spelled⟩ := TemplateFile.of_find? found
      cases compiled : file.dialect.isCompiled with
      | false =>
          dsimp only
          rw [finalState_ok (ensureCompiled_of_native compiled room)]
          exact .refl room.store
      | true =>
          have inside := TemplateFile.candidates_inside separate.nonempty.1 relative candidate
          exact ensureCompiled_later separate ⟨spelled, compiled, inside⟩ room

theorem fetch_again (separate : theme.Separate) (relative : RelativeName name)
    (dated : ∀ path : Path, path.startsWith theme.settings.tempRoot = false →
      room.store.Dated path)
    {found : Path × String × List Template.Node} {after : Workroom MemoryStore}
    (fetches : theme.fetch name room = .ok found after) {next : Workroom MemoryStore}
    (later : theme.Later after.store next.store) : theme.fetch name next = .ok found next := by
  have moved := fetch_later separate relative room
  rw [finalState_ok fetches] at moved
  obtain ⟨path, source, nodes⟩ := found
  obtain ⟨file, finds, compiles, reads, parses⟩ := fetch_ok_iff.mp fetches
  have finds' := (find?_of_outside separate relative (moved.trans separate later).outside).trans
    finds
  obtain ⟨candidate, -, spelled⟩ := TemplateFile.of_find? finds
  have inside := TemplateFile.candidates_inside separate.nonempty.1 relative candidate
  have outside := separate.not_both inside.startsWith
  refine fetch_ok_iff.mpr ⟨file, finds', ?_⟩
  cases compiled : file.dialect.isCompiled with
  | false =>
      rw [ensureCompiled_of_native compiled room] at compiles
      cases compiles
      rw [← read_congr (later.outside file.path outside)] at reads
      exact ⟨ensureCompiled_of_native compiled next, reads, parses⟩
  | true =>
      have isSource : theme.IsSource file := ⟨spelled, compiled, inside⟩
      have fresh := fresh_of_ensureCompiled separate isSource (dated _ outside) compiles
      cases executable_of_ensureCompiled compiled compiles
      rw [← read_congr (later.artifacts file isSource fresh)] at reads
      exact ⟨ensureCompiled_of_fresh compiled (later.fresh separate isSource fresh), reads, parses⟩

/-! Renders made again -/

/-- Where no source is from the future, a computation leaves a later store, and if it succeeds, then
in all stores later than that one it does the same and leaves them as they are. -/
def Repeats {α : Type} (theme : Theme) (action : Rendering MemoryStore α)
    (stage : Stage (Workroom MemoryStore)) : Prop :=
  (∀ path : Path, path.startsWith theme.settings.tempRoot = false →
      stage.state.store.Dated path) →
    theme.Later stage.state.store (finalState action stage).state.store ∧
    ∀ a after, action stage = .ok a after → ∀ room : Workroom MemoryStore,
      theme.Later after.state.store room.store →
        action ⟨stage.frames, room⟩ = .ok a ⟨after.frames, room⟩

theorem repeats_inherited (separate : theme.Separate) :
    Inherited fun action stage => theme.Repeats action stage := by
  have assured : Assured
      (fun room : Workroom MemoryStore => ∀ path : Path,
        path.startsWith theme.settings.tempRoot = false → room.store.Dated path)
      (fun before after => theme.Later before.store after.store)
      (fun action before a after => ∀ room : Workroom MemoryStore,
        theme.Later after.state.store room.store →
          action ⟨before, room⟩ = .ok a ⟨after.frames, room⟩) := {
    refl := fun _ => .refl _
    trans := .trans separate
    starts := fun dated moved path outside => moved.dated outside (dated path outside)
    same := fun runs _ room _ => runs room
    bind := fun again moved nextAgain room later =>
      (bind_ok (again room (moved.trans separate later))).trans (nextAgain room later)
    capture := fun again room later =>
      Staged.capture_ok_iff.mpr ⟨_, again room later, rfl, rfl⟩ }
  exact assured.inherited

theorem fetch_repeats (separate : theme.Separate) (relative : RelativeName name)
    (stage : Stage (Workroom MemoryStore)) :
    theme.Repeats (Staged.onState (theme.fetch name)) stage := by
  intro dated
  rw [Staged.finalState_onState]
  refine ⟨fetch_later separate relative stage.state, fun found after runs room later => ?_⟩
  obtain ⟨state, fetches, rfl⟩ := Staged.onState_ok_iff.mp runs
  have again := fetch_again separate relative dated fetches later
  exact Staged.onState_ok_iff.mpr ⟨room, again, rfl⟩

end Theme

namespace PageCall

variable {theme : Theme} {room : Workroom MemoryStore} {call : PageCall}

/-- A page that was delivered is delivered again, from the room that the first time left, with the
same bytes, without a compiler and with nothing in the store changed. -/
theorem delivered_again_for_free (separate : theme.Separate) (errorPage : ErrorPage) (sink : Sink)
    (dated : ∀ path, room.store.Dated path)
    (relative : ∀ name ∈ call.entered theme room, RelativeName name)
    (delivered : (call.deliver theme errorPage sink room).result = .ok ()) :
    call.deliver theme errorPage sink (call.deliver theme errorPage sink room).room =
      call.deliver theme errorPage sink room := by
  have repeats := rendering_inherits (Theme.repeats_inherited separate)
    (fun _ relative => Theme.fetch_repeats separate relative) relative
  obtain ⟨-, again⟩ := repeats fun path _ => dated path
  simp only [deliver_eq] at delivered ⊢
  unfold Theme.deliverPage at *
  cases result : call.rendering theme ⟨.empty, room⟩ with
  | error error after =>
      rw [result] at delivered
      cases delivered
  | ok _ after =>
      dsimp only
      rw [again () after result after.state (.refl _)]

theorem site_dated (path : Path) : site.Dated path := by
  apply @Theme.runAll_dated Theme.standard .empty
    [.addFile (.ofString "./views/layouts/default.html.haml") "%body\n  - yield()",
      .addFile (.ofString "./views/index.haml") "%p= title"]
  · intro step member
    simp only [List.mem_cons, List.not_mem_nil, or_false] at member
    rcases member with rfl | rfl
    · change Path.startsWith _ _ = false
      decide +kernel
    · change Path.startsWith _ _ = false
      decide +kernel
  · exact .of_absent rfl

theorem site_delivered_again_for_free :
    let call : PageCall := .view "index" (.withLayout "default")
    let first := call.deliver Theme.standard htmlErrorPage .unlimited (.ofStore site)
    first.result = .ok () ∧ first.room.compiled ≠ [] ∧
      call.deliver Theme.standard htmlErrorPage .unlimited first.room = first := by
  intro call first
  have delivered : first.result = .ok () := by
    have succeeds : (match first.result with
        | .ok _ => true
        | .error _ => false) = true := by decide +kernel
    cases result : first.result with
    | ok => rfl
    | error error =>
        rw [result] at succeeds
        cases succeeds
  have relative : ∀ name ∈ call.entered Theme.standard (.ofStore site), RelativeName name := by
    decide +kernel
  refine ⟨delivered, by decide +kernel, ?_⟩
  exact delivered_again_for_free Theme.standard_separate htmlErrorPage .unlimited site_dated
    relative delivered

end PageCall

end ThemeRender
