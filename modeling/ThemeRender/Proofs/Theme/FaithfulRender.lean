import ThemeRender.Proofs.Theme.CacheHistory
import ThemeRender.Proofs.Theme.Vouching
/-!
Renders over stores that differ in artifacts only. What was compiled before or in between has no
influence on what a render writes, as long as the artifacts are coherent.
-/

namespace ThemeRender.Theme

open Outcome (finalState finalState_ok bind_ok bind_ok_iff)

variable {theme : Theme} {origin : MemoryStore} {file : TemplateFile} {name : String}
  {room after : Workroom MemoryStore}

theorem contents?_eq_some {store : MemoryStore} {path : Path} {contents : String}
    (kept : store.contents? path = some contents) :
    ∃ file, store.files.get? path = some file ∧ file.contents = contents :=
  Option.map_eq_some_iff.mp kept

theorem Faithful.fetch (separate : theme.Separate) (blind : theme.compilers.SpellingBlind)
    (relative : RelativeName name) (faithful : theme.Faithful origin room.store) :
    theme.Faithful origin (finalState (theme.fetch name) room).store := by
  rw [finalState_fetch]
  cases found : TemplateFile.find? room.store theme.settings.viewsRoot name with
  | none => exact faithful
  | some file =>
      obtain ⟨candidate, -, spelled⟩ := TemplateFile.of_find? found
      dsimp only
      cases compiled : file.dialect.isCompiled with
      | false =>
          rw [finalState_ok (ensureCompiled_of_native compiled room)]
          exact faithful
      | true =>
          have inside := TemplateFile.candidates_inside separate.nonempty.1 relative candidate
          exact faithful.ensureCompiled separate blind ⟨spelled, compiled, inside⟩

theorem executable_of_compiled (separate : theme.Separate) (blind : theme.compilers.SpellingBlind)
    (faithful : theme.Faithful origin room.store) (isSource : theme.IsSource file) {path : Path}
    (succeeds : theme.ensureCompiled file room = .ok path after) {source : String}
    (reads : Store.read after.store path = .ok source) :
    theme.executable origin file = .ok (path, source) := by
  have faithful' := faithful.ensureCompiled separate blind isSource
  rw [finalState_ok succeeds] at faithful'
  obtain ⟨contents, compiler, text, original, registered, compiles, kept⟩ :=
    holdsCompiled_of_succeeds separate isSource (faithful.coherent file isSource) succeeds
  obtain ⟨written, there, rfl⟩ := contents?_eq_some original
  rw [faithful'.views file.path (isSource.outside separate)] at there
  rw [executable_of_source isSource.compiled there, registered]
  simp only [Store.read, kept] at reads
  cases reads
  dsimp only
  rw [compiles, executable_of_ensureCompiled isSource.compiled succeeds]

theorem template_of_fetch (separate : theme.Separate) (blind : theme.compilers.SpellingBlind)
    (relative : RelativeName name) (faithful : theme.Faithful origin room.store)
    {found : Path × String × List Template.Node}
    (fetches : theme.fetch name room = .ok found after) :
    theme.template origin name = .ok found := by
  obtain ⟨path, source, nodes⟩ := found
  obtain ⟨file, finds, compiles, reads, parses⟩ := fetch_ok_iff.mp fetches
  obtain ⟨candidate, -, spelled⟩ := TemplateFile.of_find? finds
  have inside := TemplateFile.candidates_inside separate.nonempty.1 relative candidate
  rw [find?_of_outside separate relative faithful.views] at finds
  have runs : theme.executable origin file = .ok (path, source) := by
    cases compiled : file.dialect.isCompiled with
    | true =>
        exact executable_of_compiled separate blind faithful ⟨spelled, compiled, inside⟩ compiles
          reads
    | false =>
        rw [ensureCompiled_of_native compiled room] at compiles
        cases compiles
        have original := faithful.views file.path (separate.not_both inside.startsWith)
        simp only [Store.read, MemoryStore.contents?, original] at reads
        unfold executable readFile
        simp only [compiled, Store.read, MemoryStore.contents?, reads]
        rfl
  simp only [template, finds, runs, parses]

/-! Whole renders -/

/-- Whether a computation that succeeded with a result and with frames never succeeds otherwise in
stores that differ in coherent artifacts only, and does succeed in those that artifacts can be kept
in. -/
structure Repeatable {α : Type} (theme : Theme) (origin : MemoryStore)
    (action : Rendering MemoryStore α) (before : Frames) (a : α) (after : Frames) : Prop where
  alike : ∀ (other : Workroom MemoryStore) b last, theme.Faithful origin other.store →
    action ⟨before, other⟩ = .ok b last →
      theme.Faithful origin last.state.store ∧ b = a ∧ last.frames = after
  succeeds : theme.settings.dirMode.allowsOwnerWrite = true →
    ∀ other : Workroom MemoryStore, theme.Reflects origin other.store →
      ∃ last : Workroom MemoryStore, theme.Reflects origin last.store ∧
        action ⟨before, other⟩ = .ok a ⟨after, last⟩

namespace Repeatable

variable {α β : Type} {before middle last : Frames}

theorem of_same {action : Rendering MemoryStore α} {a : α}
    (same : ∀ room, action ⟨before, room⟩ = .ok a ⟨last, room⟩) :
    theme.Repeatable origin action before a last where
  alike other b ends faithful runs := by
    rw [same] at runs
    cases runs
    exact ⟨faithful, rfl, rfl⟩
  succeeds _ other reflects := ⟨other, reflects, same other⟩

theorem bind {first : Rendering MemoryStore α} {next : α → Rendering MemoryStore β} {a : α} {b : β}
    (repeatable : theme.Repeatable origin first before a middle)
    (nextRepeatable : theme.Repeatable origin (next a) middle b last) :
    theme.Repeatable origin (first >>= next) before b last where
  alike other b' ends faithful runs := by
    obtain ⟨a', halfway, first', next'⟩ := bind_ok_iff.mp runs
    obtain ⟨faithful', rfl, rfl⟩ := repeatable.alike other a' halfway faithful first'
    exact nextRepeatable.alike halfway.state b' ends faithful' next'
  succeeds allows other reflects := by
    obtain ⟨halfway, reflects', first'⟩ := repeatable.succeeds allows other reflects
    obtain ⟨ends, reflects'', next'⟩ := nextRepeatable.succeeds allows halfway reflects'
    exact ⟨ends, reflects'', (bind_ok first').trans next'⟩

theorem capture {body : Rendering MemoryStore Unit}
    (repeatable : theme.Repeatable origin body before.push () last) :
    theme.Repeatable origin (Staged.capture body) before last.top last.pop where
  alike other b ends faithful captured := by
    obtain ⟨after, runs, rfl, rfl⟩ := Staged.capture_ok_iff.mp captured
    obtain ⟨faithful', -, rfl⟩ := repeatable.alike other () after faithful runs
    exact ⟨faithful', rfl, rfl⟩
  succeeds allows other reflects := by
    obtain ⟨ends, reflects', runs⟩ := repeatable.succeeds allows other reflects
    exact ⟨ends, reflects', Staged.capture_ok_iff.mpr ⟨_, runs, rfl, rfl⟩⟩

theorem onFrames {action : Rendering MemoryStore Unit} (appends : Staged.Appends action)
    {text : String} (repeatable : theme.Repeatable origin action before () (before.write text))
    (others : Frames) : theme.Repeatable origin action others () (others.write text) where
  alike other _ ends faithful runs := by
    obtain ⟨written, frames, runsOn⟩ := appends.ok_on runs
    obtain ⟨faithful', -, same⟩ := repeatable.alike other () _ faithful (runsOn before)
    rw [frames, Frames.write_right_inj.mp same]
    exact ⟨faithful', rfl, rfl⟩
  succeeds allows other reflects := by
    obtain ⟨last, reflects', runs⟩ := repeatable.succeeds allows other reflects
    obtain ⟨written, same, runsOn⟩ := appends.ok_on runs
    rw [Frames.write_right_inj.mp same]
    exact ⟨last, reflects', runsOn others⟩

end Repeatable

/-- Where artifacts are coherent they still are after a computation, and what it succeeds with is
repeatable. -/
def Determined {α : Type} (theme : Theme) (origin : MemoryStore)
    (action : Rendering MemoryStore α) (stage : Stage (Workroom MemoryStore)) : Prop :=
  theme.Faithful origin stage.state.store →
    theme.Faithful origin (finalState action stage).state.store ∧
    ∀ a after, action stage = .ok a after →
      theme.Repeatable origin action stage.frames a after.frames

theorem determined_inherited (theme : Theme) (origin : MemoryStore) :
    Inherited fun action stage => theme.Determined origin action stage := by
  have assured : Assured (fun room : Workroom MemoryStore => theme.Faithful origin room.store)
      (fun _ after => theme.Faithful origin after.store)
      (fun action before a after => theme.Repeatable origin action before a after.frames) := {
    refl := fun faithful => faithful
    trans := fun _ faithful => faithful
    starts := fun _ faithful => faithful
    same := fun runs _ => .of_same runs
    bind := fun repeatable _ nextRepeatable => repeatable.bind nextRepeatable
    capture := .capture }
  exact assured.inherited

theorem fetch_determined (separate : theme.Separate) (blind : theme.compilers.SpellingBlind)
    (relative : RelativeName name) (stage : Stage (Workroom MemoryStore)) :
    theme.Determined origin (Staged.onState (theme.fetch name)) stage := by
  intro faithful
  rw [Staged.finalState_onState]
  refine ⟨faithful.fetch separate blind relative, fun found after runs => ?_⟩
  obtain ⟨state, fetches, rfl⟩ := Staged.onState_ok_iff.mp runs
  have settled := template_of_fetch separate blind relative faithful fetches
  constructor
  · intro other found' last faithful' runs'
    obtain ⟨state', fetches', rfl⟩ := Staged.onState_ok_iff.mp runs'
    have kept := faithful'.fetch separate blind relative
    rw [finalState_ok fetches'] at kept
    have settled' := template_of_fetch separate blind relative faithful' fetches'
    exact ⟨kept, Except.ok.inj (settled'.symm.trans settled), rfl⟩
  · intro allows other reflects
    obtain ⟨last, reflects', fetches'⟩ := fetch_follows separate blind allows relative reflects
    rw [settled] at fetches'
    exact ⟨last, reflects', Staged.onState_ok_iff.mpr ⟨last, fetches', rfl⟩⟩

end ThemeRender.Theme
