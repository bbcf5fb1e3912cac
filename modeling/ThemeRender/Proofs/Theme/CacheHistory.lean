import ThemeRender.Proofs.Theme.Coherence

namespace ThemeRender

open Outcome (finalState)

inductive CacheStep where
  | addFile (path : Path) (contents : String)
  | touch (path : Path)
  | setUmask (umask : Mode)
  | lock (path : Path)
  | compile (file : TemplateFile)

namespace CacheStep

def Allowed (theme : Theme) : CacheStep → Prop
  | .addFile path _ | .touch path => path.startsWith theme.settings.tempRoot = false
  | .setUmask _ | .lock _ => True
  | .compile file => theme.IsSource file

def Edits (path : Path) : CacheStep → Prop
  | .addFile other _ | .touch other => path.components = other.components
  | .setUmask _ | .lock _ | .compile _ => False

def run (theme : Theme) (store : MemoryStore) : CacheStep → MemoryStore
  | .addFile path contents => store.addFile path contents
  | .touch path => store.touch path
  | .setUmask umask => store.setUmask umask
  | .lock path => store.lock path
  | .compile file => (finalState (theme.ensureCompiled file) (.ofStore store)).store

def runAll (theme : Theme) (steps : List CacheStep) (store : MemoryStore) : MemoryStore :=
  steps.foldl (run theme) store

end CacheStep

namespace MemoryStore

/-- Whether a file, if it is there, was written at a time that has come. -/
def Dated (store : MemoryStore) (path : Path) : Prop :=
  ∀ file, store.files.get? path = some file → file.modified ≤ store.clock

theorem Dated.of_absent {store : MemoryStore} {path : Path}
    (absent : store.files.get? path = none) : store.Dated path := by
  intro file kept
  rw [absent] at kept
  cases kept

theorem dated_congr {store : MemoryStore} {path other : Path}
    (same : path.components = other.components) : store.Dated path ↔ store.Dated other := by
  unfold Dated
  rw [PathMap.get?_congr store.files same]

end MemoryStore

namespace Theme

variable {theme : Theme} {store : MemoryStore} {file other : TemplateFile} {step : CacheStep}

def Compiles (theme : Theme) (store : MemoryStore) (file : TemplateFile) : Prop :=
  ∃ artifact room, theme.ensureCompiled file (.ofStore store) = .ok artifact room

/-! One step -/

theorem run_dated (allowed : step.Allowed theme) {path : Path} (dated : store.Dated path) :
    (step.run theme store).Dated path := by
  cases step with
  | addFile other contents =>
      intro file kept
      have clock := MemoryStore.clock_addFile store other contents
      simp only [CacheStep.run] at kept ⊢
      rw [MemoryStore.get?_addFile] at kept
      rw [clock]
      split at kept
      · cases kept
        exact Nat.le_refl _
      · exact Nat.le_succ_of_le (dated file kept)
  | touch other =>
      intro file kept
      change file.modified ≤ store.clock + 1
      simp only [CacheStep.run] at kept
      rw [MemoryStore.get?_touch] at kept
      split at kept
      · obtain ⟨before, _, rfl⟩ := Option.map_eq_some_iff.mp kept
        exact Nat.le_refl _
      · exact Nat.le_succ_of_le (dated file kept)
  | setUmask => exact dated
  | lock => exact dated
  | compile other =>
      have outcome := theme.ensureCompiled_outcome other allowed.compiled (.ofStore store)
      simp only [CacheStep.run]
      unfold finalState
      generalize theme.ensureCompiled other (.ofStore store) = result at outcome
      cases outcome with
      | fresh => exact dated
      | compiled written stale registered compiles files clock =>
          intro file kept
          dsimp only at kept ⊢
          rw [files, PathMap.get?_insert] at kept
          rw [clock]
          split at kept
          · cases kept
            exact Nat.le_refl _
          · exact Nat.le_succ_of_le (dated file kept)
      | failed kept =>
          intro file found
          dsimp only at found ⊢
          rw [kept.files] at found
          rw [kept.clock]
          exact dated file found

theorem run_frame (allowed : step.Allowed theme) {path : Path} (unedited : ¬ step.Edits path)
    (notArtifact : ∀ other, step = .compile other →
      path.components ≠ (theme.artifactPath other.path).components) :
    (step.run theme store).files.get? path = store.files.get? path := by
  cases step with
  | addFile other contents =>
      have different : path.components ≠ other.components := unedited
      simp only [CacheStep.run]
      rw [MemoryStore.get?_addFile, if_neg different]
  | touch other =>
      have different : path.components ≠ other.components := unedited
      simp only [CacheStep.run]
      rw [MemoryStore.get?_touch, if_neg different]
  | setUmask => rfl
  | lock => rfl
  | compile other => exact ensureCompiled_frame (IsSource.compiled allowed) (.ofStore store) (notArtifact other rfl)

theorem run_edited {path : Path} (edits : step.Edits path) {written : MemoryFile}
    (kept : (step.run theme store).files.get? path = some written) :
    written.modified = store.clock + 1 := by
  cases step with
  | addFile other contents =>
      have same : path.components = other.components := edits
      simp only [CacheStep.run] at kept
      rw [MemoryStore.get?_addFile, if_pos same] at kept
      cases kept
      rfl
  | touch other =>
      have same : path.components = other.components := edits
      simp only [CacheStep.run] at kept
      rw [MemoryStore.get?_touch, if_pos same] at kept
      obtain ⟨before, _, rfl⟩ := Option.map_eq_some_iff.mp kept
      rfl
  | setUmask => exact edits.elim
  | lock => exact edits.elim
  | compile => exact edits.elim

theorem unedited_artifact (separate : theme.Separate) (isSource : theme.IsSource file)
    (allowed : step.Allowed theme) : ¬ step.Edits (theme.artifactPath file.path) := by
  have below := isSource.artifact_below separate
  have apart : ∀ path : Path, path.startsWith theme.settings.tempRoot = false →
      (theme.artifactPath file.path).components ≠ path.components := by
    intro path outside same
    unfold Path.startsWith at below outside
    rw [same, outside] at below
    cases below
  cases step with
  | addFile path => exact apart path allowed
  | touch path => exact apart path allowed
  | setUmask => exact id
  | lock => exact id
  | compile => exact id

theorem not_fresh_of_edits (separate : theme.Separate) (isSource : theme.IsSource file)
    (allowed : step.Allowed theme) (edits : step.Edits file.path)
    (dated : store.Dated (theme.artifactPath file.path)) :
    ¬ theme.Fresh (step.run theme store) file := by
  rintro ⟨source, artifact, written, kept, fresh⟩
  have now := run_edited edits written
  rw [run_frame allowed (unedited_artifact separate isSource allowed)] at kept
  · have before := dated artifact kept
    omega
  · intro other compiles
    rw [compiles] at edits
    exact edits.elim

theorem run_coherent (separate : theme.Separate) (blind : theme.compilers.SpellingBlind)
    (isSource : theme.IsSource file) (allowed : step.Allowed theme)
    (dated : store.Dated (theme.artifactPath file.path)) (coherent : theme.Coherent store file) :
    theme.Coherent (step.run theme store) file := by
  by_cases edits : step.Edits file.path
  · intro source artifact written kept fresh
    exact absurd ⟨source, artifact, written, kept, fresh⟩
      (not_fresh_of_edits separate isSource allowed edits dated)
  · cases step with
    | compile other =>
        have before : theme.Coherent (Workroom.ofStore store).store file := coherent
        exact Coherent.ensureCompiled separate blind isSource allowed before
    | _ =>
        unfold Coherent
        rw [run_frame allowed edits nofun,
          run_frame allowed (unedited_artifact separate isSource allowed) nofun]
        exact coherent

/-- Whether a step is a successful call for a source, which is not dated later than it. -/
def Refreshes (theme : Theme) (store : MemoryStore) (file : TemplateFile) (step : CacheStep) :
    Prop :=
  ∃ other, step = .compile other ∧ other.path.components = file.path.components ∧
    theme.Compiles store other ∧ (step.run theme store).Dated file.path

theorem Fresh.congr {first second : MemoryStore}
    (sourceKept : second.files.get? file.path = first.files.get? file.path)
    (artifactKept : second.files.get? (theme.artifactPath file.path) =
      first.files.get? (theme.artifactPath file.path)) :
    theme.Fresh second file ↔ theme.Fresh first file := by
  unfold Fresh
  rw [sourceKept, artifactKept]

theorem Fresh.of_same_place (isSource : theme.IsSource file) (isOther : theme.IsSource other)
    (separate : theme.Separate) (same : other.path.components = file.path.components) :
    theme.Fresh store other ↔ theme.Fresh store file := by
  unfold Fresh
  rw [PathMap.get?_congr _ same,
    PathMap.get?_congr _ ((isOther.artifact_congr_iff isSource separate).mpr same)]

theorem fresh_iff_dated (isSource : theme.IsSource file) (separate : theme.Separate)
    (dated : store.Dated (theme.artifactPath file.path)) (compiles : theme.Compiles store file) :
    theme.Fresh ((CacheStep.compile file).run theme store) file ↔
      ((CacheStep.compile file).run theme store).Dated file.path := by
  obtain ⟨artifactPath, after, succeeds⟩ := compiles
  have outcome := theme.ensureCompiled_outcome file isSource.compiled (.ofStore store)
  have sourceKept := ensureCompiled_frame isSource.compiled (.ofStore store)
    (isSource.ne_artifact isSource separate)
  simp only [CacheStep.run]
  unfold finalState at sourceKept ⊢
  rw [succeeds] at outcome sourceKept ⊢
  dsimp only at sourceKept ⊢
  cases outcome with
  | @fresh source artifact written kept fresh =>
      -- the artifact bounds the date of its source, and the clock bounds that of the artifact
      constructor
      · intro _ source' written'
        cases written.symm.trans written'
        exact Nat.le_trans fresh (dated artifact kept)
      · intro _
        exact ⟨source, artifact, written, kept, fresh⟩
  | @compiled source compiler text _ written stale registered compiles files clock =>
      have kept : after.store.files.get? (theme.artifactPath file.path) =
          some ⟨text, after.store.clock⟩ := by
        rw [files, PathMap.get?_insert, if_pos rfl, clock]
      constructor
      · rintro ⟨source', artifact, written', kept', fresh⟩ found stored
        cases kept.symm.trans kept'
        cases written'.symm.trans stored
        exact fresh
      · intro timely
        rw [← sourceKept] at written
        exact ⟨source, _, written, kept, timely source written⟩

theorem fresh_compile_other (isSource : theme.IsSource file) (isOther : theme.IsSource other)
    (separate : theme.Separate) (different : other.path.components ≠ file.path.components) :
    theme.Fresh ((CacheStep.compile other).run theme store) file ↔ theme.Fresh store file := by
  apply Fresh.congr
  · exact ensureCompiled_frame isOther.compiled (.ofStore store) (isSource.ne_artifact isOther separate)
  · apply ensureCompiled_frame isOther.compiled (.ofStore store)
    intro same
    exact different ((isSource.artifact_congr_iff isOther separate).mp same).symm

theorem fresh_compile_failed (isOther : theme.IsSource other)
    (fails : ¬ theme.Compiles store other) :
    theme.Fresh ((CacheStep.compile other).run theme store) file ↔ theme.Fresh store file := by
  have outcome := theme.ensureCompiled_outcome other isOther.compiled (.ofStore store)
  simp only [CacheStep.run]
  unfold finalState
  unfold Compiles at fails
  generalize theme.ensureCompiled other (.ofStore store) = result at outcome fails
  cases outcome with
  | fresh => exact absurd ⟨_, _, rfl⟩ fails
  | compiled => exact absurd ⟨_, _, rfl⟩ fails
  | @failed _ after kept =>
      have files : after.store.files = store.files := kept.files
      unfold Fresh
      dsimp only
      rw [files]

theorem Fresh.compile (isSource : theme.IsSource file) (fresh : theme.Fresh store file) :
    theme.Fresh ((CacheStep.compile file).run theme store) file := by
  have outcome := theme.ensureCompiled_outcome file isSource.compiled (.ofStore store)
  by_cases compiles : theme.Compiles store file
  · obtain ⟨artifactPath, after, succeeds⟩ := compiles
    simp only [CacheStep.run]
    unfold finalState
    rw [succeeds] at outcome ⊢
    cases outcome with
    | fresh => exact fresh
    | compiled written stale =>
        obtain ⟨source', artifact, written', kept, fresh⟩ := fresh
        have old := stale artifact kept
        cases written.symm.trans written'
        omega
  · exact (fresh_compile_failed isSource compiles).mpr fresh

theorem fresh_compile_iff (separate : theme.Separate) (isSource : theme.IsSource file)
    (isOther : theme.IsSource other) (same : other.path.components = file.path.components)
    (dated : store.Dated (theme.artifactPath file.path)) :
    theme.Fresh ((CacheStep.compile other).run theme store) file ↔
      theme.Refreshes store file (.compile other) ∨ theme.Fresh store file := by
  have places : ∀ store, theme.Fresh store other ↔ theme.Fresh store file :=
    fun _ => Fresh.of_same_place isSource isOther separate same
  have datedOther := (MemoryStore.dated_congr
    ((isOther.artifact_congr_iff isSource separate).mpr same)).mpr dated
  have datedAfter := @MemoryStore.dated_congr ((CacheStep.compile other).run theme store) _ _ same
  constructor
  · intro fresh
    by_cases compiles : theme.Compiles store other
    · have timely := (fresh_iff_dated isOther separate datedOther compiles).mp
        ((places _).mpr fresh)
      exact .inl ⟨other, rfl, same, compiles, datedAfter.mp timely⟩
    · exact .inr ((fresh_compile_failed isOther compiles).mp fresh)
  · rintro (⟨other', equal, _, compiles, timely⟩ | fresh)
    · cases equal
      apply (places _).mp
      exact (fresh_iff_dated isOther separate datedOther compiles).mpr (datedAfter.mpr timely)
    · exact (places _).mp (((places _).mpr fresh).compile isOther)

/-- A source has a fresh artifact after a step if the step was a call that gave it one, or if it
had one before and the step left it alone. -/
theorem fresh_run_iff (separate : theme.Separate) (isSource : theme.IsSource file)
    (allowed : step.Allowed theme) (dated : store.Dated (theme.artifactPath file.path)) :
    theme.Fresh (step.run theme store) file ↔
      theme.Refreshes store file step ∨ (theme.Fresh store file ∧ ¬ step.Edits file.path) := by
  -- an edit is dated after every artifact, so freshness is lost and never gained by it
  by_cases edits : step.Edits file.path
  · constructor
    · intro fresh
      exact absurd fresh (not_fresh_of_edits separate isSource allowed edits dated)
    · rintro (⟨other, compiles, _⟩ | ⟨_, unedited⟩)
      · rw [compiles] at edits
        exact edits.elim
      · exact absurd edits unedited
  · cases step with
    | compile other =>
        by_cases same : other.path.components = file.path.components
        · rw [fresh_compile_iff separate isSource allowed same dated]
          exact or_congr_right (and_iff_left edits).symm
        · rw [fresh_compile_other isSource allowed separate same]
          constructor
          · exact fun fresh => .inr ⟨fresh, edits⟩
          · rintro (⟨other', compiles, same', _⟩ | ⟨fresh, _⟩)
            · cases compiles
              exact absurd same' same
            · exact fresh
    | _ =>
        rw [Fresh.congr (run_frame allowed edits nofun)
          (run_frame allowed (unedited_artifact separate isSource allowed) nofun)]
        constructor
        · exact fun fresh => .inr ⟨fresh, edits⟩
        · rintro (⟨other, compiles, _⟩ | ⟨fresh, _⟩)
          · cases compiles
          · exact fresh

/-! Whole sequences -/

variable {steps : List CacheStep}

theorem runAll_dated (allowed : ∀ step ∈ steps, step.Allowed theme) {path : Path}
    (dated : store.Dated path) : (CacheStep.runAll theme steps store).Dated path := by
  induction steps generalizing store with
  | nil => exact dated
  | cons step rest ih =>
      apply ih (fun step member => allowed step (List.mem_cons_of_mem _ member))
      exact run_dated (allowed step List.mem_cons_self) dated

theorem runAll_coherent (separate : theme.Separate) (blind : theme.compilers.SpellingBlind)
    (isSource : theme.IsSource file) (allowed : ∀ step ∈ steps, step.Allowed theme)
    (dated : store.Dated (theme.artifactPath file.path)) (coherent : theme.Coherent store file) :
    theme.Coherent (CacheStep.runAll theme steps store) file := by
  induction steps generalizing store with
  | nil => exact coherent
  | cons step rest ih =>
      have stepAllowed := allowed step List.mem_cons_self
      apply ih (fun step member => allowed step (List.mem_cons_of_mem _ member))
      · exact run_dated stepAllowed dated
      · exact run_coherent separate blind isSource stepAllowed dated coherent

/-- Whether a step of a sequence refreshed a source that no step after it edits. -/
def RefreshedIn (theme : Theme) (store : MemoryStore) (file : TemplateFile)
    (steps : List CacheStep) : Prop :=
  ∃ before step after, steps = before ++ step :: after ∧
    theme.Refreshes (CacheStep.runAll theme before store) file step ∧
    ∀ later ∈ after, ¬ later.Edits file.path

theorem refreshedIn_cons (rest : List CacheStep) :
    theme.RefreshedIn store file (step :: rest) ↔
      theme.RefreshedIn (step.run theme store) file rest ∨
        (theme.Refreshes store file step ∧ ∀ later ∈ rest, ¬ later.Edits file.path) := by
  constructor
  · rintro ⟨before, middle, after, split, refreshes, unedited⟩
    rcases List.cons_eq_append_iff.mp split with ⟨rfl, same⟩ | ⟨before', rfl, same⟩
    · cases same
      exact .inr ⟨refreshes, unedited⟩
    · exact .inl ⟨before', middle, after, same, refreshes, unedited⟩
  · rintro (⟨before, middle, after, rfl, refreshes, unedited⟩ | ⟨refreshes, unedited⟩)
    · exact ⟨step :: before, middle, after, rfl, refreshes, unedited⟩
    · exact ⟨[], step, rest, rfl, refreshes, unedited⟩

theorem fresh_runAll_iff (separate : theme.Separate) (isSource : theme.IsSource file)
    (allowed : ∀ step ∈ steps, step.Allowed theme)
    (dated : store.Dated (theme.artifactPath file.path)) :
    theme.Fresh (CacheStep.runAll theme steps store) file ↔
      theme.RefreshedIn store file steps ∨
        (theme.Fresh store file ∧ ∀ step ∈ steps, ¬ step.Edits file.path) := by
  induction steps generalizing store with
  | nil => simp [CacheStep.runAll, RefreshedIn]
  | cons step rest ih =>
      -- the first step decides whether the rest starts from a fresh artifact
      have stepAllowed := allowed step List.mem_cons_self
      have later := @ih (step.run theme store)
        (fun step member => allowed step (List.mem_cons_of_mem _ member))
        (run_dated stepAllowed dated)
      change theme.Fresh (CacheStep.runAll theme rest (step.run theme store)) file ↔ _
      rw [later, fresh_run_iff separate isSource stepAllowed dated, refreshedIn_cons,
        List.forall_mem_cons, or_and_right, or_assoc, and_assoc]

theorem fresh_of_not_called (isSource : theme.IsSource file) {path : Path}
    {room : Workroom MemoryStore}
    (succeeds : theme.ensureCompiled file (.ofStore store) = .ok path room) :
    room.compiled = [] ↔ theme.Fresh store file := by
  have outcome := theme.ensureCompiled_outcome file isSource.compiled (.ofStore store)
  rw [succeeds] at outcome
  cases outcome with
  | @fresh source artifact written kept fresh =>
      constructor
      · exact fun _ => ⟨source, artifact, written, kept, fresh⟩
      · exact fun _ => rfl
  | compiled written stale registered compiles files clock calls =>
      constructor
      · intro none
        simp [calls] at none
      · rintro ⟨source, artifact, written', kept, fresh⟩
        have old := stale artifact kept
        cases written.symm.trans written'
        omega

def HoldsCompiled (theme : Theme) (store : MemoryStore) (file : TemplateFile) (path : Path) :
    Prop :=
  ∃ source compiler text, store.contents? file.path = some source ∧
    theme.compilers.compiler? file.dialect = some compiler ∧
    compiler source file.path = .ok text ∧ store.contents? path = some text

theorem holdsCompiled_of_succeeds (separate : theme.Separate) (isSource : theme.IsSource file)
    {room after : Workroom MemoryStore} (coherent : theme.Coherent room.store file) {path : Path}
    (succeeds : theme.ensureCompiled file room = .ok path after) :
    theme.HoldsCompiled after.store file path := by
  have outcome := theme.ensureCompiled_outcome file isSource.compiled room
  have sourceKept := ensureCompiled_frame isSource.compiled room
    (isSource.ne_artifact isSource separate)
  unfold finalState at sourceKept
  rw [succeeds] at outcome sourceKept
  dsimp only at sourceKept
  unfold HoldsCompiled MemoryStore.contents?
  cases outcome with
  | @fresh source artifact written kept fresh =>
      obtain ⟨compiler, registered, compiles⟩ := coherent source artifact written kept fresh
      exact ⟨_, compiler, _, by rw [written]; rfl, registered, compiles, by rw [kept]; rfl⟩
  | @compiled source compiler text _ written stale registered compiles files =>
      have kept := PathMap.get?_insert room.store.files
        (theme.artifactPath file.path) (theme.artifactPath file.path)
        ⟨text, room.store.clock + 1⟩
      rw [if_pos rfl, ← files] at kept
      rw [← sourceKept] at written
      exact ⟨_, compiler, text, by rw [written]; rfl, registered, compiles, by rw [kept]; rfl⟩

/-- Whether a source was edited after each call for it that succeeded. -/
def EditedSince (theme : Theme) (store : MemoryStore) (file : TemplateFile)
    (steps : List CacheStep) : Prop :=
  ∀ before other after, steps = before ++ .compile other :: after →
    other.path.components = file.path.components →
    theme.Compiles (CacheStep.runAll theme before store) other →
    ∃ later ∈ after, later.Edits file.path

theorem editedSince_iff (dated : store.Dated file.path)
    (allowed : ∀ step ∈ steps, step.Allowed theme) :
    theme.EditedSince store file steps ↔ ¬ theme.RefreshedIn store file steps := by
  constructor
  · rintro edited ⟨before, step, after, split, ⟨other, rfl, same, compiles, _⟩, unedited⟩
    obtain ⟨later, member, edits⟩ := edited before other after split same compiles
    exact unedited later member edits
  · intro stale before other after split same compiles
    apply Classical.byContradiction
    intro unedited
    apply stale
    refine ⟨before, .compile other, after, split, ⟨other, rfl, same, compiles, ?_⟩, ?_⟩
    · apply run_dated
      · exact allowed _ (by simp [split])
      · exact runAll_dated (fun step member => allowed step (by simp [split, member])) dated
    · intro later member edits
      exact unedited ⟨later, member, edits⟩

variable {start : MemoryStore} {artifact : Path} {room : Workroom MemoryStore}

/-- What a successful call gives after any sequence of steps on a store that had no artifacts: it
holds what the compiler makes of the source as it is, and the compiler was called unless a call
that no edit followed had left an artifact that was not older. Without sources from the future this
is a call that any success which no edit followed makes needless. -/
theorem artifact_current_and_compiled_once (separate : theme.Separate)
    (blind : theme.compilers.SpellingBlind)
    (clean : start.NoFilesBelow theme.settings.tempRoot)
    (allowed : ∀ step ∈ steps, step.Allowed theme) (isSource : theme.IsSource file)
    (succeeds : theme.ensureCompiled file (.ofStore (CacheStep.runAll theme steps start)) =
      .ok artifact room) :
    theme.HoldsCompiled room.store file artifact ∧
    (room.compiled ≠ [] ↔ ¬ theme.RefreshedIn start file steps) ∧
    (start.Dated file.path → (room.compiled ≠ [] ↔ theme.EditedSince start file steps)) := by
  have absent := clean _ (isSource.artifact_below separate)
  have dated := MemoryStore.Dated.of_absent absent
  have coherent := coherent_of_noFilesBelow separate clean isSource
  have notFresh : ¬ theme.Fresh start file := by
    rintro ⟨source, artifact, _, kept, _⟩
    rw [absent] at kept
    cases kept
  have called : room.compiled ≠ [] ↔ ¬ theme.RefreshedIn start file steps := by
    rw [ne_eq, fresh_of_not_called isSource succeeds,
      fresh_runAll_iff separate isSource allowed dated]
    simp [notFresh]
  refine ⟨?_, called, ?_⟩
  · exact holdsCompiled_of_succeeds separate isSource
      (runAll_coherent separate blind isSource allowed dated coherent) succeeds
  · intro timely
    rw [called, editedSince_iff timely allowed]

/-! A theme with one page -/

def onePage : TemplateFile := ⟨.ofString "./views/a.haml", .haml⟩

theorem onePage_isSource : standard.IsSource onePage where
  spelled := by decide +kernel
  compiled := rfl
  inside := by
    constructor <;> decide +kernel

def callsCompiler (outcome : EStateM.Result RenderError (Workroom MemoryStore) Path) : Bool :=
  match outcome with
  | .ok _ room => !room.compiled.isEmpty
  | .error _ _ => false

theorem of_callsCompiler {outcome : EStateM.Result RenderError (Workroom MemoryStore) Path}
    (calls : callsCompiler outcome = true) :
    ∃ artifact room, outcome = .ok artifact room ∧ room.compiled ≠ [] := by
  cases outcome with
  | ok artifact room =>
      refine ⟨artifact, room, rfl, ?_⟩
      simpa [callsCompiler] using calls
  | error => cases calls

theorem compiled_again_after_touch :
    let steps : List CacheStep :=
      [.addFile onePage.path "%p one", .compile onePage, .touch onePage.path]
    ∃ artifact room,
      standard.ensureCompiled onePage
        (.ofStore (CacheStep.runAll standard steps .empty)) = .ok artifact room ∧
      standard.HoldsCompiled room.store onePage artifact ∧
      (room.compiled ≠ [] ↔ ¬ standard.RefreshedIn .empty onePage steps) ∧
      (MemoryStore.empty.Dated onePage.path →
        (room.compiled ≠ [] ↔ standard.EditedSince .empty onePage steps)) := by
  intro steps
  have outside : onePage.path.startsWith standard.settings.tempRoot = false := by
    decide +kernel
  have calls : callsCompiler (standard.ensureCompiled onePage
      (.ofStore (CacheStep.runAll standard steps .empty))) = true := by
    decide +kernel
  obtain ⟨artifact, room, succeeds, _⟩ := of_callsCompiler calls
  refine ⟨artifact, room, succeeds, ?_⟩
  apply artifact_current_and_compiled_once standard_separate Compilers.standard_spellingBlind
  · exact .empty _
  · intro step member
    simp only [steps, List.mem_cons, List.not_mem_nil, or_false] at member
    rcases member with rfl | rfl | rfl
    · exact outside
    · exact onePage_isSource
    · exact outside
  · exact onePage_isSource
  · exact succeeds

def postdatedPage : MemoryStore :=
  (MemoryStore.empty.addFile onePage.path "%p one").setModified onePage.path 9

/-- A source from the future is compiled at every call, with no edit between them. -/
theorem postdated_source_compiled_again :
    ¬ ∀ (theme : Theme) (start : MemoryStore) (steps : List CacheStep) (file : TemplateFile)
      (artifact : Path) (room : Workroom MemoryStore),
      theme.Separate → theme.compilers.SpellingBlind →
      start.NoFilesBelow theme.settings.tempRoot →
      (∀ step ∈ steps, step.Allowed theme) → theme.IsSource file →
      theme.ensureCompiled file (.ofStore (CacheStep.runAll theme steps start)) =
        .ok artifact room →
      theme.HoldsCompiled room.store file artifact ∧
        (room.compiled ≠ [] ↔ theme.EditedSince start file steps) := by
  intro holds
  have first : callsCompiler (standard.ensureCompiled onePage (.ofStore postdatedPage)) =
      true := by
    decide +kernel
  have again : callsCompiler (standard.ensureCompiled onePage (.ofStore
      (CacheStep.runAll standard [.compile onePage] postdatedPage))) = true := by
    decide +kernel
  obtain ⟨artifact, room, compiles, _⟩ := of_callsCompiler first
  obtain ⟨artifact', room', succeeds, calls⟩ := of_callsCompiler again
  have claimed := holds standard postdatedPage [.compile onePage] onePage artifact' room'
    standard_separate Compilers.standard_spellingBlind ?_ ?_ onePage_isSource succeeds
  · obtain ⟨later, member, _⟩ := claimed.2.mp calls [] onePage [] rfl rfl ⟨artifact, room, compiles⟩
    cases member
  · exact ((MemoryStore.NoFilesBelow.empty _).addFile (by decide +kernel) _).setModified _ _
  · intro step member
    cases List.mem_singleton.mp member
    exact onePage_isSource

end Theme

end ThemeRender
