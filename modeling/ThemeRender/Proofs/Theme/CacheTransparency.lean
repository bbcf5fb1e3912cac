import ThemeRender.Proofs.Template.Related
import ThemeRender.Proofs.Theme.Candidates
import ThemeRender.Proofs.Theme.Coherence
import ThemeRender.Proofs.Theme.Direct
import ThemeRender.Proofs.Theme.Fetching

namespace ThemeRender

open Outcome (finalState bind_ok bind_error finalState_ok finalState_error finalState_bind_ok
  finalState_bind_error)

namespace Theme

variable {theme : Theme} {origin : MemoryStore} {file : TemplateFile}
  {room : Workroom MemoryStore}

structure Keeping (theme : Theme) (store : MemoryStore) : Prop where
  unlocked : store.locked = []
  tempRoot : store.dirs.contains theme.settings.tempRoot = true ∨
    ∃ after, MemoryStore.createDirs theme.settings.tempRoot theme.settings.dirMode store =
      .ok () after

theorem compileTo_keeping (separate : theme.Separate)
    (allows : theme.settings.dirMode.allowsOwnerWrite = true) (keeping : theme.Keeping room.store)
    (isSource : theme.IsSource file) {compiler : Compiler} {source : MemoryFile}
    (registered : theme.compilers.compiler? file.dialect = some compiler)
    (written : room.store.files.get? file.path = some source) :
    ∃ middle : MemoryStore, middle.locked = [] ∧
      middle.dirs.contains theme.settings.tempRoot = true ∧
      theme.compileTo file (theme.artifactPath file.path) room =
        match compiler source.contents file.path with
        | .error error => .error (.compile error) (called file { room with store := middle })
        | .ok text => .ok () (called file
            { room with store := middle.putFile (theme.artifactPath file.path) text }) := by
  obtain ⟨views, temp⟩ := separate.nonempty
  obtain ⟨dir, above, below⟩ := parent?_artifactPath views isSource.spelled
    isSource.compiled
  have kept := keptByDirs_memory.prepareDirs theme (theme.levels dir) room.store
  have unlocked (path : Path) : room.store.isLocked path = false :=
    MemoryStore.isLocked_of_unlocked keeping.unlocked
  have possible := keeping.tempRoot.elim .inl
    (MemoryStore.createDirs_ok_iff (unlocked theme.settings.tempRoot) _).mp
  have ready {level : Path} := @prepared_ready theme dir room.store (unlocked dir) allows temp
    possible below level
  have root := (ready (Path.startsWith_self _) below).1
  obtain ⟨there, writable⟩ := ready below (Path.startsWith_self dir)
  refine ⟨theme.prepared dir room.store, kept.locked.trans keeping.unlocked, root, ?_⟩
  have prepares := ensureWritable_ready ⟨there, writable⟩
  have compiles := compileTo_ready above prepares registered
  rw [written] at compiles
  exact compiles

theorem isFresh_of_fresh (fresh : theme.Fresh room.store file) :
    isFresh file.path (theme.artifactPath file.path) room = .ok true room := by
  obtain ⟨source, artifact, written, kept, fresh⟩ := fresh
  rw [isFresh_apply, kept, written]
  simp [fresh]

theorem ensureCompiled_of_fresh (compiled : file.dialect.isCompiled = true)
    (fresh : theme.Fresh room.store file) :
    theme.ensureCompiled file room = .ok (theme.artifactPath file.path) room := by
  unfold ensureCompiled
  simp only [compiled, Bool.not_true, Bool.false_eq_true, if_false]
  exact bind_ok (isFresh_of_fresh fresh)

theorem isFresh_of_stale {source : MemoryFile}
    (written : room.store.files.get? file.path = some source)
    (stale : ¬ theme.Fresh room.store file) :
    isFresh file.path (theme.artifactPath file.path) room = .ok false room := by
  rw [isFresh_apply]
  cases kept : room.store.files.get? (theme.artifactPath file.path) with
  | none => rfl
  | some artifact =>
      have older : ¬ source.modified ≤ artifact.modified :=
        fun fresh => stale ⟨source, artifact, written, kept, fresh⟩
      rw [written]
      simp [older]

theorem executable_of_source {store : MemoryStore} (compiled : file.dialect.isCompiled = true)
    {source : MemoryFile} (written : store.files.get? file.path = some source) :
    theme.executable store file =
      match theme.compilers.compiler? file.dialect with
      | none => .error (.runtime file.path.display none (.noCompiler file.dialect))
      | some compiler =>
          match compiler source.contents file.path with
          | .error error => .error (.compile error)
          | .ok text => .ok (theme.artifactPath file.path, text) := by
  have reads : readFile store file.path = .ok source.contents := by
    rw [readFile, read_ok written]
    rfl
  unfold executable
  rw [compiled, reads]
  cases theme.compilers.compiler? file.dialect with
  | none => rfl
  | some compiler =>
      change ((compiler source.contents file.path).mapError RenderError.compile >>= fun text =>
        return (theme.artifactPath file.path, text)) = _
      dsimp only
      cases compiler source.contents file.path with
      | error error => rfl
      | ok text => rfl

def Delivers (theme : Theme) (file : TemplateFile) (room : Workroom MemoryStore)
    (result : Except RenderError (Path × String)) (after : Workroom MemoryStore) : Prop :=
  match result with
  | .error error => theme.ensureCompiled file room = .error error after
  | .ok (path, text) =>
      theme.ensureCompiled file room = .ok path after ∧ after.store.contents? path = some text

theorem Delivers.finalState {result : Except RenderError (Path × String)}
    {after : Workroom MemoryStore} (delivers : theme.Delivers file room result after) :
    Outcome.finalState (theme.ensureCompiled file) room = after := by
  unfold Delivers at delivers
  cases result with
  | error error => exact finalState_error delivers
  | ok found => exact finalState_ok delivers.1

/-- What a call for the executable form of a source comes to is what the source comes to when it is
compiled on the spot. -/
theorem ensureCompiled_keeping (separate : theme.Separate)
    (allows : theme.settings.dirMode.allowsOwnerWrite = true) (keeping : theme.Keeping room.store)
    (isSource : theme.IsSource file) (coherent : theme.Coherent room.store file)
    {source : MemoryFile} (written : room.store.files.get? file.path = some source) :
    ∃ after : Workroom MemoryStore, theme.Keeping after.store ∧
      theme.Delivers file room (theme.executable room.store file) after := by
  rw [executable_of_source isSource.compiled written]
  unfold Delivers ensureCompiled
  simp only [isSource.compiled, Bool.not_true, Bool.false_eq_true, if_false]
  by_cases fresh : theme.Fresh room.store file
  · refine ⟨room, keeping, ?_⟩
    have found := isFresh_of_fresh fresh
    obtain ⟨source', artifact, written', kept, fresh⟩ := fresh
    cases written.symm.trans written'
    obtain ⟨compiler, registered, compiles⟩ := coherent source artifact written kept fresh
    simp only [registered, compiles]
    refine ⟨bind_ok found, ?_⟩
    rw [MemoryStore.contents?, kept]
    rfl
  · have found := isFresh_of_stale written fresh
    cases registered : theme.compilers.compiler? file.dialect with
    | none =>
        refine ⟨room, keeping, (bind_ok found).trans ?_⟩
        unfold compileTo
        simp only [registered]
        rfl
    | some compiler =>
        obtain ⟨middle, unlocked, root, compiles⟩ :=
          compileTo_keeping separate allows keeping isSource registered written
        dsimp only
        cases outcome : compiler source.contents file.path with
        | error error =>
            rw [outcome] at compiles
            exact ⟨called file { room with store := middle }, ⟨unlocked, .inl root⟩,
              (bind_ok found).trans (bind_error compiles)⟩
        | ok text =>
            rw [outcome] at compiles
            refine ⟨_, ⟨?_, ?_⟩, (bind_ok found).trans (bind_ok compiles), ?_⟩
            · exact unlocked
            · exact .inl root
            · change (middle.putFile (theme.artifactPath file.path) text).contents? _ = some text
              rw [MemoryStore.contents?, MemoryStore.get?_putFile, if_pos rfl]
              rfl

/-! Stores that differ from a first one in artifacts only -/

/-- Whether a store has the files of another one outside the temp root, and what artifacts it has for
them are coherent. -/
structure Faithful (theme : Theme) (origin store : MemoryStore) : Prop where
  views : ∀ path : Path, path.startsWith theme.settings.tempRoot = false →
    store.files.get? path = origin.files.get? path
  coherent : ∀ file, theme.IsSource file → theme.Coherent store file

theorem Faithful.ensureCompiled (separate : theme.Separate) (blind : theme.compilers.SpellingBlind)
    (isSource : theme.IsSource file) (faithful : theme.Faithful origin room.store) :
    theme.Faithful origin (finalState (theme.ensureCompiled file) room).store where
  views path outside :=
    (ensureCompiled_outside separate isSource room outside).trans (faithful.views path outside)
  coherent other isOther :=
    (faithful.coherent other isOther).ensureCompiled separate blind isOther isSource

structure Reflects (theme : Theme) (origin store : MemoryStore) : Prop
    extends theme.Keeping store where
  views : ∀ path : Path, path.startsWith theme.settings.tempRoot = false →
    store.files.get? path = origin.files.get? path
  coherent : ∀ file, theme.IsSource file → theme.Coherent store file

theorem Reflects.faithful {store : MemoryStore} (reflects : theme.Reflects origin store) :
    theme.Faithful origin store :=
  ⟨reflects.views, reflects.coherent⟩

theorem Reflects.ensureCompiled (separate : theme.Separate) (blind : theme.compilers.SpellingBlind)
    (isSource : theme.IsSource file) (reflects : theme.Reflects origin room.store)
    (keeping : theme.Keeping (finalState (theme.ensureCompiled file) room).store) :
    theme.Reflects origin (finalState (theme.ensureCompiled file) room).store where
  toKeeping := keeping
  views := (reflects.faithful.ensureCompiled separate blind isSource).views
  coherent := (reflects.faithful.ensureCompiled separate blind isSource).coherent

theorem ensureCompiled_follows (separate : theme.Separate) (blind : theme.compilers.SpellingBlind)
    (allows : theme.settings.dirMode.allowsOwnerWrite = true)
    (inside : file.path.Inside theme.settings.viewsRoot)
    (spelled : Dialect.ofPath? file.path = some file.dialect)
    (isFile : origin.files.contains file.path = true)
    (reflects : theme.Reflects origin room.store) :
    ∃ after : Workroom MemoryStore, theme.Reflects origin after.store ∧
      theme.Delivers file room (theme.executable origin file) after := by
  obtain ⟨source, original⟩ := Option.isSome_iff_exists.mp isFile
  have outside := separate.not_both inside.startsWith
  have written := (reflects.views file.path outside).trans original
  cases compiled : file.dialect.isCompiled with
  | false =>
      refine ⟨room, reflects, ?_⟩
      have runs : theme.executable origin file = .ok (file.path, source.contents) := by
        unfold executable readFile
        rw [compiled, read_ok original]
        rfl
      rw [runs]
      constructor
      · unfold ensureCompiled
        rw [compiled]
        rfl
      · rw [MemoryStore.contents?, written]
        rfl
  | true =>
      have isSource : theme.IsSource file := ⟨spelled, compiled, inside⟩
      obtain ⟨after, keeping, runs⟩ := ensureCompiled_keeping separate allows
        reflects.toKeeping isSource (reflects.coherent file isSource) written
      rw [executable_of_source compiled written, ← executable_of_source compiled original] at runs
      rw [← runs.finalState] at keeping
      have reflects' := Reflects.ensureCompiled separate blind isSource reflects keeping
      rw [runs.finalState] at reflects'
      exact ⟨after, reflects', runs⟩

theorem load_of_contents {path : Path} {text : String}
    (kept : room.store.contents? path = some text) :
    load path room = Outcome.ended
      ((Template.parse text).mapError (.malformed path) |>.map (text, ·)) room := by
  have reads : Workroom.ask path (Store.read · path) room = .ok text room := by
    apply ask_ok
    simp only [Store.read, kept]
  refine (bind_ok reads).trans ?_
  cases Template.parse text with
  | error errors => rfl
  | ok nodes => rfl

theorem find?_of_outside (separate : theme.Separate) {name : String} (relative : RelativeName name)
    {first second : MemoryStore} (same : ∀ path : Path,
      path.startsWith theme.settings.tempRoot = false →
        first.files.get? path = second.files.get? path) :
    TemplateFile.find? first theme.settings.viewsRoot name =
      TemplateFile.find? second theme.settings.viewsRoot name := by
  apply TemplateFile.find?_congr
  intro path candidate
  have inside := TemplateFile.candidates_inside separate.nonempty.1 relative candidate
  change first.files.contains path = second.files.contains path
  unfold PathMap.contains
  rw [same path (separate.not_both inside.startsWith)]

theorem find?_reflects (separate : theme.Separate) {name : String} (relative : RelativeName name)
    (reflects : theme.Reflects origin room.store) :
    TemplateFile.find? room.store theme.settings.viewsRoot name =
      TemplateFile.find? origin theme.settings.viewsRoot name :=
  find?_of_outside separate relative reflects.views

theorem findFile_reflects (separate : theme.Separate) {name : String}
    (relative : RelativeName name) (reflects : theme.Reflects origin room.store) :
    theme.findFile name room = Outcome.ended
      (match TemplateFile.find? origin theme.settings.viewsRoot name with
      | none => .error (.missing name (TemplateFile.candidates theme.settings.viewsRoot name))
      | some file => .ok file) room := by
  rw [findFile, Outcome.get_bind, find?_reflects separate relative reflects]
  cases TemplateFile.find? origin theme.settings.viewsRoot name with
  | none => rfl
  | some file => rfl

theorem fetch_follows (separate : theme.Separate) (blind : theme.compilers.SpellingBlind)
    (allows : theme.settings.dirMode.allowsOwnerWrite = true) {name : String}
    (relative : RelativeName name) (reflects : theme.Reflects origin room.store) :
    ∃ after : Workroom MemoryStore, theme.Reflects origin after.store ∧
      theme.fetch name room = Outcome.ended (theme.template origin name) after := by
  have finds := findFile_reflects separate relative reflects
  unfold fetch
  cases found : TemplateFile.find? origin theme.settings.viewsRoot name with
  | none =>
      rw [found] at finds
      refine ⟨room, reflects, (bind_error finds).trans ?_⟩
      simp only [template, found]
      rfl
  | some file =>
      rw [found] at finds
      obtain ⟨candidate, isFile, spelled⟩ := TemplateFile.of_find? found
      have inside := TemplateFile.candidates_inside separate.nonempty.1 relative candidate
      obtain ⟨after, reflects', runs⟩ :=
        ensureCompiled_follows separate blind allows inside spelled isFile reflects
      refine ⟨after, reflects', (bind_ok finds).trans ?_⟩
      simp only [template, found]
      cases result : theme.executable origin file with
      | error error =>
          rw [result] at runs
          exact bind_error runs
      | ok compiled =>
          obtain ⟨path, text⟩ := compiled
          rw [result] at runs
          refine (bind_ok runs.1).trans ?_
          have loads := load_of_contents runs.2
          dsimp only
          cases parsed : Template.parse text with
          | error errors =>
              rw [parsed] at loads
              exact bind_error loads
          | ok nodes =>
              rw [parsed] at loads
              exact bind_ok loads

/-! Rendering -/

variable {α β : Type}

def withState {σ τ : Type} (state : τ) :
    EStateM.Result RenderError (Stage σ) α → EStateM.Result RenderError (Stage τ) α
  | .ok a stage => .ok a ⟨stage.frames, state⟩
  | .error error stage => .error error ⟨stage.frames, state⟩

/-- Whether a computation on a store with artifacts does what another one does without them, as long
as all names that are noted are relative. -/
structure Follows (theme : Theme) (origin : MemoryStore) (cached : Rendering MemoryStore α)
    (direct : Render (List String) α) : Prop where
  notes : ∀ stage, stage.state <+: (finalState direct stage).state
  agrees : ∀ frames names (room : Workroom MemoryStore), theme.Reflects origin room.store →
    (∀ name ∈ (finalState direct ⟨frames, names⟩).state, RelativeName name) →
    ∃ after : Workroom MemoryStore, theme.Reflects origin after.store ∧
      cached ⟨frames, room⟩ = withState after (direct ⟨frames, names⟩)

theorem Follows.bind {first : Rendering MemoryStore α} {first' : Render (List String) α}
    {next : α → Rendering MemoryStore β} {next' : α → Render (List String) β}
    (follows : theme.Follows origin first first')
    (nextFollows : ∀ a, theme.Follows origin (next a) (next' a)) :
    theme.Follows origin (first >>= next) (first' >>= next') where
  notes stage := by
    have noted := follows.notes stage
    cases result : first' stage with
    | ok a after =>
        rw [finalState_ok result] at noted
        rw [finalState_bind_ok result]
        exact noted.trans ((nextFollows a).notes after)
    | error error after =>
        rw [finalState_error result] at noted
        rw [finalState_bind_error result]
        exact noted
  agrees frames names room reflects relative := by
    cases result : first' ⟨frames, names⟩ with
    | ok a middle =>
        -- the first part notes no name that the whole does not note
        rw [finalState_bind_ok result] at relative
        have noted := (nextFollows a).notes middle
        obtain ⟨room', reflects', runs⟩ := follows.agrees frames names room reflects (by
          rw [finalState_ok result]
          exact fun name member => relative name (noted.subset member))
        rw [result] at runs
        obtain ⟨after, reflects'', runs'⟩ :=
          (nextFollows a).agrees middle.frames middle.state room' reflects' relative
        refine ⟨after, reflects'', ?_⟩
        rw [bind_ok result]
        exact (bind_ok runs).trans runs'
    | error error middle =>
        rw [finalState_bind_error result, ← finalState_error result] at relative
        obtain ⟨after, reflects', runs⟩ := follows.agrees frames names room reflects relative
        rw [result] at runs
        refine ⟨after, reflects', ?_⟩
        rw [bind_error result]
        exact bind_error runs

theorem compatible_follows :
    Template.Compatible fun cached direct => theme.Follows origin cached direct where
  pure _ := ⟨fun _ => List.prefix_rfl, fun _ _ room reflects _ => ⟨room, reflects, rfl⟩⟩
  throw _ _ _ := ⟨fun _ => List.prefix_rfl, fun _ _ room reflects _ => ⟨room, reflects, rfl⟩⟩
  write _ := ⟨fun _ => List.prefix_rfl, fun _ _ room reflects _ => ⟨room, reflects, rfl⟩⟩
  bind := Follows.bind

theorem Follows.capture {body : Rendering MemoryStore Unit} {body' : Render (List String) Unit}
    (follows : theme.Follows origin body body') :
    theme.Follows origin (Staged.capture body) (Staged.capture body') where
  notes stage := by
    rw [Staged.state_capture]
    exact follows.notes ⟨stage.frames.push, stage.state⟩
  agrees frames names room reflects relative := by
    rw [Staged.state_capture] at relative
    obtain ⟨after, reflects', runs⟩ := follows.agrees frames.push names room reflects relative
    refine ⟨after, reflects', ?_⟩
    unfold Staged.capture
    dsimp only
    rw [runs]
    cases body' ⟨frames.push, names⟩ with
    | ok => rfl
    | error => rfl

theorem hostOver_follows {view? : Option ViewFrame}
    {render : String → Locals → Rendering MemoryStore Unit}
    {render' : String → Locals → Render (List String) Unit}
    (follows : ∀ name locals, theme.Follows origin (render name locals) (render' name locals)) :
    Template.Host.Related (fun cached direct => theme.Follows origin cached direct)
      (hostOver view? render) (hostOver view? render') where
  yieldView := by
    cases view? with
    | none => exact compatible_follows.throw _ _ _
    | some view => exact follows view.name view.locals
  renderPartial name locals := follows (partialName name) locals
  partialContent name locals := (follows (partialName name) locals).capture

theorem fetch_direct_follows (separate : theme.Separate) (blind : theme.compilers.SpellingBlind)
    (allows : theme.settings.dirMode.allowsOwnerWrite = true) (name : String) :
    theme.Follows origin (Staged.onState (theme.fetch name))
      (do Staged.modifyState (· ++ [name])
          match theme.template origin name with
          | .error error => throw error
          | .ok found => return found) where
  notes stage := by
    unfold finalState
    cases theme.template origin name with
    | error => exact List.prefix_append _ _
    | ok => exact List.prefix_append _ _
  agrees frames names room reflects relative := by
    have relativeName : RelativeName name := by
      apply relative
      unfold finalState
      cases theme.template origin name with
      | error => exact List.mem_append_right _ List.mem_cons_self
      | ok => exact List.mem_append_right _ List.mem_cons_self
    obtain ⟨after, reflects', runs⟩ :=
      fetch_follows separate blind allows relativeName reflects
    refine ⟨after, reflects', ?_⟩
    unfold Staged.onState
    dsimp only
    rw [runs]
    cases theme.template origin name with
    | error => rfl
    | ok => rfl

theorem renderDirect_succ (theme : Theme) (origin : MemoryStore) (view? : Option ViewFrame)
    (levels : Nat) (name : String) (locals : Locals) :
    theme.renderDirect origin view? (levels + 1) name locals =
      (do Staged.modifyState (· ++ [name])
          match theme.template origin name with
          | .error error => throw error
          | .ok found => return found) >>= fun found =>
        Template.run (hostOver view? (theme.renderDirect origin view? levels)) found.1.display
          found.2.1 locals found.2.2 := by
  unfold renderDirect
  rw [bind_assoc]
  cases theme.template origin name with
  | error => rfl
  | ok => rfl

theorem renderNested_follows (separate : theme.Separate) (blind : theme.compilers.SpellingBlind)
    (allows : theme.settings.dirMode.allowsOwnerWrite = true) (view? : Option ViewFrame)
    (levels : Nat) :
    ∀ name locals, theme.Follows origin (theme.renderNested view? levels name locals)
      (theme.renderDirect origin view? levels name locals) := by
  induction levels with
  | zero =>
      intro name locals
      exact compatible_follows.throw _ _ _
  | succ levels ih =>
      intro name locals
      rw [renderNested_succ, renderDirect_succ]
      apply (fetch_direct_follows separate blind allows name).bind
      intro found
      exact Template.run_related compatible_follows (hostOver_follows ih) _ _ _ _

end Theme

namespace PageCall

open Theme

variable {theme : Theme} {origin : MemoryStore}

theorem renderDirect_follows (separate : theme.Separate) (blind : theme.compilers.SpellingBlind)
    (allows : theme.settings.dirMode.allowsOwnerWrite = true) (errorPage : ErrorPage)
    (call : PageCall) :
    ∃ cached : Rendering MemoryStore Unit,
      theme.Follows origin cached (call.renderDirect theme origin) ∧
      ∀ room, call.page theme errorPage room = deliverPage errorPage cached .unlimited room := by
  cases call with
  | view name options =>
      exact ⟨_, renderNested_follows separate blind allows _ _ _ _, fun _ => rfl⟩
  | fragment name locals =>
      exact ⟨_, renderNested_follows separate blind allows _ _ _ _, fun _ => rfl⟩

theorem page_follows (separate : theme.Separate) (blind : theme.compilers.SpellingBlind)
    (allows : theme.settings.dirMode.allowsOwnerWrite = true) (errorPage : ErrorPage)
    {call : PageCall} {room : Workroom MemoryStore} (reflects : theme.Reflects origin room.store)
    (relative : ∀ name ∈ call.names theme origin, RelativeName name) :
    ∃ after : Workroom MemoryStore, theme.Reflects origin after.store ∧
      call.page theme errorPage room =
        ⟨(call.direct theme errorPage origin).1, ⟨(call.direct theme errorPage origin).2, none⟩,
          after⟩ := by
  obtain ⟨cached, follows, page⟩ :=
    @renderDirect_follows theme origin separate blind allows errorPage call
  obtain ⟨after, reflects', runs⟩ := follows.agrees .empty [] room reflects relative
  refine ⟨after, reflects', ?_⟩
  rw [page]
  unfold deliverPage direct
  rw [runs]
  cases call.renderDirect theme origin ⟨.empty, []⟩ with
  | ok => rfl
  | error => rfl

/-- Pages rendered one after another, with artifacts kept from one to the next, are what each page
is when nothing is kept, on the store that there was at first. -/
theorem pages_eq_direct (separate : theme.Separate) (blind : theme.compilers.SpellingBlind)
    (allows : theme.settings.dirMode.allowsOwnerWrite = true) (errorPage : ErrorPage)
    {room : Workroom MemoryStore} (unlocked : room.store.locked = [])
    (tempRoot : room.store.dirs.contains theme.settings.tempRoot = true ∨
      ∃ after, MemoryStore.createDirs theme.settings.tempRoot theme.settings.dirMode room.store =
        .ok () after)
    (coherent : ∀ file, theme.IsSource file → theme.Coherent room.store file)
    {calls : List PageCall}
    (relative : ∀ call ∈ calls, ∀ name ∈ call.names theme room.store, RelativeName name) :
    pages theme errorPage room calls = calls.map (direct theme errorPage room.store) := by
  -- each page leaves another store, but one that still reflects the store at first
  have follow : ∀ later : Workroom MemoryStore, theme.Reflects room.store later.store →
      pages theme errorPage later calls = calls.map (direct theme errorPage room.store) := by
    induction calls with
    | nil =>
        intro later reflects
        rfl
    | cons call rest ih =>
        intro later reflects
        obtain ⟨after, reflects', page⟩ := page_follows separate blind allows errorPage reflects
          (relative call List.mem_cons_self)
        have others := ih (fun call member => relative call (List.mem_cons_of_mem _ member))
          after reflects'
        simp only [pages, page, others, List.map_cons]
  exact follow room ⟨⟨unlocked, tempRoot⟩, fun _ _ => rfl, coherent⟩

/-! A site with a layout and a page -/

def site : MemoryStore :=
  (MemoryStore.empty.addFile (.ofString "./views/layouts/default.html.haml")
    "%body\n  - yield()").addFile (.ofString "./views/index.haml") "%p= title"

def siteCalls : List PageCall :=
  [.view "index" (.withLayout "default"), .fragment "index" .empty,
    .view "index" (.withLayout "default")]

theorem siteCalls_relative :
    ∀ call ∈ siteCalls, ∀ name ∈ call.names standard site, RelativeName name := by
  decide +kernel

theorem site_pages_eq_direct :
    pages standard htmlErrorPage (.ofStore site) siteCalls =
      siteCalls.map (direct standard htmlErrorPage site) := by
  have creates : (match MemoryStore.createDirs standard.settings.tempRoot
      standard.settings.dirMode site with
      | .ok _ _ => true | .error _ _ => false) = true := by
    decide +kernel
  have clean : site.NoFilesBelow standard.settings.tempRoot :=
    ((MemoryStore.NoFilesBelow.empty _).addFile (by decide +kernel) _).addFile (by decide +kernel) _
  refine pages_eq_direct standard_separate Compilers.standard_spellingBlind (by decide)
    htmlErrorPage rfl (.inr ?_) (fun _ => coherent_of_noFilesBelow standard_separate clean) siteCalls_relative
  cases result : MemoryStore.createDirs standard.settings.tempRoot standard.settings.dirMode
      site with
  | ok _ after => exact ⟨after, result⟩
  | error error after =>
      rw [result] at creates
      cases creates

end PageCall

end ThemeRender
