import ThemeRender.Proofs.Theme.FaithfulRender

namespace ThemeRender

open Outcome (finalState mapState mapState_mapState)

structure Yield (σ : Type) where
  before : Stage (Workroom σ)
  after : Stage (Workroom σ)

structure Yielding (σ : Type) where
  room : Workroom σ
  yields : List (Yield σ)

namespace Yielding

variable {σ α : Type}

def plain (stage : Stage (Yielding σ)) : Stage (Workroom σ) :=
  ⟨stage.frames, stage.state.room⟩

def onRoom (action : EStateM RenderError (Workroom σ) α) : Render (Yielding σ) α := fun stage =>
  match action stage.state.room with
  | .ok a room => .ok a { stage with state := { stage.state with room } }
  | .error error room => .error error { stage with state := { stage.state with room } }

def noting (yield : Render (Yielding σ) Unit) : Render (Yielding σ) Unit := fun stage =>
  match yield stage with
  | .error error after => .error error after
  | .ok () after =>
      .ok () { after with
        state := { after.state with yields := after.state.yields ++ [⟨plain stage, plain after⟩] } }

def host (host : Template.Host (Yielding σ)) : Template.Host (Yielding σ) :=
  { host with yieldView := noting host.yieldView }

end Yielding

def Watched.plain {σ : Type} (stage : Stage (Watched σ)) : Stage (Workroom σ) :=
  ⟨stage.frames, stage.state.room⟩

theorem mapState_withVisits {σ α : Type} (visits : List Visit)
    (result : EStateM.Result RenderError (Stage (Workroom σ)) α) :
    mapState Watched.plain (withVisits visits result) = result := by
  cases result with
  | ok a after => rfl
  | error error after => rfl

namespace Theme

variable {σ : Type} [Store σ]

def renderYielding (theme : Theme) (view? : Option ViewFrame) :
    Nat → String → Locals → Render (Yielding σ) Unit
  | 0, name, _ => throw (.runtime name none (.nestedTooDeep theme.settings.maxDepth))
  | levels + 1, name, locals => do
      let (executable, source, nodes) ← Yielding.onRoom (theme.fetch name)
      Template.run (Yielding.host (hostOver view? (theme.renderYielding view? levels)))
        executable.display source locals nodes

end Theme

namespace PageCall

variable {σ : Type} [Store σ]

def yielding (theme : Theme) : PageCall → Render (Yielding σ) Unit
  | .view name options =>
      theme.renderYielding (some ⟨name, options.locals⟩) theme.settings.maxDepth
        s!"layouts/{options.layout}" options.locals
  | .fragment name locals =>
      theme.renderYielding none theme.settings.maxDepth (partialName name) locals

def yields (theme : Theme) (room : Workroom σ) (call : PageCall) : List (Yield σ) :=
  (finalState (call.yielding theme) ⟨.empty, ⟨room, []⟩⟩).state.yields

end PageCall

namespace Theme

variable {theme : Theme} {origin : MemoryStore} {view : ViewFrame}

/-- Whether a yield was a render of the view in which all templates had relative names, in a store
with coherent artifacts. -/
def IsView (theme : Theme) (origin : MemoryStore) (view : ViewFrame) (yield : Yield MemoryStore) :
    Prop :=
  theme.Faithful origin yield.before.state.store ∧
    ∃ levels ≤ theme.settings.maxDepth, ∃ visits : List Visit,
      (∀ name, .entered name ∈ visits → RelativeName name) ∧
      theme.renderWatched (some view) levels view.name view.locals
          ⟨yield.before.frames, ⟨yield.before.state, []⟩⟩ =
        .ok () ⟨yield.after.frames, ⟨yield.after.state, visits⟩⟩

def KeepsViews (theme : Theme) (origin : MemoryStore) (view : ViewFrame)
    (before after : Yielding MemoryStore) : Prop :=
  theme.Faithful origin before.room.store →
    theme.Faithful origin after.room.store ∧
    ∀ yield ∈ after.yields, yield ∈ before.yields ∨ theme.IsView origin view yield

theorem keepsViews_inherited :
    Inherited fun action stage =>
      theme.KeepsViews origin view stage.state (finalState action stage).state := by
  apply inherited_finalState
  · exact fun state faithful => ⟨faithful, fun yield member => .inl member⟩
  · intro first second third before after faithful
    obtain ⟨faithful', views⟩ := before faithful
    obtain ⟨faithful'', views'⟩ := after faithful'
    refine ⟨faithful'', fun yield member => ?_⟩
    rcases views' yield member with earlier | isView
    · exact views yield earlier
    · exact .inr isView

def VouchesForViews {α : Type} (theme : Theme) (origin : MemoryStore) (view : ViewFrame)
    (watched : Render (Watched MemoryStore) α) (action : Render (Yielding MemoryStore) α) : Prop :=
  Vouches Yielding.room RelativeName
    (fun action stage => theme.KeepsViews origin view stage.state (finalState action stage).state)
    watched action

theorem fetch_keepsViews (separate : theme.Separate) (blind : theme.compilers.SpellingBlind)
    {name : String} (relative : RelativeName name) (stage : Stage (Yielding MemoryStore)) :
    theme.KeepsViews origin view stage.state
      (finalState (Yielding.onRoom (theme.fetch name)) stage).state := by
  intro faithful
  have kept := faithful.fetch separate blind relative
  unfold finalState Yielding.onRoom at *
  cases result : theme.fetch name stage.state.room with
  | ok found after =>
      rw [result] at kept
      exact ⟨kept, fun yield member => .inl member⟩
  | error error after =>
      rw [result] at kept
      exact ⟨kept, fun yield member => .inl member⟩

theorem noting_vouches {levels : Nat} (within : levels ≤ theme.settings.maxDepth)
    {yield : Render (Yielding MemoryStore) Unit}
    (vouches : theme.VouchesForViews origin view
      (theme.renderWatched (some view) levels view.name view.locals) yield) :
    theme.VouchesForViews origin view
      (theme.renderWatched (some view) levels view.name view.locals) (Yielding.noting yield) := by
  intro stage
  obtain ⟨visits, same, keeps⟩ := vouches stage
  refine ⟨visits, ?_, ?_⟩
  · intro before
    rw [same before]
    unfold Yielding.noting
    cases yield stage with
    | ok => rfl
    | error => rfl
  · intro relative faithful
    obtain ⟨faithful', views⟩ := keeps relative faithful
    have watched := same []
    unfold finalState Yielding.noting at *
    cases result : yield stage with
    | error error after =>
        rw [result] at faithful' views
        exact ⟨faithful', views⟩
    | ok _ after =>
        rw [result] at faithful' views watched
        refine ⟨faithful', fun noted member => ?_⟩
        rcases List.mem_append.mp member with earlier | last
        · exact views noted earlier
        · cases List.mem_singleton.mp last
          exact .inr ⟨faithful, levels, within, visits, relative, watched⟩

theorem renderWatched_vouchesForViews (separate : theme.Separate)
    (blind : theme.compilers.SpellingBlind) {levels : Nat}
    (within : levels ≤ theme.settings.maxDepth) :
    ∀ name locals, theme.VouchesForViews origin view
      (theme.renderWatched (some view) levels name locals)
      (theme.renderYielding (some view) levels name locals) := by
  induction levels with
  | zero =>
      intro name locals
      exact .refusal keepsViews_inherited name _
  | succ levels ih =>
      intro name locals
      have fewer : levels ≤ theme.settings.maxDepth := Nat.le_of_succ_le within
      have supposing := (@keepsViews_inherited theme origin view).supposing (RelativeName name)
      rw [renderWatched_succ]
      apply Vouches.visiting
      apply Vouches.bind supposing
      · apply Vouches.unvisited
        · intro stage before
          unfold Watched.onRoom Yielding.onRoom
          dsimp only
          cases theme.fetch name stage.state.room with
          | ok => rfl
          | error => rfl
        · exact fun stage relative => fetch_keepsViews separate blind relative stage
      · intro found
        have hosts := @Vouches.hostOver _ _ _ _ _ supposing (some view) _ _ fun name locals =>
          (ih fewer name locals).mono fun _ keeps _ => keeps
        apply Template.run_related (Vouches.compatible supposing _ _)
        exact {
          yieldView := (noting_vouches fewer (ih fewer _ _)).mono fun _ keeps _ => keeps
          renderPartial := hosts.renderPartial
          partialContent := hosts.partialContent }

theorem IsView.render {yield : Yield MemoryStore} (isView : theme.IsView origin view yield) :
    ∃ visits : List Visit, (∀ name, .entered name ∈ visits → RelativeName name) ∧
      theme.renderWatched (some view) theme.settings.maxDepth view.name view.locals
          ⟨yield.before.frames, ⟨yield.before.state, []⟩⟩ =
        .ok () ⟨yield.after.frames, ⟨yield.after.state, visits⟩⟩ := by
  obtain ⟨-, levels, within, visits, relative, runs⟩ := isView
  refine ⟨visits, relative, ?_⟩
  rcases theme.renderWatched_deeper (some view) within view.name view.locals
    ⟨yield.before.frames, ⟨yield.before.state, []⟩⟩ with ⟨error, after, fails, -⟩ | same
  · rw [runs] at fails
    cases fails
  · exact same.symm.trans runs

theorem IsView.repeatable (separate : theme.Separate) (blind : theme.compilers.SpellingBlind)
    {yield : Yield MemoryStore} (isView : theme.IsView origin view yield) :
    theme.renderTemplate (some view) view.name view.locals yield.before = .ok () yield.after ∧
      theme.Repeatable origin (theme.renderTemplate (some view) view.name view.locals)
        yield.before.frames () yield.after.frames := by
  obtain ⟨visits, relative, runs⟩ := isView.render
  obtain ⟨visits', same, determined⟩ := renderWatched_vouches
    (theme.determined_inherited origin)
    (fun _ relative => fetch_determined separate blind relative) (some view)
    theme.settings.maxDepth view.name view.locals yield.before
  have watched := (same []).symm.trans runs
  cases result : theme.renderNested (some view) theme.settings.maxDepth view.name view.locals
      yield.before with
  | error error after =>
      rw [result] at watched
      cases watched
  | ok _ after =>
      rw [result] at watched
      injection watched with _ sameStage
      injection sameStage with sameFrames sameState
      injection sameState with sameRoom sameVisits
      rw [List.nil_append] at sameVisits
      have ends : after = yield.after := congrArg₂ Stage.mk sameFrames sameRoom
      rw [← sameVisits] at relative
      rw [ends] at result
      exact ⟨result, (determined relative isView.1).2 () _ result⟩

/-- Whether a yield wrote a text, which is what the view writes on empty frames where the yield was
made, and what it writes on them in any store with coherent artifacts for the same sources. -/
structure Wrote (theme : Theme) (origin : MemoryStore) (view : ViewFrame) (text : String)
    (yield : Yield MemoryStore) : Prop where
  added : yield.after.frames = yield.before.frames.write text
  renders : theme.renderTemplate (some view) view.name view.locals ⟨.empty, yield.before.state⟩ =
    .ok () ⟨⟨text, []⟩, yield.after.state⟩
  repeatable : theme.Repeatable origin (theme.renderTemplate (some view) view.name view.locals)
    .empty () ⟨text, []⟩

theorem IsView.wrote (separate : theme.Separate) (blind : theme.compilers.SpellingBlind)
    {yield : Yield MemoryStore} (isView : theme.IsView origin view yield) :
    ∃ text, theme.Wrote origin view text yield := by
  obtain ⟨runs, repeatable⟩ := isView.repeatable separate blind
  have appends := theme.renderNested_appends (σ := MemoryStore) (some view)
    theme.settings.maxDepth view.name view.locals
  obtain ⟨text, added, runsOn⟩ := appends.ok_on runs
  have page : Frames.empty.write text = ⟨text, []⟩ := by
    simp [Frames.write, Frames.empty]
  refine ⟨text, added, ?_, ?_⟩
  · rw [← page]
    exact runsOn .empty
  · rw [added] at repeatable
    rw [← page]
    exact repeatable.onFrames appends .empty

theorem Wrote.same {one two : Yield MemoryStore} {text other : String}
    (wrote : theme.Wrote origin view text one) (wrote' : theme.Wrote origin view other two)
    (faithful : theme.Faithful origin two.before.state.store) : other = text := by
  obtain ⟨-, -, same⟩ := wrote.repeatable.alike _ _ _ faithful wrote'.renders
  exact (Frames.mk.inj same).1

end Theme

namespace PageCall

open Theme (renderWatched_vouchesForViews)

variable {theme : Theme} {room : Workroom MemoryStore}

theorem yielding_noted (separate : theme.Separate) (blind : theme.compilers.SpellingBlind)
    {name : String} {options : ViewOptions}
    (relative : ∀ entered ∈ (view name options).entered theme room, RelativeName entered)
    (coherent : ∀ file, theme.IsSource file → theme.Coherent room.store file) :
    mapState Yielding.plain ((view name options).yielding theme ⟨.empty, ⟨room, []⟩⟩) =
        (view name options).rendering theme ⟨.empty, room⟩ ∧
      ∀ yield ∈ (view name options).yields theme room,
        theme.IsView room.store ⟨name, options.locals⟩ yield := by
  have vouches : theme.VouchesForViews room.store ⟨name, options.locals⟩
      ((view name options).watched theme) ((view name options).yielding theme) :=
    renderWatched_vouchesForViews separate blind (Nat.le_refl _) _ _
  constructor
  · obtain ⟨visits, same, -⟩ := vouches ⟨.empty, ⟨room, []⟩⟩
    obtain ⟨visits', -, -, same'⟩ := (view name options).watched_watches theme .empty room
    have watched := (same []).symm.trans (same' [])
    have rooms := congrArg (mapState Watched.plain) watched
    rw [mapState_mapState, mapState_withVisits] at rooms
    exact rooms
  · have keeps : theme.KeepsViews room.store ⟨name, options.locals⟩ _ _ :=
      vouches.holds ⟨room, []⟩ relative
    obtain ⟨-, views⟩ := keeps ⟨fun _ _ => rfl, coherent⟩
    intro yield member
    rcases views yield member with absent | isView
    · cases absent
    · exact isView

/-- All yields of a page that succeed write one text, whatever is rendered around them and whatever
was written and compiled by then. It is the text of the view, rendered with its own locals on empty
frames. -/
theorem yields_write_view (separate : theme.Separate) (blind : theme.compilers.SpellingBlind)
    {name : String} {options : ViewOptions}
    (relative : ∀ entered ∈ (view name options).entered theme room, RelativeName entered)
    (coherent : ∀ file, theme.IsSource file → theme.Coherent room.store file) :
    mapState Yielding.plain ((view name options).yielding theme ⟨.empty, ⟨room, []⟩⟩) =
        (view name options).rendering theme ⟨.empty, room⟩ ∧
      ∃ text, ∀ yield ∈ (view name options).yields theme room,
        theme.Wrote room.store ⟨name, options.locals⟩ text yield := by
  obtain ⟨noted, views⟩ := yielding_noted separate blind relative coherent
  refine ⟨noted, ?_⟩
  cases found : (view name options).yields theme room with
  | nil => exact ⟨"", fun yield member => by cases member⟩
  | cons first rest =>
      rw [found] at views
      obtain ⟨text, wrote⟩ := (views first List.mem_cons_self).wrote separate blind
      refine ⟨text, fun yield member => ?_⟩
      obtain ⟨other, wrote'⟩ := (views yield member).wrote separate blind
      rw [← wrote.same wrote' (views yield member).1]
      exact wrote'

def newsSite : MemoryStore :=
  ((MemoryStore.empty.addFile (.ofString "./views/layouts/default.php")
    "<% yield() %>:<%= partial_content(\"box\", title: \"box\") %>").addFile
    (.ofString "./views/_box.haml") ".box\n  - yield()").addFile
    (.ofString "./views/index.haml") "%p= title"

theorem news_yields_write_view :
    let options : ViewOptions := ⟨"default", ⟨[("title", .string "news")]⟩, []⟩
    let call := view "index" options
    let room : Workroom MemoryStore := .ofStore newsSite
    (call.yields Theme.standard room).map (·.before.frames.below.length) = [0, 1] ∧
      mapState Yielding.plain (call.yielding Theme.standard ⟨.empty, ⟨room, []⟩⟩) =
        call.rendering Theme.standard ⟨.empty, room⟩ ∧
      ∃ text, ∀ yield ∈ call.yields Theme.standard room,
        Theme.standard.Wrote newsSite ⟨"index", options.locals⟩ text yield := by
  intro options call room
  have relative : ∀ entered ∈ call.entered Theme.standard room, RelativeName entered := by
    decide +kernel
  have clean : newsSite.NoFilesBelow Theme.standard.settings.tempRoot :=
    (((MemoryStore.NoFilesBelow.empty _).addFile (by decide +kernel) _).addFile
      (by decide +kernel) _).addFile (by decide +kernel) _
  refine ⟨by decide +kernel, ?_⟩
  exact yields_write_view Theme.standard_separate Compilers.standard_spellingBlind relative
    fun _ => Theme.coherent_of_noFilesBelow Theme.standard_separate clean

end PageCall

end ThemeRender
