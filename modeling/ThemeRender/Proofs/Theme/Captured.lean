import ThemeRender.Proofs.Template.Recast
import ThemeRender.Proofs.Template.SameNodes
import ThemeRender.Proofs.Theme.Appending
import ThemeRender.Proofs.Theme.Candidates
import ThemeRender.Proofs.Theme.Coherence
import ThemeRender.Proofs.Theme.Delivery
import ThemeRender.Proofs.Theme.Edited
import ThemeRender.Proofs.Theme.Fetching

namespace ThemeRender

variable {σ τ α β γ δ : Type}

/-! A capture and its body -/

namespace Staged

variable {ε : Type} {body : Staged ε σ Unit}

theorem Appends.capture_ok_iff (appends : Appends body) {frames : Frames} {state : σ}
    {text : String} {after : Stage σ} :
    Staged.capture body ⟨frames, state⟩ = .ok text after ↔
      after.frames = frames ∧ body ⟨frames, state⟩ = .ok () ⟨frames.write text, after.state⟩ := by
  obtain ⟨⟨result, written, final⟩, runs⟩ := appends state
  unfold Staged.capture
  rw [runs, runs]
  cases result with
  | error error => simp [Effect.on]
  | ok =>
      simp only [Effect.on, Frames.push, Frames.pop, Frames.write, String.empty_append]
      constructor
      · intro captured
        cases captured
        exact ⟨rfl, rfl⟩
      · rintro ⟨rfl, rendered⟩
        injection rendered with _ same
        injection same with sameFrames sameState
        injection sameFrames with sameTop _
        rw [String.append_right_inj _] at sameTop
        rw [sameTop, sameState]

theorem Appends.capture_error_iff (appends : Appends body) {frames : Frames} {state : σ}
    {error : ε} {after : Stage σ} :
    Staged.capture body ⟨frames, state⟩ = .error error after ↔
      after.frames = frames ∧
        ∃ text, body ⟨frames, state⟩ = .error error ⟨frames.write text, after.state⟩ := by
  obtain ⟨⟨result, written, final⟩, runs⟩ := appends state
  unfold Staged.capture
  rw [runs, runs]
  cases result with
  | ok => simp [Effect.on]
  | error fault =>
      simp only [Effect.on, Frames.push, Frames.pop, Frames.write]
      constructor
      · intro failed
        cases failed
        exact ⟨rfl, written, rfl⟩
      · rintro ⟨rfl, text, failed⟩
        injection failed with same sameStage
        injection sameStage with _ sameState
        rw [same, sameState]

end Staged

/-! Renders that succeed alike -/

/-- Where a first computation succeeds, a second does to the image of its state what the first does,
with a related result. -/
def Reproduced (f : σ → τ) (Related : α → β → Prop) (first : Render σ α) (second : Render τ β) :
    Prop :=
  ∀ frames state a after, first ⟨frames, state⟩ = .ok a after →
    ∃ b, Related a b ∧ second ⟨frames, f state⟩ = .ok b ⟨after.frames, f after.state⟩

namespace Reproduced

variable {f : σ → τ}

theorem bind {Related : α → β → Prop} {After : γ → δ → Prop} {first : Render σ α}
    {second : Render τ β} {next : α → Render σ γ} {next' : β → Render τ δ}
    (reproduced : Reproduced f Related first second)
    (nextReproduced : ∀ a b, Related a b → Reproduced f After (next a) (next' b)) :
    Reproduced f After (first >>= next) (second >>= next') := by
  intro frames state c last ran
  cases runs : first ⟨frames, state⟩ with
  | error error after =>
      rw [Outcome.bind_error runs] at ran
      cases ran
  | ok a after =>
      rw [Outcome.bind_ok runs] at ran
      obtain ⟨b, related, same⟩ := reproduced frames state a after runs
      rw [Outcome.bind_ok same]
      exact nextReproduced a b related after.frames after.state c last ran

theorem throw (Related : α → β → Prop) (error : RenderError) (second : Render τ β) :
    Reproduced f Related (throw error) second := by
  intro frames state a after ran
  cases ran

theorem refl (action : Render σ α) : Reproduced id (· = ·) action action :=
  fun _ _ a _ ran => ⟨a, rfl, ran⟩

theorem compatible :
    Template.Compatible fun {α} first second => Reproduced f (α := α) (· = ·) first second where
  pure a := by
    intro frames state b after ran
    cases ran
    exact ⟨a, rfl, rfl⟩
  throw _ _ _ := .throw _ _ _
  write text := by
    intro frames state b after ran
    cases ran
    exact ⟨(), rfl, rfl⟩
  bind reproduced nextReproduced := reproduced.bind fun a _ same => same ▸ nextReproduced a

theorem capture {body : Render σ Unit} {body' : Render τ Unit}
    (reproduced : Reproduced f (· = ·) body body') :
    Reproduced f (· = ·) (Staged.capture body) (Staged.capture body') := by
  intro frames state text last captured
  obtain ⟨after, runs, rfl, rfl⟩ := Staged.capture_ok_iff.mp captured
  obtain ⟨_, -, same⟩ := reproduced frames.push state () after runs
  exact ⟨_, rfl, Staged.capture_ok_iff.mpr ⟨_, same, rfl, rfl⟩⟩

/-- A body that only appends may as well be captured and written. -/
theorem captured {body : Render σ Unit} {body' : Render τ Unit} (appends : Staged.Appends body)
    (reproduced : Reproduced f (· = ·) body body') :
    Reproduced f (· = ·) body (Staged.capture body' >>= Staged.write) := by
  intro frames state _ after ran
  obtain ⟨⟨result, text, final⟩, runs⟩ := appends state
  rw [runs] at ran
  cases result with
  | error error => cases ran
  | ok =>
      cases ran
      have rendered : body ⟨frames, state⟩ = .ok () ⟨frames.write text, final⟩ := runs frames
      have content : Staged.capture body ⟨frames, state⟩ = .ok text ⟨frames, final⟩ :=
        appends.capture_ok_iff.mpr ⟨rfl, rendered⟩
      obtain ⟨_, rfl, same⟩ := reproduced.capture frames state text _ content
      exact ⟨(), rfl, Outcome.bind_ok same⟩

theorem onState {action : EStateM RenderError σ α} {action' : EStateM RenderError τ α}
    (mirrors : Outcome.Mirrors f action action') {Holds : α → Prop}
    (holds : ∀ state a after, action state = .ok a after → Holds a) :
    Reproduced f (fun a b => a = b ∧ Holds a) (Staged.onState action) (Staged.onState action') := by
  intro frames state a last ran
  obtain ⟨after, runs, rfl⟩ := Staged.onState_ok_iff.mp ran
  have same := mirrors state
  rw [runs] at same
  exact ⟨a, ⟨rfl, holds _ _ _ runs⟩, Staged.onState_ok_iff.mpr ⟨_, same, rfl⟩⟩

end Reproduced

namespace Theme

open Template (Captures Recast)

theorem hostOver_captures {f : σ → τ} (view? : Option ViewFrame)
    {render : String → Locals → Render σ Unit} {render' : String → Locals → Render τ Unit}
    (appends : ∀ name locals, Staged.Appends (render name locals))
    (reproduced : ∀ name locals, Reproduced f (· = ·) (render name locals) (render' name locals)) :
    Captures (fun {α} first second => Reproduced f (α := α) (· = ·) first second)
      (hostOver view? render) (hostOver view? render') where
  compatible := Reproduced.compatible
  hosts := {
    yieldView := by
      cases view? with
      | none => exact .throw _ _ _
      | some view => exact reproduced view.name view.locals
    renderPartial := fun name locals => reproduced (partialName name) locals
    partialContent := fun name locals => (reproduced (partialName name) locals).capture }
  fails := .throw _
  captured name locals := .captured (appends (partialName name) locals)
    (reproduced (partialName name) locals)

variable [Store σ] {edit : Path → String → String}

theorem findFile_spelled {theme : Theme} {name : String} {room after : Workroom σ}
    {file : TemplateFile} (found : theme.findFile name room = .ok file after) :
    Dialect.ofPath? file.path = some file.dialect := by
  rw [Theme.findFile, Outcome.get_bind] at found
  cases here : TemplateFile.find? room.store theme.settings.viewsRoot name with
  | none =>
      rw [here] at found
      cases found
  | some other =>
      rw [here] at found
      cases found
      exact (TemplateFile.of_find? here).2.2

/-- An edit of templates that may turn calls of a partial into output of its content. Sources that
have to be compiled are left as they are. -/
structure CapturesPartials (edit : Path → String → String) : Prop where
  sources : ∀ {path dialect}, Dialect.ofPath? path = some dialect → dialect.isCompiled = true →
    ∀ text, edit path text = text
  templates : ∀ path text nodes, Template.parse text = .ok nodes →
    ∃ nodes', Template.parse (edit path text) = .ok nodes' ∧ Recast nodes nodes'

theorem load_reproduced (captures : CapturesPartials edit) (path : Path) :
    Reproduced (Workroom.edited edit) (fun loaded loaded' => Recast loaded.2 loaded'.2)
      (Staged.onState (load (σ := σ) path)) (Staged.onState (load path)) := by
  intro frames room loaded last ran
  obtain ⟨after, loads, rfl⟩ := Staged.onState_ok_iff.mp ran
  obtain ⟨reads, parses, rfl⟩ := load_ok_iff.mp loads
  obtain ⟨nodes, parses', recast⟩ := captures.templates path _ _ parses
  have reads' : Store.read (after.edited edit).store path = .ok (edit path loaded.1) :=
    congrArg (Except.map (edit path)) reads
  have loads' : load path (after.edited edit) =
      .ok (edit path loaded.1, nodes) (after.edited edit) :=
    load_ok_iff.mpr ⟨reads', parses', rfl⟩
  exact ⟨_, recast, Staged.onState_ok_iff.mpr ⟨_, loads', rfl⟩⟩

theorem renderNested_edited (theme : Theme) (captures : CapturesPartials edit)
    (view? : Option ViewFrame) (levels : Nat) :
    ∀ name locals, Reproduced (Workroom.edited edit) (· = ·)
      (theme.renderNested (σ := σ) view? levels name locals)
      (theme.renderNested view? levels name locals) := by
  induction levels with
  | zero => exact fun _ _ => .throw _ _ _
  | succ levels ih =>
      intro name locals
      unfold renderNested
      apply (Reproduced.onState (theme.findFile_mirrors name) fun _ _ _ => findFile_spelled).bind
      rintro file _ ⟨rfl, spelled⟩
      apply (Reproduced.onState (ensureCompiled_mirrors (captures.sources spelled))
        fun _ _ _ _ => trivial).bind
      rintro executable _ ⟨rfl, -⟩
      apply (load_reproduced captures executable).bind
      rintro ⟨source, nodes⟩ ⟨source', nodes'⟩ recast
      exact (hostOver_captures view? (theme.renderNested_appends view? levels) ih).run _ _ _ _ _ recast

end Theme

namespace PageCall

open Theme (hostOver CapturesPartials)
open Template (Recast)

variable [Store σ] {edit : Path → String → String}

theorem rendering_reproduced (theme : Theme) (captures : CapturesPartials edit) (call : PageCall) :
    Reproduced (Workroom.edited edit) (· = ·) (call.rendering (σ := σ) theme)
      (call.rendering theme) := by
  cases call with
  | view => exact theme.renderNested_edited captures _ _ _ _
  | fragment => exact theme.renderNested_edited captures _ _ _ _

theorem deliver_edited (theme : Theme) (errorPage : ErrorPage) (captures : CapturesPartials edit)
    (call : PageCall) (sink : Sink) (room : Workroom σ)
    (complete : (call.deliver theme errorPage sink room).result = .ok ()) :
    call.deliver theme errorPage sink (room.edited edit) =
      ⟨.ok (), (call.deliver theme errorPage sink room).sink,
        (call.deliver theme errorPage sink room).room.edited edit⟩ := by
  rw [deliver_eq] at complete
  rw [deliver_eq, deliver_eq]
  unfold Theme.deliverPage at complete ⊢
  cases renders : call.rendering theme ⟨.empty, room⟩ with
  | error error after =>
      rw [renders] at complete
      cases complete
  | ok _ after =>
      obtain ⟨_, -, same⟩ := call.rendering_reproduced theme captures .empty room () after renders
      rw [renders] at complete
      rw [same]
      exact congrArg (PageOutcome.mk · _ _) complete

/-- A partial has content just when it can be rendered, and its content is the text that rendering it
adds to the top frame; with either the error and the store are the same, and a capture leaves all
frames as they were. So a template in which calls of partials are turned into output of their
content runs as before where it ran without failing, and so does every page of a theme whose
templates are edited that way. -/
theorem captured_partial_is_rendered_partial (theme : Theme) :
    (∀ view? levels name locals frames (room : Workroom σ),
      (∀ text after,
        (hostOver view? (theme.renderNested view? levels)).partialContent name locals
            ⟨frames, room⟩ = .ok text after ↔
          after.frames = frames ∧
          (hostOver view? (theme.renderNested view? levels)).renderPartial name locals
            ⟨frames, room⟩ = .ok () ⟨frames.write text, after.state⟩) ∧
      (∀ error after,
        (hostOver view? (theme.renderNested view? levels)).partialContent name locals
            ⟨frames, room⟩ = .error error after ↔
          after.frames = frames ∧ ∃ text,
          (hostOver view? (theme.renderNested view? levels)).renderPartial name locals
            ⟨frames, room⟩ = .error error ⟨frames.write text, after.state⟩)) ∧
    (∀ view? levels label source locals nodes nodes', Recast nodes nodes' →
      ∀ stage after : Stage (Workroom σ),
      Template.run (hostOver view? (theme.renderNested view? levels)) label source locals nodes
          stage = .ok () after →
        Template.run (hostOver view? (theme.renderNested view? levels)) label source locals nodes'
          stage = .ok () after) ∧
    (∀ edit, CapturesPartials edit → ∀ errorPage (call : PageCall) sink (room : Workroom σ),
      (call.deliver theme errorPage sink room).result = .ok () →
        call.deliver theme errorPage sink (room.edited edit) =
          ⟨.ok (), (call.deliver theme errorPage sink room).sink,
            (call.deliver theme errorPage sink room).room.edited edit⟩) := by
  refine ⟨?_, ?_, ?_⟩
  · intro view? levels name locals frames room
    have appends := theme.renderNested_appends (σ := σ) view? levels (partialName name) locals
    exact ⟨fun _ _ => appends.capture_ok_iff, fun _ _ => appends.capture_error_iff⟩
  · intro view? levels label source locals nodes nodes' recast stage after ran
    have appends := theme.renderNested_appends (σ := σ) view? levels
    have reproduced := (Theme.hostOver_captures view? appends fun _ _ => .refl _).run label label
      source source locals recast
    obtain ⟨_, -, same⟩ := reproduced stage.frames stage.state () after ran
    exact same
  · intro edit captures errorPage call sink room complete
    exact call.deliver_edited theme errorPage captures sink room complete

/-! A layout with a card -/

def cardLayout : Path := .ofString "./views/layouts/default.php"

def cardSite : MemoryStore :=
  (MemoryStore.empty.addFile cardLayout "<% partial(\"card\") %>").addFile
    (.ofString "./views/_card.php") "[card]"

def writeCard (path : Path) (text : String) : String :=
  if path = cardLayout ∧ text = "<% partial(\"card\") %>" then "<%= partial_content(\"card\") %>"
  else text

theorem writeCard_captures : CapturesPartials writeCard := by
  constructor
  · intro path dialect spelled compiled text
    have native : Dialect.ofPath? cardLayout = some .native := by decide +kernel
    unfold writeCard
    rw [if_neg]
    rintro ⟨rfl, -⟩
    rw [native] at spelled
    cases spelled
    cases compiled
  · intro path text nodes parses
    unfold writeCard
    split
    · rename_i here
      let card : List Template.Arg := [.positional (.literal (.string "card"))]
      have rendered : Template.parse "<% partial(\"card\") %>" =
          .ok [.eval ⟨.call "partial" card, ⟨3, 18⟩⟩] :=
        Template.parse_of_areSame (by decide +kernel)
      have written : Template.parse "<%= partial_content(\"card\") %>" =
          .ok [.output ⟨.call "partial_content" card, ⟨4, 27⟩⟩] :=
        Template.parse_of_areSame (by decide +kernel)
      rw [← here.2, parses] at rendered
      cases rendered
      exact ⟨_, written, .captured card rfl rfl .nil⟩
    · exact ⟨nodes, parses, .refl nodes⟩

theorem card_written_as_rendered :
    let call : PageCall := .view "index" (.withLayout "default")
    let outcome := call.deliver .standard htmlErrorPage .unlimited (.ofStore cardSite)
    call.deliver .standard htmlErrorPage .unlimited
        ((Workroom.ofStore cardSite).edited writeCard) =
      ⟨.ok (), outcome.sink, outcome.room.edited writeCard⟩ := by
  intro call outcome
  have complete : (match outcome.result with | .ok () => true | .error _ => false) = true := by
    decide +kernel
  refine (captured_partial_is_rendered_partial .standard).2.2 writeCard writeCard_captures
    htmlErrorPage call .unlimited (.ofStore cardSite) ?_
  change outcome.result = .ok ()
  split at complete
  · assumption
  · cases complete

end PageCall

end ThemeRender
