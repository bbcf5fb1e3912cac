import ThemeRender.Markup.Compiler
import ThemeRender.Proofs.Theme.Delivery
import ThemeRender.Proofs.Theme.Visits
import ThemeRender.Store.Memory

namespace ThemeRender

def RenderError.isTooDeep : RenderError → Bool
  | .runtime _ _ (.nestedTooDeep _) => true
  | _ => false

theorem RenderError.message_tooDeep (name : String) (limit : Nat) :
    (RenderError.runtime name none (.nestedTooDeep limit)).message =
      s!"{name}: templates nested more than {limit} deep; is a partial or yield recursing?" := by
  have joined : ": " ++ "templates nested more than " = ": templates nested more than " := by decide
  unfold message runtimeMessage RuntimeFault.message
  simp only [toString, String.append_assoc, ← joined]

/-! A higher limit -/

variable {τ α β : Type}

/-- Whether a computation does what another one does, unless it ends too deep. -/
def UnlessTooDeep (shallow deep : Render τ α) : Prop :=
  ∀ stage, (∃ error after, shallow stage = .error error after ∧ error.isTooDeep = true) ∨
    shallow stage = deep stage

namespace UnlessTooDeep

open Outcome (bind_ok bind_error)

theorem refl (action : Render τ α) : UnlessTooDeep action action :=
  fun _ => .inr rfl

theorem bind {shallow deep : Render τ α} {next next' : α → Render τ β}
    (agrees : UnlessTooDeep shallow deep) (nextAgrees : ∀ a, UnlessTooDeep (next a) (next' a)) :
    UnlessTooDeep (shallow >>= next) (deep >>= next') := by
  intro stage
  rcases agrees stage with ⟨error, after, fails, tooDeep⟩ | same
  · exact .inl ⟨error, after, bind_error fails, tooDeep⟩
  · cases outcome : shallow stage with
    | ok a after =>
        rw [bind_ok outcome, bind_ok (same.symm.trans outcome)]
        exact nextAgrees a after
    | error error after =>
        rw [bind_error outcome, bind_error (same.symm.trans outcome)]
        exact .inr rfl

theorem compatible :
    Template.Compatible fun shallow deep => UnlessTooDeep (τ := τ) shallow deep where
  pure a := refl (pure a)
  throw _ _ _ := refl (throw _)
  write text := refl (Staged.write text)
  bind := bind

theorem capture {shallow deep : Render τ Unit} (agrees : UnlessTooDeep shallow deep) :
    UnlessTooDeep (Staged.capture shallow) (Staged.capture deep) := by
  intro stage
  unfold Staged.capture
  rcases agrees { stage with frames := stage.frames.push } with ⟨error, after, fails, tooDeep⟩ | same
  · rw [fails]
    exact .inl ⟨error, _, rfl, tooDeep⟩
  · rw [same]
    exact .inr rfl

theorem hostOver {view? : Option ViewFrame} {render render' : String → Locals → Render τ Unit}
    (agrees : ∀ name locals, UnlessTooDeep (render name locals) (render' name locals)) :
    Template.Host.Related (fun shallow deep => UnlessTooDeep shallow deep)
      (Theme.hostOver view? render) (Theme.hostOver view? render') where
  yieldView := by
    cases view? with
    | none => exact refl _
    | some view => exact agrees view.name view.locals
  renderPartial name locals := agrees (partialName name) locals
  partialContent name locals := (agrees (partialName name) locals).capture

theorem visiting {σ : Type} {shallow deep : Render (Watched σ) Unit} (name : String)
    (agrees : UnlessTooDeep shallow deep) :
    UnlessTooDeep (Watched.visiting name shallow) (Watched.visiting name deep) := by
  intro stage
  unfold Watched.visiting
  rcases (refl (Watched.note (.entered name))).bind (fun _ => agrees) stage with
    ⟨error, after, fails, tooDeep⟩ | same
  · rw [fails]
    exact .inl ⟨error, _, rfl, tooDeep⟩
  · rw [same]
    exact .inr rfl

end UnlessTooDeep

namespace Theme

variable {σ : Type} [Store σ]

def withMaxDepth (theme : Theme) (limit : Nat) : Theme :=
  { theme with settings := { theme.settings with maxDepth := limit } }

theorem renderNested_deeper (theme : Theme) (limit limit' : Nat) (view? : Option ViewFrame)
    {levels levels' : Nat} (deeper : levels ≤ levels') :
    ∀ name locals,
      UnlessTooDeep ((theme.withMaxDepth limit).renderNested (σ := σ) view? levels name locals)
        ((theme.withMaxDepth limit').renderNested view? levels' name locals) := by
  induction levels generalizing levels' with
  | zero =>
      intro name locals stage
      exact .inl ⟨_, _, rfl, rfl⟩
  | succ levels ih =>
      obtain ⟨levels', rfl⟩ : ∃ fewer, levels' = fewer + 1 := ⟨levels' - 1, by omega⟩
      intro name locals
      unfold renderNested
      apply (UnlessTooDeep.refl _).bind
      intro file
      apply (UnlessTooDeep.refl _).bind
      intro executable
      apply (UnlessTooDeep.refl _).bind
      intro loaded
      exact Template.run_related UnlessTooDeep.compatible (UnlessTooDeep.hostOver (ih (by omega)))
        _ _ _ _

theorem renderWatched_deeper (theme : Theme) (view? : Option ViewFrame) {levels levels' : Nat}
    (deeper : levels ≤ levels') :
    ∀ name locals, UnlessTooDeep (theme.renderWatched (σ := σ) view? levels name locals)
      (theme.renderWatched view? levels' name locals) := by
  induction levels generalizing levels' with
  | zero =>
      intro name locals stage
      exact .inl ⟨_, _, rfl, rfl⟩
  | succ levels ih =>
      obtain ⟨levels', rfl⟩ : ∃ fewer, levels' = fewer + 1 := ⟨levels' - 1, by omega⟩
      intro name locals
      unfold renderWatched
      apply UnlessTooDeep.visiting
      apply (UnlessTooDeep.refl _).bind
      intro file
      apply (UnlessTooDeep.refl _).bind
      intro executable
      apply (UnlessTooDeep.refl _).bind
      intro loaded
      exact Template.run_related UnlessTooDeep.compatible (UnlessTooDeep.hostOver (ih (by omega)))
        _ _ _ _

/-! Counting the templates around one -/

/-- A renderer that is told how many templates are around the one to render, that refuses to render
one more than the limit, and that tells the templates inside that there is one more. -/
def CountsDepth (theme : Theme) (view? : Option ViewFrame)
    (render : Nat → String → Locals → Rendering σ Unit) : Prop :=
  ∀ depth name locals, render depth name locals =
    if theme.settings.maxDepth ≤ depth then
      throw (.runtime name none (.nestedTooDeep theme.settings.maxDepth))
    else do
      let file ← Staged.onState (theme.findFile name)
      let executable ← Staged.onState (theme.ensureCompiled file)
      let (source, nodes) ← Staged.onState (load executable)
      Template.run (hostOver view? (render (depth + 1))) executable.display source locals nodes

theorem renderNested_countsDepth (theme : Theme) (view? : Option ViewFrame) :
    theme.CountsDepth view? fun depth =>
      theme.renderNested (σ := σ) view? (theme.settings.maxDepth - depth) := by
  intro depth name locals
  dsimp only
  split
  · rename_i full
    rw [Nat.sub_eq_zero_of_le full, renderNested]
  · rename_i short
    have oneMore : theme.settings.maxDepth - depth =
        theme.settings.maxDepth - (depth + 1) + 1 := by omega
    rw [oneMore, renderNested]

/-- What a renderer does that counts depth is settled by the limit, whatever templates call. -/
theorem CountsDepth.eq_renderNested {theme : Theme} {view? : Option ViewFrame}
    {render : Nat → String → Locals → Rendering σ Unit} (counts : theme.CountsDepth view? render)
    (levels : Nat) :
    ∀ depth, theme.settings.maxDepth - depth = levels →
      render depth = theme.renderNested view? levels := by
  induction levels with
  | zero =>
      intro depth full
      funext name locals
      rw [counts, if_pos (by omega), renderNested]
  | succ levels ih =>
      intro depth short
      funext name locals
      rw [counts, if_neg (by omega), ih (depth + 1) (by omega), renderNested]

theorem countsDepth_iff (theme : Theme) (view? : Option ViewFrame)
    (render : Nat → String → Locals → Rendering σ Unit) :
    theme.CountsDepth view? render ↔
      render = fun depth => theme.renderNested view? (theme.settings.maxDepth - depth) := by
  constructor
  · intro counts
    funext depth
    exact counts.eq_renderNested _ depth rfl
  · rintro rfl
    exact theme.renderNested_countsDepth view?

end Theme

namespace PageCall

variable {σ : Type} [Store σ]

def watched (theme : Theme) : PageCall → Render (Watched σ) Unit
  | .view name options =>
      theme.renderWatched (some ⟨name, options.locals⟩) theme.settings.maxDepth
        s!"layouts/{options.layout}" options.locals
  | .fragment name locals =>
      theme.renderWatched none theme.settings.maxDepth (partialName name) locals

def EndsTooDeep (theme : Theme) (room : Workroom σ) (call : PageCall) : Prop :=
  ∃ error after, call.rendering theme ⟨.empty, room⟩ = .error error after ∧
    error.isTooDeep = true

/-- The visits of the render of a page: never more templates inside one another than the limit, none
left in the end, and one refused only at the limit, which then is what the page ends with. -/
structure Visits (theme : Theme) (room : Workroom σ) (call : PageCall) (visits : List Visit) :
    Prop where
  noted : call.watched theme ⟨.empty, ⟨room, []⟩⟩ =
    withVisits visits (call.rendering theme ⟨.empty, room⟩)
  bounded : ∀ before after, visits = before ++ after →
    (Visit.chain before).length ≤ theme.settings.maxDepth
  ended : Visit.chain visits = []
  refused : ∀ before name after, visits = before ++ .refused name :: after →
    (Visit.chain before).length = theme.settings.maxDepth ∧
      ∀ errorPage, (call.deliver theme errorPage .unlimited room).result =
        .error (.halted "TemplateRuntimeError"
          s!"{name}: templates nested more than {theme.settings.maxDepth} deep; is a partial or yield recursing?")

theorem watched_watches (theme : Theme) (call : PageCall) :
    Watches theme.settings.maxDepth theme.settings.maxDepth (call.watched (σ := σ) theme)
      (call.rendering theme) := by
  cases call with
  | view => exact theme.renderWatched_watches _ _ _ _
  | fragment => exact theme.renderWatched_watches _ _ _ _

theorem exists_visits (theme : Theme) (room : Workroom σ) (call : PageCall) :
    ∃ visits, call.Visits theme room visits := by
  obtain ⟨visits, paced, refused, same⟩ := call.watched_watches theme .empty room
  have whole := paced [] (Nat.zero_add _)
  refine ⟨visits, same [], ?_, whole.foldl, ?_⟩
  · rintro before after rfl
    obtain ⟨middle, first, -⟩ := whole.split
    rw [Visit.chain, first.foldl]
    exact first.length_le (Nat.zero_le _)
  · rintro before name after rfl
    obtain ⟨middle, first, rest⟩ := whole.split
    rw [Visit.chain, first.foldl]
    cases rest with
    | refused name full rest =>
        refine ⟨full, fun errorPage => ?_⟩
        obtain ⟨stage, fails⟩ := refused name (List.mem_append_right _ List.mem_cons_self)
        rw [deliver_eq, ← RenderError.message_tooDeep]
        exact (Theme.deliverPage_error fails none).whole fun _ limited => by cases limited

theorem deliver_deeper (theme : Theme) (errorPage : ErrorPage) (call : PageCall) (sink : Sink)
    (room : Workroom σ) {limit limit' : Nat} (deeper : limit ≤ limit')
    (settled : ¬ call.EndsTooDeep (theme.withMaxDepth limit) room) :
    call.deliver (theme.withMaxDepth limit') errorPage sink room =
      call.deliver (theme.withMaxDepth limit) errorPage sink room := by
  have agrees : UnlessTooDeep (call.rendering (σ := σ) (theme.withMaxDepth limit))
      (call.rendering (theme.withMaxDepth limit')) := by
    cases call with
    | view => exact theme.renderNested_deeper _ _ _ deeper _ _
    | fragment => exact theme.renderNested_deeper _ _ _ deeper _ _
  rw [deliver_eq, deliver_eq]
  rcases agrees ⟨.empty, room⟩ with tooDeep | same
  · exact absurd tooDeep settled
  · unfold Theme.deliverPage
    rw [same]

/-- A page that does not end too deep is the same under every higher limit. Whatever templates call,
the limit settles what a render does: it never renders more templates inside one another, and once
one more is asked for, that is the end of the page. -/
theorem depth_limit_only_bounds (theme : Theme) (errorPage : ErrorPage) (call : PageCall)
    (sink : Sink) (room : Workroom σ) :
    (∀ limit limit', limit ≤ limit' → ¬ call.EndsTooDeep (theme.withMaxDepth limit) room →
      call.deliver (theme.withMaxDepth limit') errorPage sink room =
        call.deliver (theme.withMaxDepth limit) errorPage sink room) ∧
    (∀ view? render, theme.CountsDepth (σ := σ) view? render ↔
      render = fun depth => theme.renderNested view? (theme.settings.maxDepth - depth)) ∧
    ∃ visits, call.Visits theme room visits := by
  refine ⟨?_, theme.countsDepth_iff, call.exists_visits theme room⟩
  intro limit limit' deeper settled
  exact call.deliver_deeper theme errorPage sink room deeper settled

/-! A partial that calls itself and one that does not -/

def loopSite : MemoryStore :=
  (MemoryStore.empty.addFile (.ofString "./views/_loop.php") "<% partial(\"loop\") %>").addFile
    (.ofString "./views/_card.php") "[card]"

def flatTheme : Theme :=
  Theme.withMaxDepth ⟨.default, .standard⟩ 1

theorem card_alike_under_higher_limit :
    let room : Workroom MemoryStore := .ofStore loopSite
    (PageCall.fragment "loop" .empty).EndsTooDeep flatTheme room ∧
      (PageCall.fragment "card" .empty).deliver (flatTheme.withMaxDepth 40) htmlErrorPage
          .unlimited room =
        (PageCall.fragment "card" .empty).deliver flatTheme htmlErrorPage .unlimited room := by
  intro room
  have loops : (match (PageCall.fragment "loop" .empty).rendering flatTheme ⟨.empty, room⟩ with
      | .error error _ => error.isTooDeep
      | .ok _ _ => false) = true := by decide +kernel
  have rendered : (match (PageCall.fragment "card" .empty).rendering flatTheme ⟨.empty, room⟩ with
      | .error _ _ => false
      | .ok _ _ => true) = true := by decide +kernel
  constructor
  · split at loops
    · rename_i error after fails
      exact ⟨error, after, fails, loops⟩
    · cases loops
  · apply (depth_limit_only_bounds flatTheme htmlErrorPage (.fragment "card" .empty) .unlimited
      room).1 1 40 (by decide)
    rintro ⟨error, after, fails, -⟩
    change (PageCall.fragment "card" .empty).rendering flatTheme ⟨.empty, room⟩ = _ at fails
    rw [fails] at rendered
    cases rendered

end PageCall

end ThemeRender
