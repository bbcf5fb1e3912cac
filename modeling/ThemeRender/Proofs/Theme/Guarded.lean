import ThemeRender.Proofs.Theme.Depth
import ThemeRender.Proofs.Theme.CacheTransparency
/-!
Renders that no template spoils. As long as the templates that are entered have names of one kind, a
condition on the store is kept, and nothing ends the render because a template is not well formed.
-/

namespace ThemeRender

open Outcome (finalState bind_ok bind_error finalState_ok finalState_error finalState_bind_ok
  finalState_bind_error)

def RenderError.isTemplateFault : RenderError → Bool
  | .compile _ | .malformed _ _ => true
  | _ => false

def RenderError.faultTitles : List String :=
  ["HamlSyntaxError", "JadeSyntaxError", "TemplateSyntaxError"]

theorem RenderError.isTemplateFault_iff (error : RenderError) :
    error.isTemplateFault = true ↔ error.title ∈ faultTitles := by
  unfold isTemplateFault title faultTitles
  cases error with
  | compile fault =>
      obtain ⟨dialect, path, complaint⟩ := fault
      cases dialect <;> simp [CompileError.category]
  | missing => simp
  | notWritable => simp
  | malformed => simp
  | runtime => simp
  | file => simp

variable {σ α β : Type}

def KeepsStore (Holds : σ → Prop) (action : EStateM RenderError (Workroom σ) α) : Prop :=
  ∀ room, Holds room.store → Holds (finalState action room).store ∧
    ∀ error after, action room = .error error after → error.isTemplateFault = false

/-- A watched computation whose visits are added to those before. Where all templates entered so far
are `Fine`, the store still `Holds`, and no template's form is what the computation fails by. -/
structure Guarded (Fine : String → Prop) (Holds : σ → Prop) (action : Render (Watched σ) α) :
    Prop where
  notes : ∀ stage, stage.state.visits <+: (finalState action stage).state.visits
  keeps : ∀ stage, Holds stage.state.room.store →
    (∀ name, .entered name ∈ (finalState action stage).state.visits → Fine name) →
    Holds (finalState action stage).state.room.store ∧
      ∀ error after, action stage = .error error after → error.isTemplateFault = false

namespace Guarded

variable {Fine : String → Prop} {Holds : σ → Prop}

theorem noting {action : Render (Watched σ) α} (guarded : Guarded Fine Holds action) :
    Guarded Fine (fun _ => False) action :=
  ⟨guarded.notes, fun _ never => never.elim⟩

theorem quiet {action : Render (Watched σ) α}
    (same : ∀ stage, (finalState action stage).state = stage.state)
    (sound : ∀ stage error after, action stage = .error error after →
      error.isTemplateFault = false) : Guarded Fine Holds action where
  notes stage := by
    have kept := congrArg Watched.visits (same stage)
    exact ⟨[], by rw [kept, List.append_nil]⟩
  keeps stage holds _ := by
    rw [same]
    exact ⟨holds, sound stage⟩

theorem bind {first : Render (Watched σ) α} {next : α → Render (Watched σ) β}
    (guarded : Guarded Fine Holds first) (nextGuarded : ∀ a, Guarded Fine Holds (next a)) :
    Guarded Fine Holds (first >>= next) where
  notes stage := by
    have noted := guarded.notes stage
    cases result : first stage with
    | ok a after =>
        rw [finalState_ok result] at noted
        rw [finalState_bind_ok result]
        exact noted.trans ((nextGuarded a).notes after)
    | error error after =>
        rw [finalState_error result] at noted
        rw [finalState_bind_error result]
        exact noted
  keeps stage holds fine := by
    have kept := guarded.keeps stage holds
    cases result : first stage with
    | ok a after =>
        rw [finalState_bind_ok result] at fine ⊢
        rw [finalState_ok result] at kept
        have before := fun name member =>
          fine name (((nextGuarded a).notes after).subset member)
        rw [bind_ok result]
        exact (nextGuarded a).keeps after (kept before).1 fine
    | error error after =>
        rw [finalState_bind_error result] at fine ⊢
        rw [finalState_error result] at kept
        obtain ⟨holds', sound⟩ := kept fine
        refine ⟨holds', ?_⟩
        rw [bind_error result]
        rintro _ _ ⟨⟩
        exact sound error after result

theorem compatible (Fine : String → Prop) (Holds : σ → Prop) :
    Template.Compatible (σ := Watched σ) (τ := Watched σ)
      fun first _ => Guarded Fine Holds first where
  pure _ := quiet (fun _ => rfl) (by rintro _ _ _ ⟨⟩)
  throw _ _ _ := quiet (fun _ => rfl) (by rintro _ _ _ ⟨⟩; rfl)
  write _ := quiet (fun _ => rfl) (by rintro _ _ _ ⟨⟩)
  bind := bind

theorem onRoom {action : EStateM RenderError (Workroom σ) α} (keeps : KeepsStore Holds action) :
    Guarded Fine Holds (Watched.onRoom action) where
  notes stage := by
    unfold finalState Watched.onRoom
    cases action stage.state.room with
    | ok => exact List.prefix_rfl
    | error => exact List.prefix_rfl
  keeps stage holds _ := by
    obtain ⟨holds', sound⟩ := keeps stage.state.room holds
    unfold finalState Watched.onRoom at *
    cases result : action stage.state.room with
    | ok a room =>
        rw [result] at holds'
        exact ⟨holds', by rintro _ _ ⟨⟩⟩
    | error error room =>
        rw [result] at holds'
        refine ⟨holds', ?_⟩
        rintro _ _ ⟨⟩
        exact sound error room result

theorem capture {body : Render (Watched σ) Unit} (guarded : Guarded Fine Holds body) :
    Guarded Fine Holds (Staged.capture body) where
  notes stage := by
    rw [Staged.state_capture]
    exact guarded.notes ⟨stage.frames.push, stage.state⟩
  keeps stage holds fine := by
    have kept := guarded.keeps { stage with frames := stage.frames.push } holds
    unfold finalState Staged.capture at *
    cases result : body { stage with frames := stage.frames.push } with
    | ok a after =>
        rw [result] at kept fine
        exact ⟨(kept fine).1, by rintro _ _ ⟨⟩⟩
    | error error after =>
        rw [result] at kept fine
        refine ⟨(kept fine).1, ?_⟩
        rintro _ _ ⟨⟩
        exact (kept fine).2 error after rfl

theorem hostOver {view? : Option ViewFrame} {render : String → Locals → Render (Watched σ) Unit}
    (guarded : ∀ name locals, Guarded Fine Holds (render name locals)) :
    Template.Host.Related (fun first _ => Guarded Fine Holds first)
      (Theme.hostOver view? render) (Theme.hostOver view? render) where
  yieldView := by
    cases view? with
    | none => exact (compatible Fine Holds).throw _ _ _
    | some view => exact guarded view.name view.locals
  renderPartial name locals := guarded (partialName name) locals
  partialContent name locals := (guarded (partialName name) locals).capture

theorem visiting_enters (name : String) (body : Render (Watched σ) Unit)
    (stage : Stage (Watched σ)) :
    ∃ entered : Stage (Watched σ), entered.state.room = stage.state.room ∧
      entered.state.visits = stage.state.visits ++ [.entered name] ∧
      (finalState (Watched.visiting name body) stage).state.room =
        (finalState body entered).state.room ∧
      (finalState (Watched.visiting name body) stage).state.visits =
        (finalState body entered).state.visits ++ [.left] ∧
      ∀ error after, Watched.visiting name body stage = .error error after →
        ∃ inner, body entered = .error error inner := by
  let entered : Stage (Watched σ) :=
    ⟨stage.frames, ⟨stage.state.room, stage.state.visits ++ [.entered name]⟩⟩
  have runs : (do Watched.note (.entered name); body) stage = body entered := rfl
  refine ⟨entered, rfl, rfl, ?_⟩
  unfold finalState Watched.visiting
  rw [runs]
  cases body entered with
  | ok a after => exact ⟨rfl, rfl, by rintro _ _ ⟨⟩⟩
  | error error after =>
      refine ⟨rfl, rfl, ?_⟩
      rintro _ _ ⟨⟩
      exact ⟨after, rfl⟩

theorem visiting {name : String} {body : Render (Watched σ) Unit}
    (noting : Guarded Fine (fun _ => False) body) (guarded : Fine name → Guarded Fine Holds body) :
    Guarded Fine Holds (Watched.visiting name body) := by
  constructor
  · intro stage
    obtain ⟨entered, -, before, -, after, -⟩ := visiting_enters name body stage
    have noted := noting.notes entered
    rw [after]
    rw [before] at noted
    exact ((List.prefix_append _ _).trans noted).trans (List.prefix_append _ _)
  · intro stage holds fine
    obtain ⟨entered, room, before, left, after, fails⟩ := visiting_enters name body stage
    rw [after] at fine
    have inside := fun other member => fine other (List.mem_append_left _ member)
    have named : Fine name := by
      apply inside
      apply (noting.notes entered).subset
      rw [before]
      exact List.mem_append_right _ List.mem_cons_self
    rw [← room] at holds
    obtain ⟨holds', sound⟩ := (guarded named).keeps entered holds inside
    rw [left]
    refine ⟨holds', fun error final failed => ?_⟩
    obtain ⟨inner, failsInside⟩ := fails error final failed
    exact sound error inner failsInside

theorem refusal (name : String) (limit : Nat) :
    Guarded Fine Holds
      (do Watched.note (.refused name); throw (.runtime name none (.nestedTooDeep limit)) :
        Render (Watched σ) Unit) where
  notes _ := List.prefix_append _ _
  keeps _ holds _ := ⟨holds, by rintro _ _ ⟨⟩; rfl⟩

end Guarded

theorem Watched.onRoom_bind (first : EStateM RenderError (Workroom σ) α)
    (next : α → EStateM RenderError (Workroom σ) β) :
    Watched.onRoom (first >>= next) =
      Watched.onRoom first >>= fun a => Watched.onRoom (next a) := by
  funext stage
  cases result : first stage.state.room with
  | ok a room =>
      have watched : Watched.onRoom first stage =
          .ok a { stage with state := { stage.state with room } } := by
        unfold Watched.onRoom
        rw [result]
      rw [bind_ok watched]
      unfold Watched.onRoom
      rw [bind_ok result]
  | error error room =>
      have watched : Watched.onRoom first stage =
          .error error { stage with state := { stage.state with room } } := by
        unfold Watched.onRoom
        rw [result]
      rw [bind_error watched]
      unfold Watched.onRoom
      rw [bind_error result]

namespace Theme

variable [Store σ]

theorem renderWatched_succ (theme : Theme) (view? : Option ViewFrame) (levels : Nat)
    (name : String) (locals : Locals) :
    theme.renderWatched (σ := σ) view? (levels + 1) name locals =
      Watched.visiting name (Watched.onRoom (theme.fetch name) >>= fun found =>
        Template.run (hostOver view? (theme.renderWatched view? levels)) found.1.display found.2.1
          locals found.2.2) := by
  rw [renderWatched]
  unfold fetch
  simp only [Watched.onRoom_bind, bind_assoc]
  rfl

/-- A condition that fetching templates keeps is kept by a whole render. -/
theorem renderWatched_guarded (theme : Theme) {Fine : String → Prop} {Holds : σ → Prop}
    (fetches : ∀ name, Fine name → KeepsStore Holds (theme.fetch name))
    (view? : Option ViewFrame) (levels : Nat) :
    ∀ name locals, Guarded Fine Holds (theme.renderWatched (σ := σ) view? levels name locals) := by
  induction levels with
  | zero =>
      intro name locals
      exact .refusal name _
  | succ levels ih =>
      intro name locals
      rw [renderWatched_succ]
      apply Guarded.visiting
      · apply Guarded.bind (.onRoom fun _ never => never.elim)
        intro found
        exact Template.run_related (Guarded.compatible _ _)
          (Guarded.hostOver fun name locals => (ih name locals).noting) _ _ _ _
      · intro fine
        apply Guarded.bind (.onRoom (fetches name fine))
        intro found
        exact Template.run_related (Guarded.compatible _ _) (Guarded.hostOver ih) _ _ _ _

end Theme

namespace PageCall

variable [Store σ]

def entered (theme : Theme) (room : Workroom σ) (call : PageCall) : List String :=
  (finalState (call.watched theme) ⟨.empty, ⟨room, []⟩⟩).state.visits.filterMap fun
    | .entered name => some name
    | _ => none

theorem watched_guarded (theme : Theme) {Fine : String → Prop} {Holds : σ → Prop}
    (fetches : ∀ name, Fine name → KeepsStore Holds (theme.fetch name)) (call : PageCall) :
    Guarded Fine Holds (call.watched (σ := σ) theme) := by
  cases call with
  | view => exact theme.renderWatched_guarded fetches _ _ _ _
  | fragment => exact theme.renderWatched_guarded fetches _ _ _ _

theorem rendering_guarded {theme : Theme} {Fine : String → Prop} {Holds : σ → Prop}
    (fetches : ∀ name, Fine name → KeepsStore Holds (theme.fetch name)) {room : Workroom σ}
    {call : PageCall} (holds : Holds room.store)
    (fine : ∀ name ∈ call.entered theme room, Fine name) :
    Holds (finalState (call.rendering theme) ⟨.empty, room⟩).state.store ∧
      ∀ error after, call.rendering theme ⟨.empty, room⟩ = .error error after →
        error.isTemplateFault = false := by
  obtain ⟨visits, -, -, same⟩ := call.watched_watches theme .empty room
  have noted := same []
  rw [List.nil_append] at noted
  have entersFine : ∀ name,
      .entered name ∈ (finalState (call.watched theme) ⟨.empty, ⟨room, []⟩⟩).state.visits →
        Fine name := fun name member =>
    fine name (List.mem_filterMap.mpr ⟨.entered name, member, rfl⟩)
  obtain ⟨holds', sound⟩ :=
    (call.watched_guarded theme fetches).keeps ⟨.empty, ⟨room, []⟩⟩ holds entersFine
  unfold finalState at holds' ⊢
  rw [noted] at holds' sound
  cases result : call.rendering theme ⟨.empty, room⟩ with
  | ok a after =>
      rw [result] at holds'
      exact ⟨holds', by rintro _ _ ⟨⟩⟩
  | error error after =>
      rw [result] at holds' sound
      refine ⟨holds', ?_⟩
      rintro _ _ ⟨⟩
      exact sound error _ rfl

def allEntered (theme : Theme) (errorPage : ErrorPage) (room : Workroom σ) :
    List PageCall → List String
  | [] => []
  | call :: rest =>
      call.entered theme room ++
        allEntered theme errorPage (call.page theme errorPage room).room rest

theorem page_guarded {theme : Theme} {errorPage : ErrorPage} {Fine : String → Prop}
    {Holds : σ → Prop} (fetches : ∀ name, Fine name → KeepsStore Holds (theme.fetch name))
    {room : Workroom σ} {call : PageCall} (holds : Holds room.store)
    (fine : ∀ name ∈ call.entered theme room, Fine name) :
    Holds (call.page theme errorPage room).room.store ∧
      ∀ title message, (call.page theme errorPage room).result = .error (.halted title message) →
        title ∉ RenderError.faultTitles := by
  have delivered : call.page theme errorPage room =
      Theme.deliverPage errorPage (call.rendering theme) .unlimited room := by
    cases call with
    | view => rfl
    | fragment => rfl
  obtain ⟨holds', sound⟩ := rendering_guarded fetches holds fine
  rw [delivered]
  unfold Theme.deliverPage
  unfold finalState at holds'
  cases result : call.rendering theme ⟨.empty, room⟩ with
  | ok a stage =>
      rw [result] at holds'
      exact ⟨holds', by rintro _ _ ⟨⟩⟩
  | error error stage =>
      rw [result] at holds'
      refine ⟨holds', ?_⟩
      rintro _ _ ⟨⟩ fault
      rw [← RenderError.isTemplateFault_iff, sound error stage result] at fault
      cases fault

theorem pages_guarded {theme : Theme} {errorPage : ErrorPage} {Fine : String → Prop}
    {Holds : σ → Prop} (fetches : ∀ name, Fine name → KeepsStore Holds (theme.fetch name))
    {calls : List PageCall} {room : Workroom σ} (holds : Holds room.store)
    (fine : ∀ name ∈ allEntered theme errorPage room calls, Fine name) :
    ∀ answer ∈ pages theme errorPage room calls, ∀ title message,
      answer.1 = .error (.halted title message) → title ∉ RenderError.faultTitles := by
  induction calls generalizing room with
  | nil =>
      intro answer member
      cases member
  | cons call rest ih =>
      obtain ⟨holds', sound⟩ := @page_guarded _ _ _ errorPage _ _ fetches _ _ holds
        fun name member => fine name (List.mem_append_left _ member)
      intro answer member
      rcases List.mem_cons.mp member with rfl | later
      · exact sound
      · exact ih holds' (fun name member => fine name (List.mem_append_right _ member)) answer later

end PageCall

end ThemeRender
