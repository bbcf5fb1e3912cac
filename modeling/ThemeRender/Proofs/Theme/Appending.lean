import ThemeRender.Page.Stage
import ThemeRender.Proofs.Outcome
import ThemeRender.Proofs.Template.Related
import ThemeRender.Theme.Composition
/-!
Rendering adds text to the top frame and depends on nothing that the frames hold: it is made of
computations that only add text to the top frame and never look at what is there.
-/

/-! Computations that add text -/

namespace ThemeRender

theorem Frames.write_right_inj {frames : Frames} {first second : String} :
    frames.write first = frames.write second ↔ first = second := by
  unfold Frames.write
  rw [Frames.mk.injEq]
  exact (and_iff_left rfl).trans (String.append_right_inj _)

variable {ε σ α β : Type}

/-- What a computation comes to, whatever the frames are that it runs on. -/
structure Effect (ε σ α : Type) where
  result : Except ε α
  text : String
  state : σ

namespace Effect

def on (effect : Effect ε σ α) (frames : Frames) : EStateM.Result ε (Stage σ) α :=
  match effect.result with
  | .ok a => .ok a ⟨⟨frames.top ++ effect.text, frames.below⟩, effect.state⟩
  | .error error => .error error ⟨⟨frames.top ++ effect.text, frames.below⟩, effect.state⟩

def after (text : String) (effect : Effect ε σ α) : Effect ε σ α :=
  { effect with text := text ++ effect.text }

theorem on_after (text : String) (effect : Effect ε σ α) (frames : Frames) :
    (effect.after text).on frames = effect.on ⟨frames.top ++ text, frames.below⟩ := by
  simp only [on, after, String.append_assoc]

end Effect

namespace Staged

def Appends (action : Staged ε σ α) : Prop :=
  ∀ state, ∃ effect : Effect ε σ α, ∀ frames, action ⟨frames, state⟩ = effect.on frames

def Silent (action : Staged ε σ α) : Prop :=
  ∀ state, ∃ effect : Effect ε σ α,
    effect.text = "" ∧ ∀ frames, action ⟨frames, state⟩ = effect.on frames

theorem Silent.appends {action : Staged ε σ α} (silent : Silent action) : Appends action := by
  intro state
  obtain ⟨effect, _, runs⟩ := silent state
  exact ⟨effect, runs⟩

theorem silent_pure (a : α) : Silent (pure a : Staged ε σ α) := by
  intro state
  refine ⟨⟨.ok a, "", state⟩, rfl, ?_⟩
  intro frames
  simp only [Effect.on, String.append_empty]
  rfl

theorem silent_throw (error : ε) : Silent (throw error : Staged ε σ α) := by
  intro state
  refine ⟨⟨.error error, "", state⟩, rfl, ?_⟩
  intro frames
  simp only [Effect.on, String.append_empty]
  rfl

theorem silent_onState (action : EStateM ε σ α) : Silent (onState action) := by
  intro state
  cases outcome : action state with
  | ok a after =>
      refine ⟨⟨.ok a, "", after⟩, rfl, ?_⟩
      intro frames
      simp only [onState, outcome, Effect.on, String.append_empty]
  | error error after =>
      refine ⟨⟨.error error, "", after⟩, rfl, ?_⟩
      intro frames
      simp only [onState, outcome, Effect.on, String.append_empty]

theorem appends_write (text : String) : Appends (write text : Staged ε σ Unit) := by
  intro state
  refine ⟨⟨.ok (), text, state⟩, ?_⟩
  intro frames
  rfl

theorem Appends.bind {first : Staged ε σ α} {next : α → Staged ε σ β}
    (appends : Appends first) (nextAppends : ∀ a, Appends (next a)) :
    Appends (first >>= next) := by
  intro state
  obtain ⟨⟨result, text, middle⟩, runs⟩ := appends state
  cases result with
  | ok a =>
      obtain ⟨effect, nextRuns⟩ := nextAppends a middle
      refine ⟨effect.after text, ?_⟩
      intro frames
      rw [Outcome.bind_ok (runs frames), nextRuns, Effect.on_after]
  | error error =>
      refine ⟨⟨.error error, text, middle⟩, ?_⟩
      intro frames
      exact Outcome.bind_error (runs frames)

theorem Appends.ok_on {action : Staged ε σ Unit} (appends : Appends action) {frames : Frames}
    {state : σ} {after : Stage σ} (runs : action ⟨frames, state⟩ = .ok () after) :
    ∃ text, after.frames = frames.write text ∧
      ∀ others, action ⟨others, state⟩ = .ok () ⟨others.write text, after.state⟩ := by
  obtain ⟨⟨result, text, last⟩, on⟩ := appends state
  rw [on] at runs
  cases result with
  | error error => cases runs
  | ok =>
      cases runs
      exact ⟨text, rfl, on⟩

/-- A capture takes its frame away after a failure too, so nothing of its body is left. -/
theorem Appends.capture {body : Staged ε σ Unit} (appends : Appends body) :
    Silent (capture body) := by
  intro state
  obtain ⟨⟨result, text, after⟩, runs⟩ := appends state
  cases result with
  | ok =>
      refine ⟨⟨.ok text, "", after⟩, rfl, ?_⟩
      intro frames
      unfold Staged.capture
      rw [runs frames.push]
      simp only [Effect.on, Frames.push, Frames.pop, String.empty_append, String.append_empty]
  | error error =>
      refine ⟨⟨.error error, "", after⟩, rfl, ?_⟩
      intro frames
      unfold Staged.capture
      rw [runs frames.push]
      simp only [Effect.on, Frames.push, Frames.pop, String.append_empty]

end Staged

end ThemeRender

/-! Renders -/

namespace ThemeRender

namespace Template

variable {σ : Type}

theorem compatible_appends :
    Compatible (σ := σ) (τ := σ) fun action _ => Staged.Appends action where
  pure a := (Staged.silent_pure a).appends
  throw _ _ _ := (Staged.silent_throw _).appends
  write := Staged.appends_write
  bind := Staged.Appends.bind

end Template

namespace Theme

open Template (Host)

theorem hostOver_yieldView_appends {τ : Type} {view? : Option ViewFrame}
    {render : String → Locals → Render τ Unit}
    (appends : ∀ name locals, Staged.Appends (render name locals)) :
    Staged.Appends (hostOver view? render).yieldView := by
  cases view? with
  | none => exact (Staged.silent_throw _).appends
  | some view => exact appends view.name view.locals

theorem hostOver_appends {τ : Type} {view? : Option ViewFrame}
    {render : String → Locals → Render τ Unit}
    (appends : ∀ name locals, Staged.Appends (render name locals)) :
    Host.Related (fun action _ => Staged.Appends action)
      (hostOver view? render) (hostOver view? render) where
  yieldView := hostOver_yieldView_appends appends
  renderPartial name locals := appends (partialName name) locals
  partialContent name locals := (appends (partialName name) locals).capture.appends

variable {σ : Type} [Store σ]

theorem renderNested_appends (theme : Theme) (view? : Option ViewFrame) (levels : Nat) :
    ∀ name locals, Staged.Appends (theme.renderNested (σ := σ) view? levels name locals) := by
  induction levels with
  | zero =>
      intro name locals
      exact (Staged.silent_throw _).appends
  | succ levels ih =>
      intro name locals
      unfold renderNested
      apply (Staged.silent_onState _).appends.bind
      intro file
      apply (Staged.silent_onState _).appends.bind
      intro executable
      apply (Staged.silent_onState _).appends.bind
      intro loaded
      exact Template.run_related Template.compatible_appends (hostOver_appends ih) _ _ _ _

/-- A template, a partial, a captured partial and the view, rendered with any number of levels
left: each leaves the frames below as they are and adds to the top frame a text that, like its
result and the state after it, is the same on all frames. A captured partial adds nothing. -/
theorem rendering_adds_to_top_frame (theme : Theme) (view? : Option ViewFrame) (levels : Nat)
    (name : String) (locals : Locals) (room : Workroom σ) :
    (∃ effect : Effect RenderError (Workroom σ) Unit, ∀ frames : Frames,
      theme.renderNested view? levels name locals ⟨frames, room⟩ = effect.on frames) ∧
    (∃ effect : Effect RenderError (Workroom σ) Unit, ∀ frames : Frames,
      (hostOver view? (theme.renderNested view? levels)).renderPartial name locals ⟨frames, room⟩ =
        effect.on frames) ∧
    (∃ effect : Effect RenderError (Workroom σ) String, effect.text = "" ∧ ∀ frames : Frames,
      (hostOver view? (theme.renderNested view? levels)).partialContent name locals
        ⟨frames, room⟩ = effect.on frames) ∧
    (∃ effect : Effect RenderError (Workroom σ) Unit, ∀ frames : Frames,
      (hostOver view? (theme.renderNested view? levels)).yieldView ⟨frames, room⟩ =
        effect.on frames) := by
  have appends := renderNested_appends (σ := σ) theme view? levels
  refine ⟨?_, ?_, ?_, ?_⟩
  · exact appends name locals room
  · exact appends (partialName name) locals room
  · exact (appends (partialName name) locals).capture room
  · exact hostOver_yieldView_appends appends room

end Theme

end ThemeRender
