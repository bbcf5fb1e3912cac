import ThemeRender.Page.Stage
import ThemeRender.Proofs.Outcome

namespace ThemeRender.Staged

open Outcome (bind_ok bind_error finalState)

variable {ε σ α β : Type}

section

variable {action : EStateM ε σ α} {stage after : Stage σ} {a : α}

theorem finalState_onState (action : EStateM ε σ α) (stage : Stage σ) :
    finalState (onState action) stage = { stage with state := finalState action stage.state } := by
  unfold finalState onState
  cases action stage.state with
  | ok => rfl
  | error => rfl

theorem onState_ok_iff :
    onState action stage = .ok a after ↔
      ∃ state, action stage.state = .ok a state ∧ after = ⟨stage.frames, state⟩ := by
  unfold onState
  cases result : action stage.state with
  | error => simp
  | ok b state =>
      constructor
      · intro runs
        cases runs
        exact ⟨state, rfl, rfl⟩
      · rintro ⟨_, ⟨⟩, rfl⟩
        rfl

theorem onState_bind (first : EStateM ε σ α) (next : α → EStateM ε σ β) :
    onState (first >>= next) = onState first >>= fun a => onState (next a) := by
  funext stage
  cases result : first stage.state with
  | ok a middle =>
      have staged : onState first stage = .ok a ⟨stage.frames, middle⟩ :=
        onState_ok_iff.mpr ⟨middle, result, rfl⟩
      rw [bind_ok staged]
      unfold onState
      rw [bind_ok result]
  | error error middle =>
      have staged : onState first stage = .error error ⟨stage.frames, middle⟩ := by
        unfold onState
        rw [result]
      rw [bind_error staged]
      unfold onState
      rw [bind_error result]

end

section

variable {body : Staged ε σ Unit} {stage after : Stage σ} {text : String}

theorem state_capture (body : Staged ε σ Unit) (stage : Stage σ) :
    (finalState (capture body) stage).state =
      (finalState body ⟨stage.frames.push, stage.state⟩).state := by
  unfold finalState capture
  cases body ⟨stage.frames.push, stage.state⟩ with
  | ok => rfl
  | error => rfl

theorem capture_ok_iff :
    capture body stage = .ok text after ↔
      ∃ last, body ⟨stage.frames.push, stage.state⟩ = .ok () last ∧ text = last.frames.top ∧
        after = ⟨last.frames.pop, last.state⟩ := by
  unfold capture
  cases body ⟨stage.frames.push, stage.state⟩ with
  | error => simp
  | ok _ last =>
      constructor
      · intro captured
        cases captured
        exact ⟨last, rfl, rfl, rfl⟩
      · rintro ⟨_, ⟨⟩, rfl, rfl⟩
        rfl

end

end ThemeRender.Staged
