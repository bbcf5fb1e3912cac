import ThemeRender.Page.Frames
/-!
Computations that write output. They also have a state of their own and can fail; what was written
before a failure stays written.
-/

namespace ThemeRender

/-- The output so far, with the state of those who take part in a render. -/
structure Stage (σ : Type) where
  frames : Frames
  state : σ

abbrev Staged (ε σ : Type) := EStateM ε (Stage σ)

namespace Staged

variable {ε σ α : Type}

def write (text : String) : Staged ε σ Unit :=
  modify fun stage => { stage with frames := stage.frames.write text }

def depth : Staged ε σ Nat := do
  return (← get).frames.depth

def modifyState (f : σ → σ) : Staged ε σ Unit :=
  modify fun stage => { stage with state := f stage.state }

/-- Runs with a fresh frame on top and returns its text. The frame is dropped after a failure too. -/
def capture (body : Staged ε σ Unit) : Staged ε σ String := fun stage =>
  match body { stage with frames := stage.frames.push } with
  | .ok () after => .ok after.frames.top { after with frames := after.frames.pop }
  | .error error after => .error error { after with frames := after.frames.pop }

def onState (f : EStateM ε σ α) : Staged ε σ α := fun stage =>
  match f stage.state with
  | .ok a state => .ok a { stage with state }
  | .error error state => .error error { stage with state }

end Staged

end ThemeRender
