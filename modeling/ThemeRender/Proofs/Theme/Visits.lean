import ThemeRender.Proofs.Template.Related
import ThemeRender.Proofs.Outcome
import ThemeRender.Theme.Composition
/-!
Which templates are being rendered at each moment of a render. A watched render does what the render
does and notes when a template is entered and left, and when one is refused because there would be
too many. `renderWatched_watches` says so, and that the notes keep within the limit.
-/

namespace ThemeRender

inductive Visit where
  | entered (name : String)
  | left
  | refused (name : String)

namespace Visit

def after (chain : List String) : Visit → List String
  | .entered name => name :: chain
  | .left => chain.tail
  | .refused _ => chain

def chain (visits : List Visit) : List String :=
  visits.foldl after []

/-- Visits that lead from one chain of templates to another. A template is entered while the chain
is shorter than the limit, and refused only when it is not. -/
inductive Paced (limit : Nat) : List String → List Visit → List String → Prop
  | done (chain : List String) : Paced limit chain [] chain
  | entered (name : String) {chain last : List String} {visits : List Visit}
      (short : chain.length < limit) (rest : Paced limit (name :: chain) visits last) :
      Paced limit chain (.entered name :: visits) last
  | left (name : String) {chain last : List String} {visits : List Visit}
      (rest : Paced limit chain visits last) : Paced limit (name :: chain) (.left :: visits) last
  | refused (name : String) {chain last : List String} {visits : List Visit}
      (full : chain.length = limit) (rest : Paced limit chain visits last) :
      Paced limit chain (.refused name :: visits) last

namespace Paced

variable {limit : Nat} {first middle last : List String} {visits more : List Visit}

theorem append (paced : Paced limit first visits middle) (pacedMore : Paced limit middle more last) :
    Paced limit first (visits ++ more) last := by
  induction paced with
  | done chain => exact pacedMore
  | entered name short _ ih => exact .entered name short (ih pacedMore)
  | left name _ ih => exact .left name (ih pacedMore)
  | refused name full _ ih => exact .refused name full (ih pacedMore)

theorem split (paced : Paced limit first (visits ++ more) last) :
    ∃ middle, Paced limit first visits middle ∧ Paced limit middle more last := by
  induction visits generalizing first with
  | nil => exact ⟨first, .done first, paced⟩
  | cons visit visits ih =>
      cases paced with
      | entered name short rest =>
          obtain ⟨middle, before, after⟩ := ih rest
          exact ⟨middle, .entered name short before, after⟩
      | left name rest =>
          obtain ⟨middle, before, after⟩ := ih rest
          exact ⟨middle, .left name before, after⟩
      | refused name full rest =>
          obtain ⟨middle, before, after⟩ := ih rest
          exact ⟨middle, .refused name full before, after⟩

theorem foldl (paced : Paced limit first visits last) : visits.foldl Visit.after first = last := by
  induction paced with
  | done chain => rfl
  | entered name _ _ ih => exact ih
  | left name _ ih => exact ih
  | refused name _ _ ih => exact ih

theorem length_le (paced : Paced limit first visits last) (within : first.length ≤ limit) :
    last.length ≤ limit := by
  induction paced with
  | done chain => exact within
  | entered name short _ ih => exact ih short
  | left name _ ih => exact ih (Nat.le_of_succ_le within)
  | refused name _ _ ih => exact ih within

theorem enclosed {chain : List String} (name : String) (short : chain.length < limit)
    (inside : Paced limit (name :: chain) visits (name :: chain)) :
    Paced limit chain (.entered name :: (visits ++ [.left])) chain :=
  .entered name short (inside.append (.left name (.done chain)))

end Paced

end Visit

open Visit (Paced)

structure Watched (σ : Type) where
  room : Workroom σ
  visits : List Visit

namespace Watched

variable {σ α : Type}

def note (visit : Visit) : Render (Watched σ) Unit :=
  Staged.modifyState fun watched => { watched with visits := watched.visits ++ [visit] }

def onRoom (action : EStateM RenderError (Workroom σ) α) : Render (Watched σ) α := fun stage =>
  match action stage.state.room with
  | .ok a room => .ok a { stage with state := { stage.state with room } }
  | .error error room => .error error { stage with state := { stage.state with room } }

/-- Notes that a template is entered, and that it is left, by a failure too. -/
def visiting (name : String) (body : Render (Watched σ) Unit) : Render (Watched σ) Unit :=
  fun stage =>
    match (do note (.entered name); body) stage with
    | .ok () after => note .left after
    | .error error after => (do note .left; throw error) after

end Watched

namespace Theme

variable {σ : Type} [Store σ]

def renderWatched (theme : Theme) (view? : Option ViewFrame) :
    Nat → String → Locals → Render (Watched σ) Unit
  | 0, name, _ => do
      Watched.note (.refused name)
      throw (.runtime name none (.nestedTooDeep theme.settings.maxDepth))
  | levels + 1, name, locals => Watched.visiting name do
      let file ← Watched.onRoom (theme.findFile name)
      let executable ← Watched.onRoom (theme.ensureCompiled file)
      let (source, nodes) ← Watched.onRoom (load executable)
      Template.run (hostOver view? (theme.renderWatched view? levels)) executable.display source
        locals nodes

end Theme

variable {σ α β : Type}

def withVisits (visits : List Visit) :
    EStateM.Result RenderError (Stage (Workroom σ)) α →
      EStateM.Result RenderError (Stage (Watched σ)) α
  | .ok a stage => .ok a ⟨stage.frames, ⟨stage.state, visits⟩⟩
  | .error error stage => .error error ⟨stage.frames, ⟨stage.state, visits⟩⟩

/-- A watched computation with `levels` left of a limit does what the other one does. The templates
it enters it leaves again, and once one is refused it fails. -/
def Watches (limit levels : Nat) (watched : Render (Watched σ) α)
    (plain : Render (Workroom σ) α) : Prop :=
  ∀ frames room, ∃ visits : List Visit,
    (∀ chain, chain.length + levels = limit → Paced limit chain visits chain) ∧
    (∀ name, .refused name ∈ visits → ∃ after,
      plain ⟨frames, room⟩ = .error (.runtime name none (.nestedTooDeep limit)) after) ∧
    ∀ before, watched ⟨frames, ⟨room, before⟩⟩ =
      withVisits (before ++ visits) (plain ⟨frames, room⟩)

namespace Watches

open Outcome (bind_ok bind_error)

variable {limit levels : Nat}

theorem unnoted {watched : Render (Watched σ) α} {plain : Render (Workroom σ) α}
    (same : ∀ frames room before,
      watched ⟨frames, ⟨room, before⟩⟩ = withVisits before (plain ⟨frames, room⟩)) :
    Watches limit levels watched plain := by
  intro frames room
  refine ⟨[], fun chain _ => .done chain, ?_, ?_⟩
  · intro name member
    cases member
  · intro before
    rw [List.append_nil]
    exact same frames room before

theorem bind {watched : Render (Watched σ) α} {plain : Render (Workroom σ) α}
    {next : α → Render (Watched σ) β} {nextPlain : α → Render (Workroom σ) β}
    (watches : Watches limit levels watched plain)
    (nextWatches : ∀ a, Watches limit levels (next a) (nextPlain a)) :
    Watches limit levels (watched >>= next) (plain >>= nextPlain) := by
  intro frames room
  obtain ⟨visits, paced, refused, same⟩ := watches frames room
  cases outcome : plain ⟨frames, room⟩ with
  | ok a stage =>
      obtain ⟨more, pacedMore, refusedMore, sameMore⟩ := nextWatches a stage.frames stage.state
      rw [outcome] at same
      refine ⟨visits ++ more, ?_, ?_, ?_⟩
      · intro chain room
        exact (paced chain room).append (pacedMore chain room)
      · intro name member
        rcases List.mem_append.mp member with first | second
        · obtain ⟨_, fails⟩ := refused name first
          rw [outcome] at fails
          cases fails
        · rw [bind_ok outcome]
          exact refusedMore name second
      · intro before
        rw [bind_ok (same before), bind_ok outcome, ← List.append_assoc]
        exact sameMore (before ++ visits)
  | error error stage =>
      rw [outcome] at same
      refine ⟨visits, paced, ?_, ?_⟩
      · intro name member
        obtain ⟨after, fails⟩ := refused name member
        exact ⟨after, bind_error fails⟩
      · intro before
        rw [bind_error (same before), bind_error outcome]
        rfl

theorem compatible (limit levels : Nat) :
    Template.Compatible fun watched plain => Watches (σ := σ) limit levels watched plain where
  pure _ := unnoted fun _ _ _ => rfl
  throw _ _ _ := unnoted fun _ _ _ => rfl
  write _ := unnoted fun _ _ _ => rfl
  bind := bind

theorem onRoom (action : EStateM RenderError (Workroom σ) α) :
    Watches limit levels (Watched.onRoom action) (Staged.onState action) := by
  apply unnoted
  intro frames room before
  unfold Watched.onRoom Staged.onState
  dsimp only
  cases action room with
  | ok => rfl
  | error => rfl

theorem capture {watched : Render (Watched σ) Unit} {plain : Render (Workroom σ) Unit}
    (watches : Watches limit levels watched plain) :
    Watches limit levels (Staged.capture watched) (Staged.capture plain) := by
  intro frames room
  obtain ⟨visits, paced, refused, same⟩ := watches frames.push room
  refine ⟨visits, paced, ?_, ?_⟩
  · intro name member
    obtain ⟨after, fails⟩ := refused name member
    unfold Staged.capture
    dsimp only
    rw [fails]
    exact ⟨_, rfl⟩
  · intro before
    unfold Staged.capture
    dsimp only
    rw [same before]
    cases plain ⟨frames.push, room⟩ with
    | ok => rfl
    | error => rfl

theorem hostOver {view? : Option ViewFrame} {render : String → Locals → Render (Watched σ) Unit}
    {render' : String → Locals → Render (Workroom σ) Unit}
    (watches : ∀ name locals, Watches limit levels (render name locals) (render' name locals)) :
    Template.Host.Related (fun watched plain => Watches limit levels watched plain)
      (Theme.hostOver view? render) (Theme.hostOver view? render') where
  yieldView := by
    cases view? with
    | none => exact (compatible limit levels).throw _ _ _
    | some view => exact watches view.name view.locals
  renderPartial name locals := watches (partialName name) locals
  partialContent name locals := (watches (partialName name) locals).capture

theorem visiting {name : String} {watched : Render (Watched σ) Unit}
    {plain : Render (Workroom σ) Unit} (watches : Watches limit levels watched plain) :
    Watches limit (levels + 1) (Watched.visiting name watched) plain := by
  intro frames room
  obtain ⟨visits, paced, refused, same⟩ := watches frames room
  refine ⟨.entered name :: (visits ++ [.left]), ?_, ?_, ?_⟩
  · intro chain room
    apply Paced.enclosed name (by omega)
    apply paced
    rw [List.length_cons]
    omega
  · intro refusedName member
    apply refused
    simpa using member
  · intro before
    have enters : Watched.note (.entered name) ⟨frames, ⟨room, before⟩⟩ =
        .ok () ⟨frames, ⟨room, before ++ [.entered name]⟩⟩ := rfl
    have runs : (do Watched.note (.entered name); watched) ⟨frames, ⟨room, before⟩⟩ =
        withVisits (before ++ [.entered name] ++ visits) (plain ⟨frames, room⟩) :=
      (bind_ok enters).trans (same _)
    have noted : before ++ .entered name :: (visits ++ [.left]) =
        before ++ [.entered name] ++ visits ++ [.left] := by simp
    unfold Watched.visiting
    rw [runs, noted]
    cases plain ⟨frames, room⟩ with
    | ok => rfl
    | error => rfl

theorem refusal (limit : Nat) (name : String) :
    Watches (σ := σ) limit 0
      (do Watched.note (.refused name); throw (.runtime name none (.nestedTooDeep limit)))
      (throw (.runtime name none (.nestedTooDeep limit)) : Render (Workroom σ) Unit) := by
  intro frames room
  refine ⟨[.refused name], ?_, ?_, fun before => rfl⟩
  · intro chain full
    exact .refused name full (.done chain)
  · intro refusedName member
    cases List.mem_singleton.mp member
    exact ⟨_, rfl⟩

end Watches

namespace Theme

variable [Store σ]

theorem renderWatched_watches (theme : Theme) (view? : Option ViewFrame) (levels : Nat) :
    ∀ name locals, Watches theme.settings.maxDepth levels
      (theme.renderWatched (σ := σ) view? levels name locals)
      (theme.renderNested view? levels name locals) := by
  induction levels with
  | zero =>
      intro name locals
      exact Watches.refusal _ name
  | succ levels ih =>
      intro name locals
      unfold renderWatched renderNested
      apply Watches.visiting
      apply (Watches.onRoom _).bind
      intro file
      apply (Watches.onRoom _).bind
      intro executable
      apply (Watches.onRoom _).bind
      intro loaded
      exact Template.run_related (Watches.compatible _ levels) (Watches.hostOver ih) _ _ _ _

end Theme

end ThemeRender
