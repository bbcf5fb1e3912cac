import ThemeRender.Proofs.Theme.Guarded
/-!
What holds of a whole render because it holds of every template that is fetched in it. The names of
the templates that are entered may be counted on.
-/

namespace ThemeRender

open Outcome (finalState mapState bind_ok bind_error finalState_ok finalState_error
  finalState_bind_ok finalState_bind_error finalState_bind_trans)

variable {σ τ α β : Type}

/-- A property of runs that a computation has if the computations have it that it is made of. -/
structure Inherited (Holds : {α : Type} → Render τ α → Stage τ → Prop) : Prop where
  pure : ∀ {α : Type} (a : α) stage, Holds (pure a) stage
  throw : ∀ {α : Type} (template : String) (line? : Option Nat) (fault : RuntimeFault) stage,
    Holds (α := α) (throw (.runtime template line? fault)) stage
  write : ∀ (text : String) stage, Holds (Staged.write text) stage
  bind : ∀ {α β : Type} {first : Render τ α} {next : α → Render τ β} {stage : Stage τ},
    Holds first stage → (∀ a after, first stage = .ok a after → Holds (next a) after) →
    Holds (first >>= next) stage
  capture : ∀ {body : Render τ Unit} {stage : Stage τ},
    Holds body { stage with frames := stage.frames.push } → Holds (Staged.capture body) stage

variable {Holds : {α : Type} → Render τ α → Stage τ → Prop}

theorem Inherited.supposing (inherited : Inherited Holds) (Supposed : Prop) :
    Inherited fun action stage => Supposed → Holds action stage where
  pure a stage _ := inherited.pure a stage
  throw template line? fault stage _ := inherited.throw template line? fault stage
  write text stage _ := inherited.write text stage
  bind holds next supposed := inherited.bind (holds supposed) fun a after runs =>
    next a after runs supposed
  capture holds supposed := inherited.capture (holds supposed)

theorem Inherited.run (inherited : Inherited Holds) {view? : Option ViewFrame}
    {render : String → Locals → Render τ Unit}
    (partials : ∀ called locals stage, Holds (render (partialName called) locals) stage)
    (views : ∀ view ∈ view?, ∀ stage, Holds (render view.name view.locals) stage)
    (label source : String) (locals : Locals) (nodes : List Template.Node) (stage : Stage τ) :
    Holds (Template.run (Theme.hostOver view? render) label source locals nodes) stage := by
  let R {α : Type} (action _ : Render τ α) : Prop := ∀ stage, Holds action stage
  have compatible : Template.Compatible R := {
    pure := inherited.pure
    throw := inherited.throw
    write := inherited.write
    bind := fun holds next stage => inherited.bind (holds stage) fun a after _ => next a after }
  have hosts : Template.Host.Related R (Theme.hostOver view? render)
      (Theme.hostOver view? render) := {
    yieldView := by
      cases view? with
      | none => exact inherited.throw _ _ _
      | some view => exact views view rfl
    renderPartial := partials
    partialContent := fun called locals stage => inherited.capture (partials called locals _) }
  exact Template.run_related compatible hosts label source locals nodes stage

theorem inherited_finalState {Keeps : τ → τ → Prop} (refl : ∀ state, Keeps state state)
    (trans : ∀ {first second third}, Keeps first second → Keeps second third → Keeps first third) :
    Inherited fun action stage => Keeps stage.state (finalState action stage).state where
  pure _ stage := refl stage.state
  throw _ _ _ stage := refl stage.state
  write _ stage := refl stage.state
  bind {_ _ first next stage} moved nextMoved :=
    @finalState_bind_trans _ _ _ _ first next stage
      (fun before after => Keeps before.state after.state) trans moved nextMoved
  capture {body stage} moved := by
    rw [Staged.state_capture]
    exact moved

/-- What is `Known` of a computation from the result of one run of it, for runs that start where
something holds and keep a relation of states. -/
structure Assured (Starts : τ → Prop) (Keeps : τ → τ → Prop)
    (Known : {α : Type} → Render τ α → Frames → α → Stage τ → Prop) : Prop where
  refl : ∀ {state}, Starts state → Keeps state state
  trans : ∀ {first second third}, Keeps first second → Keeps second third → Keeps first third
  starts : ∀ {before after}, Starts before → Keeps before after → Starts after
  same : ∀ {α : Type} {action : Render τ α} {before after : Frames} {a : α},
    (∀ state, action ⟨before, state⟩ = .ok a ⟨after, state⟩) →
    ∀ state, Known action before a ⟨after, state⟩
  bind : ∀ {α β : Type} {first : Render τ α} {next : α → Render τ β} {before : Frames} {a : α}
    {middle last : Stage τ} {b : β}, Known first before a middle →
    Keeps middle.state last.state → Known (next a) middle.frames b last →
    Known (first >>= next) before b last
  capture : ∀ {body : Render τ Unit} {before : Frames} {last : Stage τ},
    Known body before.push () last →
    Known (Staged.capture body) before last.frames.top ⟨last.frames.pop, last.state⟩

theorem Assured.inherited {Starts : τ → Prop} {Keeps : τ → τ → Prop}
    {Known : {α : Type} → Render τ α → Frames → α → Stage τ → Prop}
    (assured : Assured Starts Keeps Known) :
    Inherited fun action stage => Starts stage.state →
      Keeps stage.state (finalState action stage).state ∧
      ∀ a after, action stage = .ok a after → Known action stage.frames a after where
  pure _ stage starts :=
    ⟨assured.refl starts, by rintro _ _ ⟨⟩; exact assured.same (fun _ => rfl) stage.state⟩
  throw _ _ _ _ starts := ⟨assured.refl starts, by rintro _ _ ⟨⟩⟩
  write text stage starts := by
    refine ⟨assured.refl starts, ?_⟩
    rintro _ _ ⟨⟩
    have same (state : τ) : (Staged.write text : Render τ Unit) ⟨stage.frames, state⟩ =
        .ok () ⟨stage.frames.write text, state⟩ := rfl
    exact assured.same same stage.state
  bind {_ _ first next stage} known nextKnown starts := by
    obtain ⟨kept, knowing⟩ := known starts
    cases result : first stage with
    | error error middle =>
        rw [finalState_error result] at kept
        rw [finalState_bind_error result]
        refine ⟨kept, fun b last runs => ?_⟩
        rw [bind_error result] at runs
        cases runs
    | ok a middle =>
        rw [finalState_ok result] at kept
        obtain ⟨keptOn, nextKnowing⟩ := nextKnown a middle result (assured.starts starts kept)
        rw [finalState_bind_ok result]
        refine ⟨assured.trans kept keptOn, fun b last runs => ?_⟩
        rw [bind_ok result] at runs
        rw [finalState_ok runs] at keptOn
        exact assured.bind (knowing a middle result) keptOn (nextKnowing b last runs)
  capture {body stage} known starts := by
    obtain ⟨kept, knowing⟩ := known starts
    rw [Staged.state_capture]
    refine ⟨kept, fun text after captured => ?_⟩
    obtain ⟨last, runs, rfl, rfl⟩ := Staged.capture_ok_iff.mp captured
    exact assured.capture (knowing () last runs)

/-- A watched computation that does to a room what another one does to a state with that room. If
all templates that it enters are `Fine`, the run of the other one has the property. -/
def Vouches (room : τ → Workroom σ) (Fine : String → Prop)
    (Holds : {α : Type} → Render τ α → Stage τ → Prop) (watched : Render (Watched σ) α)
    (action : Render τ α) : Prop :=
  ∀ stage : Stage τ, ∃ visits : List Visit,
    (∀ before, watched ⟨stage.frames, ⟨room stage.state, before⟩⟩ =
      mapState (fun after => ⟨after.frames, ⟨room after.state, before ++ visits⟩⟩)
        (action stage)) ∧
    ((∀ name, .entered name ∈ visits → Fine name) → Holds action stage)

namespace Vouches

variable {room : τ → Workroom σ} {Fine : String → Prop}

theorem unvisited {watched : Render (Watched σ) α} {action : Render τ α}
    (same : ∀ (stage : Stage τ) before, watched ⟨stage.frames, ⟨room stage.state, before⟩⟩ =
      mapState (fun after => ⟨after.frames, ⟨room after.state, before⟩⟩) (action stage))
    (holds : ∀ stage, Holds action stage) : Vouches room Fine Holds watched action := by
  intro stage
  refine ⟨[], ?_, fun _ => holds stage⟩
  intro before
  rw [List.append_nil]
  exact same stage before

theorem mono {Implied : {α : Type} → Render τ α → Stage τ → Prop}
    {watched : Render (Watched σ) α} {action : Render τ α}
    (vouches : Vouches room Fine Holds watched action)
    (implies : ∀ stage, Holds action stage → Implied action stage) :
    Vouches room Fine Implied watched action := by
  intro stage
  obtain ⟨visits, same, holds⟩ := vouches stage
  exact ⟨visits, same, fun fine => implies stage (holds fine)⟩

section

variable (inherited : Inherited Holds)

include inherited

theorem bind {watched : Render (Watched σ) α} {action : Render τ α}
    {next : α → Render (Watched σ) β} {nextAction : α → Render τ β}
    (vouches : Vouches room Fine Holds watched action)
    (nextVouches : ∀ a, Vouches room Fine Holds (next a) (nextAction a)) :
    Vouches room Fine Holds (watched >>= next) (action >>= nextAction) := by
  intro stage
  obtain ⟨visits, same, holds⟩ := vouches stage
  cases outcome : action stage with
  | ok a after =>
      obtain ⟨more, sameMore, holdsMore⟩ := nextVouches a after
      rw [outcome] at same
      refine ⟨visits ++ more, ?_, ?_⟩
      · intro before
        rw [bind_ok (same before), bind_ok outcome, ← List.append_assoc]
        exact sameMore (before ++ visits)
      · intro fine
        apply inherited.bind (holds fun name member => fine name (List.mem_append_left _ member))
        intro a' after' runs
        rw [outcome] at runs
        cases runs
        exact holdsMore fun name member => fine name (List.mem_append_right _ member)
  | error error after =>
      rw [outcome] at same
      refine ⟨visits, ?_, ?_⟩
      · intro before
        rw [bind_error (same before), bind_error outcome]
        rfl
      · intro fine
        apply inherited.bind (holds fine)
        intro a' after' runs
        rw [outcome] at runs
        cases runs

theorem compatible (room : τ → Workroom σ) (Fine : String → Prop) :
    Template.Compatible fun watched action => Vouches room Fine Holds watched action where
  pure a := unvisited (fun _ _ => rfl) (inherited.pure a)
  throw _ _ _ := unvisited (fun _ _ => rfl) (inherited.throw _ _ _)
  write text := unvisited (fun _ _ => rfl) (inherited.write text)
  bind := bind inherited

theorem capture {watched : Render (Watched σ) Unit} {action : Render τ Unit}
    (vouches : Vouches room Fine Holds watched action) :
    Vouches room Fine Holds (Staged.capture watched) (Staged.capture action) := by
  intro stage
  obtain ⟨visits, same, holds⟩ := vouches { stage with frames := stage.frames.push }
  refine ⟨visits, ?_, fun fine => inherited.capture (holds fine)⟩
  intro before
  unfold Staged.capture
  dsimp only
  rw [same before]
  cases action { stage with frames := stage.frames.push } with
  | ok => rfl
  | error => rfl

theorem hostOver {view? : Option ViewFrame} {render : String → Locals → Render (Watched σ) Unit}
    {render' : String → Locals → Render τ Unit}
    (vouches : ∀ name locals, Vouches room Fine Holds (render name locals) (render' name locals)) :
    Template.Host.Related (fun watched action => Vouches room Fine Holds watched action)
      (Theme.hostOver view? render) (Theme.hostOver view? render') where
  yieldView := by
    cases view? with
    | none => exact (compatible inherited room Fine).throw _ _ _
    | some view => exact vouches view.name view.locals
  renderPartial name locals := vouches (partialName name) locals
  partialContent name locals := (vouches (partialName name) locals).capture inherited

theorem refusal (name : String) (limit : Nat) :
    Vouches room Fine Holds
      (do Watched.note (.refused name); throw (.runtime name none (.nestedTooDeep limit)))
      (throw (.runtime name none (.nestedTooDeep limit)) : Render τ Unit) := by
  intro stage
  exact ⟨[.refused name], fun _ => rfl, fun _ => inherited.throw _ _ _ stage⟩

end

theorem visiting {name : String} {watched : Render (Watched σ) Unit} {action : Render τ Unit}
    (vouches : Vouches room Fine (fun action stage => Fine name → Holds action stage) watched
      action) :
    Vouches room Fine Holds (Watched.visiting name watched) action := by
  intro stage
  obtain ⟨visits, same, holds⟩ := vouches stage
  refine ⟨.entered name :: (visits ++ [.left]), ?_, ?_⟩
  · intro before
    have enters : Watched.note (.entered name) ⟨stage.frames, ⟨room stage.state, before⟩⟩ =
        .ok () ⟨stage.frames, ⟨room stage.state, before ++ [.entered name]⟩⟩ := rfl
    have runs := (@bind_ok _ _ _ _ _ (fun _ => watched) _ _ _ enters).trans (same _)
    have noted : before ++ .entered name :: (visits ++ [.left]) =
        before ++ [.entered name] ++ visits ++ [.left] := by simp
    unfold Watched.visiting
    rw [runs, noted]
    cases action stage with
    | ok => rfl
    | error => rfl
  · intro fine
    apply holds
    · intro other member
      exact fine other (List.mem_cons_of_mem _ (List.mem_append_left _ member))
    · exact fine name List.mem_cons_self

end Vouches

/-! Renders -/

section

variable [Store σ] {theme : Theme} {Fine : String → Prop}
  {Holds : {α : Type} → Render (Workroom σ) α → Stage (Workroom σ) → Prop}

theorem Theme.renderWatched_vouches (inherited : Inherited Holds)
    (fetches : ∀ name, Fine name → ∀ stage, Holds (Staged.onState (theme.fetch name)) stage)
    (view? : Option ViewFrame) (levels : Nat) :
    ∀ name locals, Vouches id Fine Holds (theme.renderWatched view? levels name locals)
      (theme.renderNested view? levels name locals) := by
  induction levels with
  | zero =>
      intro name locals
      exact .refusal inherited name _
  | succ levels ih =>
      intro name locals
      rw [renderWatched_succ, renderNested_succ]
      have supposing := inherited.supposing (Fine name)
      apply Vouches.visiting
      apply Vouches.bind supposing
      · apply Vouches.unvisited
        · intro stage before
          unfold Watched.onRoom Staged.onState
          dsimp only [id]
          cases theme.fetch name stage.state with
          | ok => rfl
          | error => rfl
        · exact fun stage fine => fetches name fine stage
      · intro found
        apply Template.run_related (Vouches.compatible supposing id Fine)
        apply Vouches.hostOver supposing
        exact fun name locals => (ih name locals).mono fun _ holds _ => holds

theorem Theme.renderNested_inherits (inherited : Inherited Holds)
    (fetches : ∀ name stage, Holds (Staged.onState (theme.fetch name)) stage)
    (view? : Option ViewFrame) (levels : Nat) (name : String) (locals : Locals)
    (stage : Stage (Workroom σ)) : Holds (theme.renderNested view? levels name locals) stage := by
  obtain ⟨visits, -, holds⟩ := @renderWatched_vouches _ _ theme (fun _ => True) Holds inherited
    (fun name _ => fetches name) view? levels name locals stage
  exact holds fun _ _ => trivial

end

section

variable [Store σ] {theme : Theme} {Fine : String → Prop}

theorem Vouches.holds {room : τ → Workroom σ} {call : PageCall} {action : Render τ Unit}
    (vouches : Vouches room Fine Holds (call.watched theme) action) (state : τ)
    (fine : ∀ name ∈ call.entered theme (room state), Fine name) :
    Holds action ⟨.empty, state⟩ := by
  obtain ⟨visits, same, holds⟩ := vouches ⟨.empty, state⟩
  apply holds
  intro name member
  apply fine
  refine List.mem_filterMap.mpr ⟨.entered name, ?_, rfl⟩
  have noted : call.watched theme ⟨.empty, ⟨room state, []⟩⟩ = _ := same []
  unfold finalState
  rw [noted]
  cases action ⟨.empty, state⟩ with
  | ok => exact member
  | error => exact member

/-- What holds of the fetching of every template that a page enters holds of the page. -/
theorem PageCall.rendering_inherits
    {Holds : {α : Type} → Render (Workroom σ) α → Stage (Workroom σ) → Prop}
    (inherited : Inherited Holds)
    (fetches : ∀ name, Fine name → ∀ stage, Holds (Staged.onState (theme.fetch name)) stage)
    {room : Workroom σ} {call : PageCall} (fine : ∀ name ∈ call.entered theme room, Fine name) :
    Holds (call.rendering theme) ⟨.empty, room⟩ := by
  have vouches : Vouches id Fine Holds (call.watched theme) (call.rendering theme) := by
    cases call with
    | view => exact Theme.renderWatched_vouches inherited fetches _ _ _ _
    | fragment => exact Theme.renderWatched_vouches inherited fetches _ _ _ _
  exact vouches.holds room fine

end

end ThemeRender
