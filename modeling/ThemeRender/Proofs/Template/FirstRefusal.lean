import ThemeRender.Proofs.Template.Requests

namespace ThemeRender.Template

open Outcome (finalState finalState_bind_error finalState_bind_ok finalState_error
  finalState_of_mapState finalState_ok mapState)
open Logged (answering unlogged)

namespace HostCall

/-- What the recording host writes for a request before it refuses it. -/
def writtenFirst : HostCall → String
  | .renderPartial name _ => s!"[{name}"
  | .yieldView | .partialContent _ _ => ""

def refusal (call : HostCall) : RenderError :=
  .runtime "host" none (.refused call.name)

end HostCall

variable {α β : Type} {refused : List String}

/-- What becomes of a run when names are refused, told from the run in which none is: `made` are the
requests of the latter. -/
structure Halts (refused : List String) (whole : Render (Logged (List HostCall)) α)
    (cut : Render (List HostCall) α) (before : Stage (Logged (List HostCall)))
    (made : List Request) : Prop where
  requests : (finalState whole before).state.requests = before.state.requests ++ made
  calls : (finalState whole before).state.state = before.state.state ++ made.map Request.call
  same : (∀ request ∈ made, request.call.name ∉ refused) →
    cut (unlogged before) = mapState unlogged (whole before)
  stops : ∀ passed request later, made = passed ++ request :: later →
    (∀ earlier ∈ passed, earlier.call.name ∉ refused) → request.call.name ∈ refused →
    cut (unlogged before) = .error request.call.refusal
      ⟨request.frames.write request.call.writtenFirst,
        before.state.state ++ (passed ++ [request]).map Request.call⟩

namespace Halts

variable {whole : Render (Logged (List HostCall)) α} {cut : Render (List HostCall) α}
  {next : α → Render (Logged (List HostCall)) β} {nextCut : α → Render (List HostCall) β}
  {before after : Stage (Logged (List HostCall))} {made more : List Request}

theorem quiet (silent : (finalState whole before).state = before.state)
    (same : cut (unlogged before) = mapState unlogged (whole before)) :
    Halts refused whole cut before [] where
  requests := by rw [silent, List.append_nil]
  calls := by rw [silent, List.map_nil, List.append_nil]
  same _ := same
  stops passed request later split := by simp at split

theorem bind_error {error : RenderError} (halts : Halts refused whole cut before made)
    (fails : whole before = .error error after) :
    Halts refused (whole >>= next) (cut >>= nextCut) before made where
  requests := by
    rw [finalState_bind_error fails, ← finalState_error fails]
    exact halts.requests
  calls := by
    rw [finalState_bind_error fails, ← finalState_error fails]
    exact halts.calls
  same allowed := by
    have failsToo := halts.same allowed
    rw [fails] at failsToo
    rw [Outcome.bind_error failsToo, Outcome.bind_error fails]
    rfl
  stops passed request later split allowed refuses :=
    Outcome.bind_error (halts.stops passed request later split allowed refuses)

theorem bind_ok {a : α} (halts : Halts refused whole cut before made)
    (runs : whole before = .ok a after) (nextHalts : Halts refused (next a) (nextCut a) after more) :
    Halts refused (whole >>= next) (cut >>= nextCut) before (made ++ more) := by
  have logged := halts.requests
  have recorded := halts.calls
  rw [finalState_ok runs] at logged recorded
  have runsToo : (∀ request ∈ made, request.call.name ∉ refused) →
      cut (unlogged before) = .ok a (unlogged after) := by
    intro allowed
    rw [halts.same allowed, runs]
    rfl
  constructor
  case requests =>
    rw [finalState_bind_ok runs, nextHalts.requests, logged, List.append_assoc]
  case calls =>
    rw [finalState_bind_ok runs, nextHalts.calls, recorded, List.map_append, List.append_assoc]
  case same =>
    intro allowed
    rw [List.forall_mem_append] at allowed
    rw [Outcome.bind_ok (runsToo allowed.1), Outcome.bind_ok runs, nextHalts.same allowed.2]
  case stops =>
    intro passed request later split allowed refuses
    rcases List.append_eq_append_iff.mp split with ⟨middle, rfl, rest⟩ | ⟨middle, same, rest⟩
    · -- the first computation makes no request that is refused
      rw [List.forall_mem_append] at allowed
      rw [Outcome.bind_ok (runsToo allowed.1),
        nextHalts.stops middle request later rest allowed.2 refuses]
      rw [recorded, List.append_assoc, List.append_assoc, ← List.map_append]
    · cases middle with
      | cons first middle =>
          obtain ⟨rfl, -⟩ := List.cons_eq_cons.mp rest
          exact Outcome.bind_error (halts.stops passed request middle same allowed refuses)
      | nil =>
          rw [List.append_nil] at same
          rw [Outcome.bind_ok (runsToo (same ▸ allowed)),
            nextHalts.stops [] request later rest.symm (fun _ none => by cases none) refuses]
          rw [recorded, same, List.append_assoc, ← List.map_append]
          rfl

end Halts

def HaltsAtRefusal (refused : List String) (whole : Render (Logged (List HostCall)) α)
    (cut : Render (List HostCall) α) : Prop :=
  ∀ before, ∃ made, Halts refused whole cut before made

theorem haltsAtRefusal_compatible :
    Compatible fun {α} whole cut => HaltsAtRefusal refused (α := α) whole cut where
  pure _ _ := ⟨[], .quiet rfl rfl⟩
  throw _ _ _ _ := ⟨[], .quiet rfl rfl⟩
  write _ _ := ⟨[], .quiet rfl rfl⟩
  bind {_ _ first _ _ _} halts nextHalts before := by
    obtain ⟨made, here⟩ := halts before
    cases result : first before with
    | error error after => exact ⟨made, here.bind_error result⟩
    | ok a after =>
        obtain ⟨more, later⟩ := nextHalts a after
        exact ⟨made ++ more, here.bind_ok result later⟩

theorem haltsAtRefusal_answering {call : HostCall} {answer refusing : Render (List HostCall) α}
    (records : ∀ stage, (finalState answer stage).state = stage.state ++ [call])
    (allowed : call.name ∉ refused → refusing = answer)
    (refuses : call.name ∈ refused → ∀ stage, refusing stage =
      .error call.refusal ⟨stage.frames.write call.writtenFirst, stage.state ++ [call]⟩) :
    HaltsAtRefusal refused (answering call answer) refusing := by
  intro before
  have left : finalState (answering call answer) before =
      ⟨(finalState answer (unlogged before)).frames,
        ⟨(finalState answer (unlogged before)).state,
          before.state.requests ++ [⟨call, before.frames⟩]⟩⟩ := by
    unfold finalState answering
    cases answer (unlogged before) with
    | ok => rfl
    | error => rfl
  refine ⟨[⟨call, before.frames⟩], ?_, ?_, ?_, ?_⟩
  · rw [left]
  · rw [left]
    exact records (unlogged before)
  · intro none
    rw [allowed (none _ List.mem_cons_self)]
    exact Logged.mirrors_answering call answer before
  · intro passed request later split _ named
    cases passed with
    | nil =>
        obtain ⟨rfl, -⟩ := List.cons_eq_cons.mp split
        exact refuses named (unlogged before)
    | cons first passed => simp at split

section

variable (refused : List String)

theorem requireAllowed_of_mem {call : HostCall} (named : call.name ∈ refused) :
    HostCall.requireAllowed refused call = throw call.refusal :=
  if_pos named

theorem requireAllowed_of_not_mem {call : HostCall} (other : call.name ∉ refused) :
    HostCall.requireAllowed refused call = pure () :=
  if_neg other

theorem recorder_halts :
    Host.Related (fun {α} whole cut => HaltsAtRefusal refused (α := α) whole cut)
      (recorder []).logged (recorder refused) where
  yieldView := by
    change HaltsAtRefusal refused (answering .yieldView (recorder []).yieldView) _
    apply haltsAtRefusal_answering (fun _ => rfl)
    · intro other
      simp only [recorder, requireAllowed_of_not_mem refused other]
      rfl
    · intro named stage
      simp only [recorder, requireAllowed_of_mem refused named, HostCall.writtenFirst,
        Frames.write_empty]
      rfl
  renderPartial name locals := by
    change HaltsAtRefusal refused
      (answering (.renderPartial name locals) ((recorder []).renderPartial name locals)) _
    apply haltsAtRefusal_answering (fun _ => rfl)
    · intro other
      simp only [recorder, requireAllowed_of_not_mem refused other]
      rfl
    · intro named stage
      simp only [recorder, requireAllowed_of_mem refused named]
      rfl
  partialContent name locals := by
    change HaltsAtRefusal refused
      (answering (.partialContent name locals) ((recorder []).partialContent name locals)) _
    apply haltsAtRefusal_answering (fun _ => rfl)
    · intro other
      simp only [recorder, requireAllowed_of_not_mem refused other]
      rfl
    · intro named stage
      simp only [recorder, requireAllowed_of_mem refused named, HostCall.writtenFirst,
        Frames.write_empty]
      rfl

end

/-- A host that refuses names ends a run at the first request by such a name, wherever in the template
it is made. Against the host that refuses none the run makes the same requests up to there; all of
them and this one are recorded, the output is what had been written when it was made and what the host
writes before it refuses, and the result is the refusal. Without such a request nothing is changed. -/
theorem stops_at_first_refusal (refused : List String) (label source : String) (locals : Locals)
    (nodes : List Node) (stage : Stage (List HostCall)) :
    let made := requests (recorder []) label source locals nodes stage
    (finalState (run (recorder []) label source locals nodes) stage).state =
        stage.state ++ made.map Request.call ∧
      ((∀ request ∈ made, request.call.name ∉ refused) →
        run (recorder refused) label source locals nodes stage =
          run (recorder []) label source locals nodes stage) ∧
      (∀ passed request later, made = passed ++ request :: later →
        (∀ earlier ∈ passed, earlier.call.name ∉ refused) → request.call.name ∈ refused →
        run (recorder refused) label source locals nodes stage =
          .error (.runtime "host" none (.refused request.call.name))
            ⟨request.frames.write request.call.writtenFirst,
              stage.state ++ (passed ++ [request]).map Request.call⟩) := by
  intro made
  obtain ⟨all, halts⟩ := run_related haltsAtRefusal_compatible (recorder_halts refused) label source
    locals nodes ⟨stage.frames, ⟨stage.state, []⟩⟩
  have whole : run (recorder []) label source locals nodes stage = mapState unlogged
      (run (recorder []).logged label source locals nodes ⟨stage.frames, ⟨stage.state, []⟩⟩) :=
    run_unlogged (recorder []) label source locals nodes ⟨stage.frames, ⟨stage.state, []⟩⟩
  have allMade : made = all := halts.requests
  rw [allMade]
  refine ⟨?_, ?_, halts.stops⟩
  · rw [finalState_of_mapState whole]
    exact halts.calls
  · intro allowed
    exact (halts.same allowed).trans whole.symm

def gallery : List Node :=
  [.each "name" ⟨.path ["names"], ⟨0, 0⟩⟩
    [.text "<li>", .eval ⟨.call "partial" [.positional (.path ["name"])], ⟨0, 0⟩⟩,
      .branch ⟨.binary .or (.call "partial_content" [.positional (.literal (.string "note"))])
        (.call "yield" []), ⟨0, 0⟩⟩ [.text "."] []]]

theorem gallery_stops_at_second_photo :
    let locals : Locals := ⟨[("names", .list [.string "one", .string "two"])]⟩
    let made := requests (recorder []) "inline" "" locals gallery ⟨.empty, []⟩
    let passed := made.take 2
    made.map (·.call.name) = ["one", "note", "two", "note"] ∧
    (∀ earlier ∈ passed, earlier.call.name ∉ ["yield", "two"]) ∧
    run (recorder ["yield", "two"]) "inline" "" locals gallery ⟨.empty, []⟩ =
      .error (.runtime "host" none (.refused "two"))
        ⟨⟨"<li>[one].<li>[two", []⟩,
          [.renderPartial "one" .empty, .partialContent "note" .empty,
            .renderPartial "two" .empty]⟩ := by
  intro locals made passed
  have allowed : ∀ earlier ∈ passed, earlier.call.name ∉ ["yield", "two"] := by
    have names : passed.map (·.call.name) = ["one", "note"] := rfl
    intro earlier member named
    have among : earlier.call.name ∈ passed.map (·.call.name) := List.mem_map_of_mem member
    rw [names] at among
    simp only [List.mem_cons, List.not_mem_nil, or_false] at among named
    rcases among with same | same <;> simp [same] at named
  refine ⟨rfl, allowed, ?_⟩
  have stops := (stops_at_first_refusal ["yield", "two"] "inline" "" locals gallery ⟨.empty, []⟩).2.2
    passed ⟨.renderPartial "two" .empty, ⟨"<li>[one].<li>", []⟩⟩ (made.drop 3) rfl allowed
    (by decide)
  exact stops

end ThemeRender.Template
