import ThemeRender.Proofs.Template.CommentLine
import ThemeRender.Proofs.Template.OwnFaults
import ThemeRender.Proofs.Template.Requests
import ThemeRender.Proofs.Template.SameNodes
import ThemeRender.Proofs.Text.Positions
import ThemeRender.Template.Recorder
/-!
Templates in a row, and lines that are put in between. A template below other lines runs as it does by
itself, but for the lines that its own faults are told on: `runBelow`.
-/

namespace ThemeRender

def RenderError.later (lines : Nat) : RenderError → RenderError
  | .runtime template (some line) fault => .runtime template (some (line + lines)) fault
  | error => error

namespace Template

open Outcome (finalState mapState)
open Marked (fresh unmarked)
open Logged (unlogged)
open Text (Whole byteLength lineAt)

variable {σ : Type} {Same : Spanned Expr → Spanned Expr → Prop}

/-! Running below other lines -/

/-- Runs a template that stands so many lines further down. Its own faults are told there; the
failures of its host are what they are. -/
def runBelow (lines : Nat) (host : Host σ) (label source : String) (locals : Locals)
    (nodes : List Node) : Render σ Unit := fun stage =>
  match run host label source locals nodes stage with
  | .ok () after => .ok () after
  | .error error after =>
      .error (if failsItself host label source locals nodes stage then error.later lines else error)
        after

section

variable (host : Host σ) (label source : String) (locals : Locals) (nodes : List Node)

theorem finalState_runBelow (lines : Nat) (stage : Stage σ) :
    finalState (runBelow lines host label source locals nodes) stage =
      finalState (run host label source locals nodes) stage := by
  unfold finalState runBelow
  cases run host label source locals nodes stage with
  | ok => rfl
  | error => rfl

theorem exists_runBelow {whole : Render σ Unit} {wholeMarked : Render (Marked σ) Unit}
    (unmarks : Unmarks wholeMarked whole) {first : Nat} {more : List Nat}
    (alike : AlikeButLines label (fun line' line => ∃ added ∈ first :: more, line' = line + added)
      wholeMarked (run host.marked label source locals nodes)) (stage : Stage σ) :
    ∃ added ∈ first :: more, whole stage = runBelow added host label source locals nodes stage := by
  have outcome := alike (fresh stage) rfl
  have unmarksRun := run_unmarked host label source locals nodes (fresh stage)
  have unmarksWhole := unmarks (fresh stage)
  change whole stage = _ at unmarksWhole
  change run host label source locals nodes stage = _ at unmarksRun
  rw [unmarksWhole]
  unfold runBelow failsItself
  rw [unmarksRun]
  generalize wholeMarked (fresh stage) = result,
    run host.marked label source locals nodes (fresh stage) = result' at outcome
  cases outcome with
  | ok a clean => exact ⟨first, List.mem_cons_self, rfl⟩
  | host error failed =>
      refine ⟨first, List.mem_cons_self, ?_⟩
      simp [mapState, failed]
  | own ofTemplate clean related =>
      obtain ⟨added, member, rfl⟩ := related
      refine ⟨added, member, ?_⟩
      simp [mapState, clean, RenderError.later]

end

/-! Nodes at other places -/

theorem Tells.same {source source' : List Char} (host : Host σ) (label : String)
    (alike : ∀ {value value' : Spanned Expr}, Same value value' →
      value.node = value'.node ∧ lineAt source value.span.start = lineAt source' value'.span.start) :
    Tells Eq Same host host label source source' where
  sequential := Compatible.eq.sequential
  hosts := .same host
  write _ := rfl
  node same := (alike same).1
  fault same _ _ _ := by rw [(alike same).2]

theorem Tells.butLines {source source' : List Char} {lines : Nat → Nat → Prop} (host : Host σ)
    (label : String) (alike : ∀ {value value' : Spanned Expr}, Same value value' →
      value.node = value'.node ∧
        lines (lineAt source value.span.start) (lineAt source' value'.span.start)) :
    Tells (fun {α} first second => AlikeButLines (σ := σ) label lines (α := α) first second) Same
      host.marked host.marked label source source' where
  sequential := AlikeButLines.sequential
  hosts := AlikeButLines.hosts host
  write := AlikeButLines.write
  node same := (alike same).1
  fault same _ fault ofTemplate := AlikeButLines.fault (alike same).2 fault ofTemplate

theorem run_of_retold {nodes nodes' : List Node} (told : Retold Eq nodes nodes') (host : Host σ)
    (label source : String) (locals : Locals) :
    run host label source locals nodes = run host label source locals nodes' := by
  apply (Tells.same host label ?_).runAll locals told []
  rintro value _ rfl
  exact ⟨rfl, rfl⟩

theorem lineAt_above {before : String} {place : Nat} (within : place ≤ byteLength before.toList)
    (after : String) : lineAt (before ++ after).toList place = lineAt before.toList place := by
  rw [String.toList_append, Text.lineAt_append_of_le within]

theorem lineAt_below (before after : String) (place : Nat) :
    lineAt (before ++ after).toList (place + byteLength before.toList) =
      lineAt after.toList place + before.toList.count '\n' := by
  rw [String.toList_append, Nat.add_comm, Text.lineAt_append_add]

theorem runAll_above {before after : String} {nodes : List Node}
    (parsed : parse before = .ok nodes) (host : Host σ) (label : String) (locals : Locals) :
    Node.runAll host ⟨label, (before ++ after).toList, locals, []⟩ nodes =
      run host label before locals nodes := by
  obtain ⟨moves, makes, ran⟩ := parse_eq_ok_iff_makes.mp parsed
  have places : Node.allPlaces nodes = moves.flatMap Move.places := Assembly.places_run ran
  have told : Retold (fun value value' => value = value' ∧
      value.span.start ≤ byteLength before.toList) nodes nodes :=
    .refl nodes fun place member => ⟨rfl, makes.within place (places ▸ member)⟩
  apply (Tells.same host label ?_).runAll locals told []
  rintro value _ ⟨rfl, within⟩
  exact ⟨rfl, lineAt_above within after⟩

theorem runAll_below {before after : String} {below nodes : List Node}
    (told : Retold (fun moved value => moved = value.shift (byteLength before.toList)) below nodes)
    (host : Host σ) (label : String) (locals : Locals) :
    Node.runAll host ⟨label, (before ++ after).toList, locals, []⟩ below =
      runBelow (before.toList.count '\n') host label after locals nodes := by
  funext stage
  have unmarks : Unmarks (Node.runAll host.marked ⟨label, (before ++ after).toList, locals, []⟩ below)
      (Node.runAll host ⟨label, (before ++ after).toList, locals, []⟩ below) :=
    runAll_unmarked host _ below
  have tells : Tells (fun {α} first second => AlikeButLines (σ := σ) label
      (fun line' line => ∃ added ∈ [before.toList.count '\n'], line' = line + added)
        (α := α) first second)
      (fun moved value => moved = value.shift (byteLength before.toList)) host.marked host.marked
      label (before ++ after).toList after.toList := by
    apply Tells.butLines
    rintro _ value rfl
    exact ⟨rfl, _, List.mem_cons_self, lineAt_below before after _⟩
  obtain ⟨added, member, same⟩ := exists_runBelow host label after locals nodes unmarks
    (tells.runAll locals told []) stage
  rw [List.mem_singleton.mp member] at same
  exact same

/-! Two templates in a row -/

theorem run_append {before : String} {nodes nodesAfter below read : List Node} (after : String)
    (parsed : parse before = .ok nodes) (told : Retold Eq read (nodes ++ below))
    (toldBelow : Retold (fun moved value => moved = value.shift (byteLength before.toList)) below
      nodesAfter)
    (host : Host σ) (label : String) (locals : Locals) :
    run host label (before ++ after) locals read = (do
      run host label before locals nodes
      runBelow (before.toList.count '\n') host label after locals nodesAfter) := by
  rw [run_of_retold told, run, runAll_append, runAll_above parsed, runAll_below toldBelow]

theorem requests_append {host : Host σ} {label source first second : String} {locals : Locals}
    {nodes nodesFirst nodesSecond : List Node} {lines : Nat}
    (inTurn : run host.logged label source locals nodes = (do
      run host.logged label first locals nodesFirst
      runBelow lines host.logged label second locals nodesSecond)) (stage : Stage σ) :
    requests host label source locals nodes stage =
      requests host label first locals nodesFirst stage ++
        match run host label first locals nodesFirst stage with
        | .ok () middle => requests host label second locals nodesSecond middle
        | .error _ _ => [] := by
  have unlogs := run_unlogged host label first locals nodesFirst ⟨stage.frames, ⟨stage.state, []⟩⟩
  change run host label first locals nodesFirst stage = _ at unlogs
  rw [requests, inTurn, unlogs]
  cases runs : run host.logged label first locals nodesFirst ⟨stage.frames, ⟨stage.state, []⟩⟩ with
  | ok _ middle =>
      have asked : requests host label first locals nodesFirst stage = middle.state.requests :=
        congrArg (·.state.requests) (Outcome.finalState_ok runs)
      rw [Outcome.finalState_bind_ok runs, finalState_runBelow, requests_behind, asked]
      rfl
  | error _ after =>
      have asked : requests host label first locals nodesFirst stage = after.state.requests :=
        congrArg (·.state.requests) (Outcome.finalState_error runs)
      rw [Outcome.finalState_bind_error runs, asked]
      exact (List.append_nil _).symm

/-! A comment line between lines -/

theorem Displaced.lines {before line after : String} {moved value : Spanned Expr}
    (displaced : Displaced (byteLength before.toList) (byteLength (before ++ line).toList)
      moved value) :
    moved.node = value.node ∧ ∃ added ∈ [0, line.toList.count '\n'],
      lineAt (before ++ line ++ after).toList moved.span.start =
        lineAt (before ++ after).toList value.span.start + added := by
  rcases displaced with ⟨rfl, within⟩ | ⟨own, rfl, rfl⟩
  · refine ⟨rfl, 0, by simp, ?_⟩
    rw [String.append_assoc, lineAt_above within, lineAt_above within, Nat.add_zero]
  · refine ⟨rfl, line.toList.count '\n', by simp, ?_⟩
    change lineAt _ (own.span.start + _) = lineAt _ (own.span.start + _) + _
    rw [lineAt_below, lineAt_below, String.toList_append, List.count_append, Nat.add_assoc]

theorem CommentLine.exists_runBelow {before after : String} {read readInserted : List Node}
    (line : CommentLine) (whole : Whole before.toList) (outside : OutsideTags before.toList)
    (parsed : parse (before ++ after) = .ok read)
    (parsedInserted : parse (before ++ line.text ++ after) = .ok readInserted) (host : Host σ)
    (label : String) (locals : Locals) (stage : Stage σ) :
    ∃ added ∈ [0, line.text.toList.count '\n'],
      run host label (before ++ line.text ++ after) locals readInserted stage =
        runBelow added host label (before ++ after) locals read stage := by
  obtain ⟨nodes, inserted, toldRead, toldInserted, told⟩ :=
    line.retold whole outside parsed parsedInserted
  apply Template.exists_runBelow host label _ locals read
    (run_unmarked host label _ locals readInserted)
  rw [run_of_retold toldInserted, run_of_retold toldRead]
  exact (Tells.butLines host label Displaced.lines).runAll locals told []

theorem requests_of_runBelow {host : Host σ} {label source source' : String} {locals : Locals}
    {nodes nodes' : List Node} {stage : Stage σ} {lines : Nat}
    (same : run host.logged label source' locals nodes' ⟨stage.frames, ⟨stage.state, []⟩⟩ =
      runBelow lines host.logged label source locals nodes ⟨stage.frames, ⟨stage.state, []⟩⟩) :
    requests host label source' locals nodes' stage =
      requests host label source locals nodes stage := by
  rw [requests, requests, ← finalState_runBelow host.logged label source locals nodes lines]
  unfold finalState
  rw [same]

/-- Templates go together where lines start. What follows whole lines is read as it is by itself: two
templates in a row are a template, which runs as the first and then the second below it. And a line
with only a comment, between lines and outside of every tag, changes neither whether the template is
accepted nor what a run of it does, except for the lines that are told. -/
theorem templates_compose_at_lines :
    (∀ (before after : String) (nodes nodesAfter : List Node), parse before = .ok nodes →
      parse after = .ok nodesAfter → Whole before.toList →
        ∃ read, parse (before ++ after) = .ok read ∧
          ∀ (σ : Type) (host : Host σ) (label : String) (locals : Locals),
            run host label (before ++ after) locals read = (do
              run host label before locals nodes
              runBelow (before.toList.count '\n') host label after locals nodesAfter) ∧
            ∀ stage, requests host label (before ++ after) locals read stage =
              requests host label before locals nodes stage ++
                match run host label before locals nodes stage with
                | .ok () middle => requests host label after locals nodesAfter middle
                | .error _ _ => []) ∧
    ∀ (before after : String) (line : CommentLine), Whole before.toList →
      OutsideTags before.toList →
        ((∃ nodes, parse (before ++ after) = .ok nodes) ↔
          ∃ inserted, parse (before ++ line.text ++ after) = .ok inserted) ∧
        ∀ nodes inserted, parse (before ++ after) = .ok nodes →
          parse (before ++ line.text ++ after) = .ok inserted →
            ∀ (σ : Type) (host : Host σ) (label : String) (locals : Locals) (stage : Stage σ),
              (∃ added ∈ [0, line.text.toList.count '\n'],
                run host label (before ++ line.text ++ after) locals inserted stage =
                  runBelow added host label (before ++ after) locals nodes stage) ∧
              requests host label (before ++ line.text ++ after) locals inserted stage =
                requests host label (before ++ after) locals nodes stage := by
  constructor
  · intro before after nodes nodesAfter parsed parsedAfter whole
    obtain ⟨below, together, toldBelow⟩ := PutTogether.of_parses parsed parsedAfter
    obtain ⟨read, parsedBoth, told⟩ := together.exists_parse whole
    refine ⟨read, parsedBoth, fun σ host label locals => ?_⟩
    have inTurn {τ : Type} (host : Host τ) := run_append after parsed told toldBelow host label locals
    exact ⟨inTurn host, requests_append (inTurn host.logged)⟩
  · intro before after line whole outside
    refine ⟨line.accepted_iff whole outside after, ?_⟩
    intro nodes inserted parsed parsedInserted σ host label locals stage
    obtain ⟨lines, -, same⟩ := line.exists_runBelow whole outside parsed parsedInserted host.logged
      label locals ⟨stage.frames, ⟨stage.state, []⟩⟩
    exact ⟨line.exists_runBelow whole outside parsed parsedInserted host label locals stage,
      requests_of_runBelow same⟩

/-- A fault on the second line is told there, and a comment line above it moves it on at most. -/
theorem fault_below_comment_line :
    let line : CommentLine := ⟨[' '], rfl, " note ".toList, by decide, ['\n'], .inl rfl⟩
    let fault (told : Nat) : EStateM.Result RenderError (Stage (List HostCall)) Unit :=
      .error (.runtime "page" (some told) (.unknownFunction "nope")) ⟨⟨"é\n", []⟩, []⟩
    ∃ read inserted, parse ("é\n" ++ "<%= nope() %>") = .ok read ∧
      parse ("é\n" ++ line.text ++ "<%= nope() %>") = .ok inserted ∧
      run (recorder []) "page" ("é\n" ++ "<%= nope() %>") .empty read ⟨.empty, []⟩ = fault 2 ∧
      ∃ added ∈ [0, 1], run (recorder []) "page" ("é\n" ++ line.text ++ "<%= nope() %>") .empty
        inserted ⟨.empty, []⟩ = fault (2 + added) := by
  intro line fault
  have whole : Whole "é\n".toList := Text.whole_line ['é']
  have outside : OutsideTags "é\n".toList := ⟨.last ⟨['é', '\n'], by decide⟩, rfl⟩
  have parsed : parse ("é\n" ++ "<%= nope() %>") =
      .ok [.text "é\n", .output ⟨.call "nope" [], ⟨7, 13⟩⟩] := parse_of_areSame (by decide +kernel)
  obtain ⟨inTurn, withLine⟩ := templates_compose_at_lines
  obtain ⟨read, parsedToo, runs⟩ :=
    inTurn "é\n" "<%= nope() %>" [.text "é\n"] [.output ⟨.call "nope" [], ⟨4, 10⟩⟩]
      (parse_of_areSame (by decide +kernel)) (parse_of_areSame (by decide +kernel)) whole
  obtain ⟨accepted, same⟩ := withLine "é\n" "<%= nope() %>" line whole outside
  obtain ⟨inserted, parsedInserted⟩ := accepted.mp ⟨_, parsed⟩
  obtain ⟨⟨added, member, ran⟩, -⟩ :=
    same _ inserted parsed parsedInserted _ (recorder []) "page" .empty ⟨.empty, []⟩
  have one : line.text.toList.count '\n' = 1 := by
    rw [line.toList_text]
    decide
  rw [one] at member
  refine ⟨read, inserted, parsedToo, parsedInserted, ?_, added, member, ran⟩
  rw [(runs _ (recorder []) "page" .empty).1]
  rfl

end Template

end ThemeRender
