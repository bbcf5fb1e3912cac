import ThemeRender.Proofs.Template.ExprPlaces
import ThemeRender.Proofs.Template.OwnFaults
import ThemeRender.Proofs.Text.Positions
import ThemeRender.Template.Recorder
/-!
The line that a fault of a template is told on. `Reaches` follows a run to a node at any depth of the
blocks around it; a run that fails by itself fails in the tag of a node that it reaches, and tells the
line on which the expression of that tag starts.
-/

namespace ThemeRender.Template

open Outcome (bind_ok bind_error)
open Marked (fresh unmarked)

variable {σ α β : Type}

def Node.evaluates? : Node → Option (Role × Spanned Expr)
  | .text _ => none
  | .output value => some (.output, value)
  | .eval code => some (.eval, code)
  | .branch condition _ _ => some (.condition, condition)
  | .each name items _ => some (.items name, items)

/-- A run of nodes on a stage comes to a node in them or in their blocks, in the scope and on the stage
that it finds there. -/
inductive Reaches (host : Host σ) :
    Scope → List Node → Stage σ → Scope → Node → Stage σ → Prop
  | here (scope : Scope) (node : Node) (rest : List Node) (stage : Stage σ) :
      Reaches host scope (node :: rest) stage scope node stage
  | later {scope inner : Scope} {node found : Node} {rest : List Node}
      {stage middle there : Stage σ} (runs : node.run host scope stage = .ok () middle)
      (reaches : Reaches host scope rest middle inner found there) :
      Reaches host scope (node :: rest) stage inner found there
  | yes {scope inner : Scope} {condition : Spanned Expr} {yes no rest : List Node} {found : Node}
      {value : Value} {stage middle there : Stage σ}
      (evaluates : evalSpanned host scope condition stage = .ok value middle)
      (holds : value.isTruthy = true)
      (reaches : Reaches host scope yes middle inner found there) :
      Reaches host scope (.branch condition yes no :: rest) stage inner found there
  | no {scope inner : Scope} {condition : Spanned Expr} {yes no rest : List Node} {found : Node}
      {value : Value} {stage middle there : Stage σ}
      (evaluates : evalSpanned host scope condition stage = .ok value middle)
      (fails : value.isTruthy = false)
      (reaches : Reaches host scope no middle inner found there) :
      Reaches host scope (.branch condition yes no :: rest) stage inner found there
  /-- In the turn of an item, after those of the items before it. -/
  | turn {scope inner : Scope} {name : String} {items : Spanned Expr} {body rest : List Node}
      {found : Node} {value item : Value} {before after : List Value}
      {stage middle last there : Stage σ}
      (evaluates : evalSpanned host scope items stage = .ok value middle)
      (goesThrough : itemsOf? value = some (before ++ item :: after))
      (turns : before.forM (fun item => Node.runAll host (scope.bind name item) body) middle =
        .ok () last)
      (reaches : Reaches host (scope.bind name item) body last inner found there) :
      Reaches host scope (.each name items body :: rest) stage inner found there

/-- The tag of a node fails: its expression does, or there is nothing for its loop to go through. -/
inductive TagFails (host : Host σ) (scope : Scope) :
    Node → Stage σ → RenderError → Stage σ → Prop
  | expression {node : Node} {place : Role × Spanned Expr} {stage after : Stage σ}
      {error : RenderError} (own : node.evaluates? = some place)
      (fails : evalSpanned host scope place.2 stage = .error error after) :
      TagFails host scope node stage error after
  | items {name : String} {items : Spanned Expr} {body : List Node} {value : Value}
      {stage after : Stage σ} (evaluates : evalSpanned host scope items stage = .ok value after)
      (noItems : itemsOf? value = none) :
      TagFails host scope (.each name items body) stage
        (.runtime scope.label (some (scope.lineOf items.span)) (.notIterable value.typeName)) after

/-- The run comes to a node whose tag fails, and the error tells the line of that tag's expression. -/
def FailsAtTag (host : Host σ) (scope : Scope) (nodes : List Node) (stage : Stage σ)
    (error : RenderError) (after : Stage σ) : Prop :=
  ∃ inner node there place fault, Reaches host scope nodes stage inner node there ∧
    node.evaluates? = some place ∧ TagFails host inner node there error after ∧
    fault.ofTemplate = true ∧
    error = .runtime scope.label (some (scope.lineOf place.2.span)) fault

/-- What a computation comes to beside a host that had not failed: a result, a failure of the host, or
a failure of its own, of which something is known. -/
inductive EndsAt (P : RenderError → Stage σ → Prop) :
    EStateM.Result RenderError (Stage (Marked σ)) α → Prop
  | ok (a : α) {after : Stage (Marked σ)} (clean : after.state.hostFailed = false) :
      EndsAt P (.ok a after)
  | host (error : RenderError) {after : Stage (Marked σ)}
      (failed : after.state.hostFailed = true) : EndsAt P (.error error after)
  | own {error : RenderError} {after : Stage (Marked σ)}
      (clean : after.state.hostFailed = false) (fails : P error (unmarked after)) :
      EndsAt P (.error error after)

namespace EndsAt

variable {P Q : RenderError → Stage σ → Prop}

theorem mono {result : EStateM.Result RenderError (Stage (Marked σ)) α} (ends : EndsAt P result)
    (implies : ∀ error after, P error after → Q error after) : EndsAt Q result := by
  cases ends with
  | ok a clean => exact .ok a clean
  | host error failed => exact .host error failed
  | own clean fails => exact .own clean (implies _ _ fails)

theorem bind {first : Render (Marked σ) α} {next : α → Render (Marked σ) β}
    {stage : Stage (Marked σ)} (ends : EndsAt P (first stage))
    (nextEnds : ∀ a middle, first stage = .ok a middle → middle.state.hostFailed = false →
      EndsAt P (next a middle)) : EndsAt P ((first >>= next) stage) := by
  generalize runs : first stage = result at ends
  cases ends with
  | ok a clean =>
      rw [bind_ok runs]
      exact nextEnds a _ runs clean
  | host error failed =>
      rw [bind_error runs]
      exact .host error failed
  | own clean fails =>
      rw [bind_error runs]
      exact .own clean fails

theorem forM {body : Value → Render (Marked σ) Unit} {values : List Value}
    {start : Stage (Marked σ)} (clean : start.state.hostFailed = false)
    (turn : ∀ before item after middle, values = before ++ item :: after →
      before.forM body start = .ok () middle → middle.state.hostFailed = false →
        EndsAt P (body item middle)) : EndsAt P (values.forM body start) := by
  have turns : ∀ after before middle, values = before ++ after →
      before.forM body start = .ok () middle → middle.state.hostFailed = false →
        EndsAt P (after.forM body middle) := by
    intro after
    induction after with
    | nil =>
        intro before middle _ _ cleanThere
        exact .ok () cleanThere
    | cons item after ih =>
        intro before middle split ran cleanThere
        apply (turn before item after middle split ran cleanThere).bind
        intro _ next runs cleanNext
        apply ih (before ++ [item]) next (by simp [split]) ?_ cleanNext
        have steps : (before ++ [item]).forM body =
            (do before.forM body; body item) := by
          simp [List.forM_append]
        rw [steps, bind_ok ran]
        exact runs
  exact turns values [] start rfl rfl clean

end EndsAt

section

variable {host : Host σ} {scope : Scope} {stage : Stage (Marked σ)}

theorem ok_of_unmarks {first : Render (Marked σ) α} {second : Render σ α} {a : α}
    {after : Stage (Marked σ)} (unmarks : Unmarks first second) (runs : first stage = .ok a after) :
    second (unmarked stage) = .ok a (unmarked after) := by
  rw [unmarks stage, runs]
  rfl

theorem error_of_unmarks {first : Render (Marked σ) α} {second : Render σ α} {error : RenderError}
    {after : Stage (Marked σ)} (unmarks : Unmarks first second)
    (fails : first stage = .error error after) :
    second (unmarked stage) = .error error (unmarked after) := by
  rw [unmarks stage, fails]
  rfl

theorem evalSpanned_endsAt (clean : stage.state.hostFailed = false) (code : Spanned Expr) :
    EndsAt (fun error after => evalSpanned host scope code (unmarked stage) = .error error after ∧
        ∃ fault : RuntimeFault, fault.ofTemplate = true ∧
          error = .runtime scope.label (some (scope.lineOf code.span)) fault)
      (evalSpanned host.marked scope code stage) := by
  let lines (line line' : Nat) : Prop := line = scope.lineOf code.span ∧ line' = line
  have places : Places (fun {α} first second =>
      AlikeButLines (σ := σ) scope.label lines (α := α) first second) scope scope
        (scope.lineOf code.span) (scope.lineOf code.span) :=
    ⟨fun _ => rfl, AlikeButLines.fault ⟨rfl, rfl⟩⟩
  have alike := Expr.eval_related AlikeButLines.sequential (AlikeButLines.hosts host) places
    code.node stage clean
  generalize runs : Expr.eval host.marked scope (scope.lineOf code.span) code.node stage = result
    at alike
  have same : evalSpanned host.marked scope code stage = result := runs
  rw [same]
  cases alike with
  | ok a cleanAfter => exact .ok a cleanAfter
  | host error failed => exact .host error failed
  | own ofTemplate cleanAfter related =>
      refine .own cleanAfter
        ⟨error_of_unmarks (evalSpanned_unmarked host scope code) same, _, ofTemplate, ?_⟩
      rw [related.1]

/-! Down the blocks -/

theorem FailsAtTag.of_evaluates {node : Node} {rest : List Node} {before after : Stage σ}
    {error : RenderError} (place : Role × Spanned Expr) (own : node.evaluates? = some place)
    (fails : evalSpanned host scope place.2 before = .error error after ∧
      ∃ fault : RuntimeFault, fault.ofTemplate = true ∧
        error = .runtime scope.label (some (scope.lineOf place.2.span)) fault) :
    FailsAtTag host scope (node :: rest) before error after := by
  obtain ⟨fails, fault, told⟩ := fails
  exact ⟨scope, node, before, place, fault, .here scope node rest before, own,
    .expression own fails, told⟩

theorem FailsAtTag.from {scope' : Scope} {nodes nodes' : List Node} {before before' after : Stage σ}
    {error : RenderError} (fails : FailsAtTag host scope' nodes' before' error after)
    (label : scope'.label = scope.label) (source : scope'.source = scope.source)
    (reaches : ∀ inner found there, Reaches host scope' nodes' before' inner found there →
      Reaches host scope nodes before inner found there) :
    FailsAtTag host scope nodes before error after := by
  obtain ⟨inner, node, there, place, fault, reached, own, tag, ofTemplate, line⟩ := fails
  refine ⟨inner, node, there, place, fault, reaches _ _ _ reached, own, tag, ofTemplate, ?_⟩
  rw [line, label, Scope.lineOf, Scope.lineOf, source]

end

mutual

theorem Node.run_endsAt (host : Host σ) (rest : List Node) :
    ∀ (node : Node) (scope : Scope) (stage : Stage (Marked σ)), stage.state.hostFailed = false →
      EndsAt (FailsAtTag host scope (node :: rest) (unmarked stage))
        (node.run host.marked scope stage)
  | .text contents, scope, stage, clean => by
      rw [Node.run]
      exact .ok () clean
  | .output value, scope, stage, clean => by
      rw [Node.run]
      apply ((evalSpanned_endsAt clean value).mono fun _ _ =>
        FailsAtTag.of_evaluates (.output, value) rfl).bind
      intro _ middle _ cleanMiddle
      exact .ok () cleanMiddle
  | .eval code, scope, stage, clean => by
      rw [Node.run]
      apply ((evalSpanned_endsAt clean code).mono fun _ _ =>
        FailsAtTag.of_evaluates (.eval, code) rfl).bind
      intro _ middle _ cleanMiddle
      exact .ok () cleanMiddle
  | .branch condition yes no, scope, stage, clean => by
      rw [Node.run]
      apply ((evalSpanned_endsAt clean condition).mono fun _ _ =>
        FailsAtTag.of_evaluates (.condition, condition) rfl).bind
      intro value middle runs cleanMiddle
      have evaluates := ok_of_unmarks (evalSpanned_unmarked host scope condition) runs
      cases truth : value.isTruthy with
      | true =>
          rw [if_pos rfl]
          apply (Node.runAll_endsAt host yes scope middle cleanMiddle).mono
          intro error after fails
          exact fails.from rfl rfl fun _ _ _ => .yes evaluates truth
      | false =>
          rw [if_neg Bool.false_ne_true]
          apply (Node.runAll_endsAt host no scope middle cleanMiddle).mono
          intro error after fails
          exact fails.from rfl rfl fun _ _ _ => .no evaluates truth
  | .each name items body, scope, stage, clean => by
      rw [Node.run]
      apply ((evalSpanned_endsAt clean items).mono fun _ _ =>
        FailsAtTag.of_evaluates (.items name, items) rfl).bind
      intro value middle runs cleanMiddle
      have evaluates := ok_of_unmarks (evalSpanned_unmarked host scope items) runs
      cases goesThrough : itemsOf? value with
      | none =>
          exact .own cleanMiddle ⟨scope, _, _, (.items name, items), _, .here scope _ rest _, rfl,
            .items evaluates goesThrough, rfl, rfl⟩
      | some values =>
          apply EndsAt.forM cleanMiddle
          intro before item after last split turned cleanLast
          apply (Node.runAll_endsAt host body (scope.bind name item) last cleanLast).mono
          intro error stop fails
          have turns : Unmarks
              (before.forM fun item => Node.runAll host.marked (scope.bind name item) body)
              (before.forM fun item => Node.runAll host (scope.bind name item) body) :=
            unmarks_compatible.forM (fun item => runAll_unmarked host (scope.bind name item) body)
              before
          exact fails.from rfl rfl fun _ _ _ =>
            .turn evaluates (split ▸ goesThrough) (ok_of_unmarks turns turned)

/-- A run that fails by itself fails in a tag that it comes to. -/
theorem Node.runAll_endsAt (host : Host σ) :
    ∀ (nodes : List Node) (scope : Scope) (stage : Stage (Marked σ)),
      stage.state.hostFailed = false →
        EndsAt (FailsAtTag host scope nodes (unmarked stage))
          (Node.runAll host.marked scope nodes stage)
  | [], scope, stage, clean => by
      rw [Node.runAll]
      exact .ok () clean
  | node :: rest, scope, stage, clean => by
      rw [Node.runAll]
      apply (Node.run_endsAt host rest node scope stage clean).bind
      intro _ middle runs cleanMiddle
      have ran := ok_of_unmarks (Node.run_unmarked host scope node) runs
      apply (Node.runAll_endsAt host rest scope middle cleanMiddle).mono
      intro error after fails
      exact fails.from rfl rfl fun _ _ _ => .later ran

end

/-! The line of the tag -/

theorem Reaches.mem_allPlaces {host : Host σ} {scope inner : Scope} {nodes : List Node} {node : Node}
    {stage there : Stage σ} (reaches : Reaches host scope nodes stage inner node there)
    {place : Role × Spanned Expr} (own : node.evaluates? = some place) :
    place ∈ Node.allPlaces nodes := by
  induction reaches with
  | here scope node rest stage =>
      have first : place ∈ node.places := by
        cases node with
        | text => cases own
        | output | eval | branch | each =>
            cases own
            simp [Node.places]
      exact List.mem_append_left _ first
  | later _ _ ih => exact List.mem_append_right _ (ih own)
  | yes _ _ _ ih => simp [Node.allPlaces, Node.places, ih own]
  | no _ _ _ ih => simp [Node.allPlaces, Node.places, ih own]
  | turn _ _ _ _ ih => simp [Node.allPlaces, Node.places, ih own]

theorem exprAt_of_mem_allPlaces {source : String} {nodes : List Node}
    (parsed : parse source = .ok nodes) {place : Role × Spanned Expr}
    (member : place ∈ Node.allPlaces nodes) :
    ∃ code offset tokens text, ExprAt source place.1 place.2 code offset tokens text := by
  obtain ⟨found, moves, split, hasMoves, ran⟩ := parse_eq_ok_iff.mp parsed
  have same : Node.allPlaces nodes = moves.flatMap Move.places := Assembly.places_run ran
  exact (hasMoves.isReadFrom place (same ▸ member)).exprAt split

theorem ExprAt.lineHolds {source : String} {role : Role} {value : Spanned Expr} {code text : List Char}
    {offset : Nat} {tokens : List (Spanned Token)}
    (exprAt : ExprAt source role value code offset tokens text) :
    ∃ first, tokens.head? = some first ∧
      Text.LineHolds source.toList (Text.lineAt source.toList value.span.start)
        (first.span.start + offset) := by
  obtain ⟨first, last, isFirst, -, ends⟩ := exprAt.ends
  refine ⟨first, isFirst, ?_⟩
  have within : value.span.start < Text.byteLength source.toList :=
    Nat.lt_of_lt_of_le exprAt.nonempty exprAt.covers.stop_le
  have start : value.span.start = first.span.start + offset := congrArg Span.start ends
  rw [← start]
  exact Text.lineHolds_lineAt within

theorem fails_of_failsItself {host : Host σ} {label source : String} {locals : Locals}
    {nodes : List Node} {stage : Stage σ}
    (fails : failsItself host label source locals nodes stage = true) :
    ∃ error after, run host label source locals nodes stage = .error error after ∧
      FailsAtTag host ⟨label, source.toList, locals, []⟩ nodes stage error after := by
  have ends := Node.runAll_endsAt host nodes ⟨label, source.toList, locals, []⟩ (fresh stage) rfl
  have unmarks := run_unmarked host label source locals nodes
  unfold failsItself at fails
  change EndsAt _ (run host.marked label source locals nodes (fresh stage)) at ends
  generalize runs : run host.marked label source locals nodes (fresh stage) = result at ends fails
  cases ends with
  | ok => cases fails
  | host error failed =>
      simp only [failed] at fails
      cases fails
  | own clean atTag => exact ⟨_, _, error_of_unmarks unmarks runs, atTag⟩

/-- A run that fails by itself comes to a tag, at some depth of blocks, that fails; the error names the
template and the line of the first token of the expression of that tag, whatever calls the failure
lies within. -/
theorem fault_tells_line_of_tag (host : Host σ) (label source : String) (locals : Locals)
    {nodes : List Node} (parsed : parse source = .ok nodes) (stage : Stage σ)
    (fails : failsItself host label source locals nodes stage = true) :
    ∃ inner node there place line fault after,
      Reaches host ⟨label, source.toList, locals, []⟩ nodes stage inner node there ∧
      node.evaluates? = some place ∧
      TagFails host inner node there (.runtime label (some line) fault) after ∧
      fault.ofTemplate = true ∧
      run host label source locals nodes stage = .error (.runtime label (some line) fault) after ∧
      (∃ code offset tokens text first,
        ExprAt source place.1 place.2 code offset tokens text ∧ tokens.head? = some first ∧
        Text.LineHolds source.toList line (first.span.start + offset)) ∧
      1 ≤ line ∧ line ≤ (Text.lines source.toList).length := by
  obtain ⟨error, after, runs, inner, node, there, place, fault, reaches, own, tag, ofTemplate, rfl⟩ :=
    fails_of_failsItself fails
  obtain ⟨code, offset, tokens, text, exprAt⟩ :=
    exprAt_of_mem_allPlaces parsed (reaches.mem_allPlaces own)
  obtain ⟨first, isFirst, holds⟩ := exprAt.lineHolds
  exact ⟨inner, node, there, place, _, fault, after, reaches, own, tag, ofTemplate, runs,
    ⟨code, offset, tokens, text, first, exprAt, isFirst, holds⟩, holds.bounds⟩

def escapedList : String :=
  "é\r\n<% for x in xs %>\n<%=\n  escape(nope(x)) %>\n<% end %>"

def escapedListNodes : List Node :=
  [.text "é\r\n", .each "x" ⟨.path ["xs"], ⟨16, 18⟩⟩
    [.output ⟨.call "escape" [.positional (.call "nope" [.positional (.path ["x"])])], ⟨28, 43⟩⟩,
      .text "\n"]]

theorem nested_call_tells_line_four :
    let locals : Locals := ⟨[("xs", .list [.string "a"])]⟩
    parse escapedList = .ok escapedListNodes ∧
      failsItself (recorder []) "page" escapedList locals escapedListNodes ⟨.empty, []⟩ = true ∧
      run (recorder []) "page" escapedList locals escapedListNodes ⟨.empty, []⟩ =
        .error (.runtime "page" (some 4) (.unknownFunction "nope")) ⟨⟨"é\r\n", []⟩, []⟩ ∧
      ∃ role value code offset tokens text first,
        ExprAt escapedList role value code offset tokens text ∧ tokens.head? = some first ∧
        Text.LineHolds escapedList.toList 4 (first.span.start + offset) := by
  intro locals
  have parsed : parse escapedList = .ok escapedListNodes := parse_of_areSame (by decide +kernel)
  have fails : failsItself (recorder []) "page" escapedList locals escapedListNodes ⟨.empty, []⟩ =
      true := rfl
  have ran : run (recorder []) "page" escapedList locals escapedListNodes ⟨.empty, []⟩ =
      .error (.runtime "page" (some 4) (.unknownFunction "nope")) ⟨⟨"é\r\n", []⟩, []⟩ := rfl
  obtain ⟨_, _, _, place, line, fault, _, _, _, _, _, runs, told, _⟩ :=
    fault_tells_line_of_tag (recorder []) "page" escapedList locals parsed ⟨.empty, []⟩ fails
  have four : line = 4 := by
    rw [ran] at runs
    cases runs
    rfl
  subst four
  exact ⟨parsed, fails, ran, place.1, place.2, told⟩

end ThemeRender.Template
