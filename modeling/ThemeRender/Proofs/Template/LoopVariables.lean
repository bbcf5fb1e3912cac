import ThemeRender.Proofs.Data.Overlays
import ThemeRender.Proofs.Template.FreeNames
/-!
Loop variables. A run that keeps them on a stack, and takes each away after its item, is a run in
which they are laid over the locals one after another; nothing is left on the stack that was not
there before, after an error neither.
-/

namespace ThemeRender

namespace Locals

/-- The locals with the variables of a stack laid over them, the innermost last. -/
def overlaid (locals : Locals) (vars : List (String × Value)) : Locals :=
  vars.foldl (fun locals var => locals.insert var.1 var.2) locals

theorem get?_overlaid (locals : Locals) (vars : List (String × Value)) (name : String) :
    (locals.overlaid vars).get? name = (vars.reverse.lookup name).or (locals.get? name) := by
  induction vars generalizing locals with
  | nil => rfl
  | cons var rest ih =>
      obtain ⟨bound, value⟩ := var
      change ((locals.insert bound value).overlaid rest).get? name = _
      rw [ih, get?_insert, List.reverse_cons, List.lookup_append, Option.or_assoc]
      by_cases same : name = bound
      · simp [same]
      · have different : (name == bound) = false := by simpa using same
        simp [List.lookup_cons, same, different]

end Locals

namespace Fields

variable {α : Type}

theorem values_of_keys {fields : Fields α} {keys : List String} (sorted : Sorted fields)
    (ordered : keys.Pairwise (· < ·)) (complete : ∀ key, key ∈ keys ↔ (get? key fields).isSome) :
    (fields.map (·.2)).map some = keys.map (get? · fields) := by
  have sortedKeys : (fields.map (·.1)).Pairwise (· < ·) := List.pairwise_map.mpr sorted
  have keysOf : keys = fields.map (·.1) := by
    apply List.Perm.eq_of_pairwise ?_ ordered sortedKeys
    · rw [List.perm_ext_iff_of_nodup (ordered.imp String.ne_of_lt) (sortedKeys.imp String.ne_of_lt)]
      intro key
      rw [complete, get?_isSome_iff]
    · intro first second _ _ less more
      exact absurd (String.lt_trans less more) (String.lt_irrefl _)
  rw [keysOf, List.map_map, List.map_map]
  apply List.map_congr_left
  intro entry member
  exact (get?_of_sorted sorted member).symm

end Fields

namespace Template

variable {σ α : Type}

/-! Scopes that see the same -/

/-- Two places in one template where every name has the same value. -/
structure Scope.SeesSame (scope scope' : Scope) : Prop where
  label : scope.label = scope'.label
  source : scope.source = scope'.source
  get? : ∀ name, scope.get? name = scope'.get? name

section

variable {host : Host σ}

theorem Node.runAll_seesSame {scope scope' : Scope} (same : scope.SeesSame scope')
    (nodes : List Node) : Node.runAll host scope nodes = Node.runAll host scope' nodes :=
  Node.runAll_agrees nodes ⟨same.label, same.source, fun name _ => same.get? name⟩

theorem Scope.overlaid_seesSame (label : String) (source : List Char) (locals : Locals)
    (vars : List (String × Value)) :
    SeesSame ⟨label, source, locals, vars.reverse⟩ ⟨label, source, locals.overlaid vars, []⟩ where
  label := rfl
  source := rfl
  get? name := by
    unfold Scope.get?
    rw [Locals.get?_overlaid]
    rfl

theorem Scope.bind_overlaid (label : String) (source : List Char) (locals : Locals)
    (name : String) (value : Value) :
    (Scope.mk label source locals [] |>.bind name value).SeesSame
      ⟨label, source, locals.insert name value, []⟩ :=
  overlaid_seesSame label source locals [(name, value)]

/-! Loops -/

def inTurn (body : α → Render σ Unit) : List α → Render σ Unit
  | [] => fun stage => .ok () stage
  | item :: rest => fun stage =>
      match body item stage with
      | .ok () after => inTurn body rest after
      | .error error after => .error error after

theorem forM_eq_inTurn (body : α → Render σ Unit) (items : List α) :
    items.forM body = inTurn body items := by
  induction items with
  | nil => rfl
  | cons item rest ih =>
      change (do body item; rest.forM body) = _
      rw [ih]
      funext stage
      rw [inTurn]
      cases result : body item stage with
      | ok done after =>
          rw [Outcome.bind_ok result]
          simp only [result]
      | error error after =>
          rw [Outcome.bind_error result]
          simp only [result]

theorem runAll_each (label : String) (source : List Char) (locals : Locals) (name : String)
    (items : Spanned Expr) (body rest : List Node) :
    Node.runAll host ⟨label, source, locals, []⟩ (.each name items body :: rest) = (do
      let value ← evalSpanned host ⟨label, source, locals, []⟩ items
      match itemsOf? value with
      | none => throw (.runtime label (some (Text.lineAt source items.span.start))
          (.notIterable value.typeName))
      | some values =>
          inTurn (fun item =>
            Node.runAll host ⟨label, source, locals.insert name item, []⟩ body) values
          Node.runAll host ⟨label, source, locals, []⟩ rest) := by
  have bodies (item : Value) :
      Node.runAll host (Scope.bind name item ⟨label, source, locals, []⟩) body =
        Node.runAll host ⟨label, source, locals.insert name item, []⟩ body :=
    Node.runAll_seesSame (Scope.bind_overlaid label source locals name item) body
  rw [Node.runAll, Node.run, bind_assoc]
  apply bind_congr
  intro value
  cases itemsOf? value with
  | none => rfl
  | some values =>
      simp only [bodies, ← forM_eq_inTurn]

end

/-! Variables on a stack -/

/-- A state with the variables of loops on a stack beside it, the innermost last. -/
structure Stacked (σ : Type) where
  state : σ
  vars : List (String × Value)

namespace Stacked

def onStack (vars : List (String × Value)) (stage : Stage σ) : Stage (Stacked σ) :=
  ⟨stage.frames, ⟨stage.state, vars⟩⟩

def beside (action : Render σ α) : Render (Stacked σ) α := fun stage =>
  Outcome.mapState (onStack stage.state.vars) (action ⟨stage.frames, stage.state.state⟩)

def host (host : Host σ) : Host (Stacked σ) where
  yieldView := beside host.yieldView
  renderPartial name locals := beside (host.renderPartial name locals)
  partialContent name locals := beside (host.partialContent name locals)

def push (name : String) (value : Value) : Render (Stacked σ) Unit :=
  Staged.modifyState fun stacked => { stacked with vars := stacked.vars ++ [(name, value)] }

def pop (stage : Stage (Stacked σ)) : Stage (Stacked σ) :=
  { stage with state := { stage.state with vars := stage.state.vars.dropLast } }

/-- Takes the last variable away after a computation, whether it succeeds or not. -/
def thenPop (action : Render (Stacked σ) α) : Render (Stacked σ) α := fun stage =>
  Outcome.mapState pop (action stage)

end Stacked

open Stacked (onStack push pop thenPop beside)

section

variable (host : Host σ) (label : String) (source : List Char) (locals : Locals)

def Scope.ofStack (vars : List (String × Value)) : Scope :=
  ⟨label, source, locals, vars.reverse⟩

def evalOnStack (code : Spanned Expr) : Render (Stacked σ) Value := fun stage =>
  evalSpanned (Stacked.host host) (.ofStack label source locals stage.state.vars) code stage

mutual

/-- Runs a node with the variables of the loops around it on a stack. -/
def Node.exec : Node → Render (Stacked σ) Unit
  | .text contents => Staged.write contents
  | .output value => do
      let value ← evalOnStack host label source locals value
      Staged.write value.text
  | .eval code => do
      let _ ← evalOnStack host label source locals code
  | .branch condition yes no => do
      let value ← evalOnStack host label source locals condition
      if value.isTruthy then Node.execAll yes else Node.execAll no
  | .each name items body => do
      let value ← evalOnStack host label source locals items
      match itemsOf? value with
      | none => throw (.runtime label (some (Text.lineAt source items.span.start))
          (.notIterable value.typeName))
      | some values => values.forM fun item => do
          push name item
          thenPop (Node.execAll body)

def Node.execAll : List Node → Render (Stacked σ) Unit
  | [] => return
  | node :: rest => do
      Node.exec node
      Node.execAll rest

end

end

open Outcome (Mirrors mapState)

namespace Stacked

variable {vars : List (String × Value)}

theorem mirrors_beside (action : Render σ α) : Mirrors (onStack vars) action (beside action) :=
  fun _ => rfl

theorem mirrors_compatible :
    Compatible fun {α} (first : Render σ α) second => Mirrors (onStack vars) first second :=
  .mirrors fun _ _ => rfl

theorem mirrors_host (host : Host σ) :
    Host.Related (fun {α} (first : Render σ α) second => Mirrors (onStack vars) (α := α) first second)
      host (Stacked.host host) where
  yieldView := mirrors_beside _
  renderPartial _ _ := mirrors_beside _
  partialContent _ _ := mirrors_beside _

theorem mapState_pop (name : String) (value : Value)
    (result : EStateM.Result RenderError (Stage σ) α) :
    mapState pop (mapState (onStack (vars ++ [(name, value)])) result) =
      mapState (onStack vars) result := by
  cases result with
  | ok a after => simp [mapState, pop, onStack]
  | error error after => simp [mapState, pop, onStack]

theorem mirrors_push {body : Render σ α} {body' : Render (Stacked σ) α} {name : String}
    {value : Value} (mirrors : Mirrors (onStack (vars ++ [(name, value)])) body body') :
    Mirrors (onStack vars) body (do push name value; thenPop body') := by
  intro stage
  change mapState pop (body' (onStack (vars ++ [(name, value)]) stage)) = _
  rw [mirrors, mapState_pop]

end Stacked

section

variable {host : Host σ} {label : String} {source : List Char} {locals : Locals}

theorem evalOnStack_mirrors (vars : List (String × Value)) (code : Spanned Expr) :
    Mirrors (onStack vars) (evalSpanned host (.ofStack label source locals vars) code)
      (evalOnStack host label source locals code) := fun stage =>
  evalSpanned_related Stacked.mirrors_compatible (Stacked.mirrors_host host) _ code stage

theorem Scope.bind_ofStack (vars : List (String × Value)) (name : String) (value : Value) :
    (Scope.ofStack label source locals vars).bind name value =
      .ofStack label source locals (vars ++ [(name, value)]) := by
  simp [Scope.bind, Scope.ofStack]

mutual

theorem Node.exec_mirrors (vars : List (String × Value)) :
    ∀ node : Node, Mirrors (onStack vars) (node.run host (.ofStack label source locals vars))
      (node.exec host label source locals)
  | .text contents => by
      rw [Node.run, Node.exec]
      exact Stacked.mirrors_compatible.write contents
  | .output value => by
      rw [Node.run, Node.exec]
      exact (evalOnStack_mirrors vars value).bind fun _ => Stacked.mirrors_compatible.write _
  | .eval code => by
      rw [Node.run, Node.exec]
      exact (evalOnStack_mirrors vars code).bind fun _ => .pure ()
  | .branch condition yes no => by
      rw [Node.run, Node.exec]
      apply (evalOnStack_mirrors vars condition).bind
      intro value
      split
      · exact Node.execAll_mirrors vars yes
      · exact Node.execAll_mirrors vars no
  | .each name items body => by
      rw [Node.run, Node.exec]
      apply (evalOnStack_mirrors vars items).bind
      intro value
      cases itemsOf? value with
      | none => exact .throw _
      | some values =>
          -- the body sees one variable more than the loop
          apply Stacked.mirrors_compatible.forM
          intro item
          apply Stacked.mirrors_push
          rw [Scope.bind_ofStack]
          exact Node.execAll_mirrors _ body

theorem Node.execAll_mirrors (vars : List (String × Value)) :
    ∀ nodes : List Node,
      Mirrors (onStack vars) (Node.runAll host (.ofStack label source locals vars) nodes)
        (Node.execAll host label source locals nodes)
  | [] => by
      rw [Node.runAll, Node.execAll]
      exact .pure ()
  | node :: rest => by
      rw [Node.runAll, Node.execAll]
      exact (Node.exec_mirrors vars node).bind fun _ => Node.execAll_mirrors vars rest

end

end

/-- A run beside a stack of loop variables is the run over the locals with the variables laid over
them, and the stack is in the end what it was, after an error too. So a loop runs its body for one
item after another, up to the first error, over the locals with the loop's variable as the item, and
what comes after the loop sees no variable of it. The items of a list are taken in their order, those
of a map in the order of the keys. -/
theorem loop_variables_overlay_locals (host : Host σ) (label : String) (source : List Char)
    (locals : Locals) (vars : List (String × Value)) :
    (∀ nodes stage,
      Node.execAll host label source locals nodes (onStack vars stage) =
        mapState (onStack vars)
          (Node.runAll host ⟨label, source, locals.overlaid vars, []⟩ nodes stage)) ∧
    (∀ nodes, Node.runAll host ⟨label, source, locals, vars.reverse⟩ nodes =
      Node.runAll host ⟨label, source, locals.overlaid vars, []⟩ nodes) ∧
    (∀ name items body rest,
      Node.runAll host ⟨label, source, locals, vars.reverse⟩ (.each name items body :: rest) = (do
        let value ← evalSpanned host ⟨label, source, locals.overlaid vars, []⟩ items
        match itemsOf? value with
        | none => throw (.runtime label (some (Text.lineAt source items.span.start))
            (.notIterable value.typeName))
        | some values =>
            inTurn (fun item => Node.runAll host
              ⟨label, source, (locals.overlaid vars).insert name item, []⟩ body) values
            Node.runAll host ⟨label, source, locals.overlaid vars, []⟩ rest)) ∧
    (∀ items, itemsOf? (.list items) = some items) ∧
    (∀ (fields : Fields Value) (keys : List String), Fields.Sorted fields →
      keys.Pairwise (· < ·) → (∀ key, key ∈ keys ↔ (Fields.get? key fields).isSome) →
      ∃ values, itemsOf? (.map fields) = some values ∧
        values.map some = keys.map (Fields.get? · fields)) := by
  have overlay (nodes : List Node) :
      Node.runAll host ⟨label, source, locals, vars.reverse⟩ nodes =
        Node.runAll host ⟨label, source, locals.overlaid vars, []⟩ nodes :=
    Node.runAll_seesSame (Scope.overlaid_seesSame label source locals vars) nodes
  refine ⟨?_, overlay, ?_, fun _ => rfl, ?_⟩
  · intro nodes stage
    rw [Node.execAll_mirrors vars nodes stage, ← overlay]
    rfl
  · intro name items body rest
    rw [overlay, runAll_each]
  · intro fields keys sorted ordered complete
    exact ⟨_, rfl, Fields.values_of_keys sorted ordered complete⟩

def priceLoop : List Node :=
  [.each "x" ⟨.path ["prices"], ⟨0, 0⟩⟩ [.output ⟨.path ["x"], ⟨0, 0⟩⟩],
    .output ⟨.path ["x"], ⟨0, 0⟩⟩]

theorem prices_in_key_order :
    let prices : Fields Value := [("pear", .string "2"), ("plum", .string "3")]
    let locals : Locals := ⟨[("prices", .map prices), ("x", .string "local")]⟩
    let vars : List (String × Value) := [("x", .string "outer")]
    let stage : Stage (List HostCall) := ⟨.empty, []⟩
    Fields.Sorted prices ∧ ["pear", "plum"].Pairwise (· < ·) ∧
    (∀ key, key ∈ ["pear", "plum"] ↔ (Fields.get? key prices).isSome) ∧
    Node.execAll (recorder []) "inline" [] locals priceLoop (onStack vars stage) =
      mapState (onStack vars)
        (Node.runAll (recorder []) ⟨"inline", [], locals.overlaid vars, []⟩ priceLoop stage) ∧
    Node.runAll (recorder []) ⟨"inline", [], locals.overlaid vars, []⟩ priceLoop stage =
      .ok () ⟨⟨"23outer", []⟩, []⟩ ∧
    ∃ values, itemsOf? (.map prices) = some values ∧
      values.map some = [some (.string "2"), some (.string "3")] := by
  intro prices locals vars stage
  obtain ⟨stacked, -, -, -, keyed⟩ :=
    loop_variables_overlay_locals (recorder []) "inline" [] locals vars
  have sorted : Fields.Sorted prices := by
    unfold Fields.Sorted
    decide
  have ordered : ["pear", "plum"].Pairwise (· < ·) := by decide
  have complete (key : String) : key ∈ ["pear", "plum"] ↔ (Fields.get? key prices).isSome :=
    (@Fields.get?_isSome_iff Value key prices).symm
  exact ⟨sorted, ordered, complete, stacked priceLoop stage, rfl,
    keyed prices _ sorted ordered complete⟩

end Template

end ThemeRender
