import ThemeRender.Proofs.Template.Requests

namespace ThemeRender.Template

variable {σ : Type}

mutual

def Expr.names : Expr → List String
  | .literal _ => []
  | .path segments => segments.head?.toList
  | .not operand => operand.names
  | .binary _ left right => left.names ++ right.names
  | .call _ args => Arg.namesAll args

def Arg.namesAll : List Arg → List String
  | [] => []
  | .positional value :: rest => value.names ++ Arg.namesAll rest
  | .named _ value :: rest => value.names ++ Arg.namesAll rest

end

mutual

/-- The names that a node looks up outside of its loops over these names. What a loop goes through is
looked up outside of it. -/
def Node.freeNames : Node → List String
  | .text _ => []
  | .output value => value.node.names
  | .eval code => code.node.names
  | .branch condition yes no =>
      condition.node.names ++ (Node.freeNamesAll yes ++ Node.freeNamesAll no)
  | .each name items body => items.node.names ++ (Node.freeNamesAll body).filter (· ≠ name)

def Node.freeNamesAll : List Node → List String
  | [] => []
  | node :: rest => node.freeNames ++ Node.freeNamesAll rest

end

structure Scope.AgreesOn (names : List String) (scope scope' : Scope) : Prop where
  label : scope.label = scope'.label
  source : scope.source = scope'.source
  get? : ∀ name ∈ names, scope.get? name = scope'.get? name

namespace Scope

theorem get?_bind (scope : Scope) (name other : String) (value : Value) :
    (scope.bind other value).get? name =
      if name = other then some value else scope.get? name := by
  unfold get? bind
  by_cases same : name = other
  · simp [same]
  · have different : (name == other) = false := by simpa using same
    simp [List.lookup_cons, same, different]

namespace AgreesOn

variable {names more : List String} {scope scope' : Scope}

theorem mono (agrees : AgreesOn names scope scope') (fewer : more ⊆ names) :
    AgreesOn more scope scope' where
  label := agrees.label
  source := agrees.source
  get? name member := agrees.get? name (fewer member)

theorem left (agrees : AgreesOn (names ++ more) scope scope') : AgreesOn names scope scope' :=
  agrees.mono (List.subset_append_left _ _)

theorem right (agrees : AgreesOn (names ++ more) scope scope') : AgreesOn more scope scope' :=
  agrees.mono (List.subset_append_right _ _)

theorem bind {name : String} (agrees : AgreesOn (names.filter (· ≠ name)) scope scope')
    (value : Value) : AgreesOn names (scope.bind name value) (scope'.bind name value) where
  label := agrees.label
  source := agrees.source
  get? other member := by
    rw [get?_bind, get?_bind]
    by_cases same : other = name
    · rw [if_pos same, if_pos same]
    · rw [if_neg same, if_neg same]
      apply agrees.get?
      simpa [List.mem_filter, same] using member

theorem lookup {segments : List String} (agrees : AgreesOn segments.head?.toList scope scope') :
    scope.lookup segments = scope'.lookup segments := by
  cases segments with
  | nil => rfl
  | cons name rest =>
      have same := agrees.get? name List.mem_cons_self
      change Option.getD (rest.foldl _ (scope.get? name)) _ = _
      rw [same]
      rfl

theorem lineOf (agrees : AgreesOn names scope scope') (span : Span) :
    scope.lineOf span = scope'.lineOf span := by
  unfold Scope.lineOf
  rw [agrees.source]

theorem fault {α : Type} (agrees : AgreesOn names scope scope') (line : Nat)
    (fault : RuntimeFault) : (scope.fault line fault : Render σ α) = scope'.fault line fault := by
  unfold Scope.fault
  rw [agrees.label]

end AgreesOn

end Scope

open Scope (AgreesOn)

variable {host : Host σ} {scope scope' : Scope}

theorem callFunction_agrees {names : List String} (agrees : AgreesOn names scope scope')
    (line : Nat) (name : String) (args : Args) :
    callFunction host scope line name args = callFunction host scope' line name args := by
  unfold callFunction
  simp only [agrees.fault]

mutual

theorem Expr.eval_agrees (line : Nat) : ∀ expr : Expr, AgreesOn expr.names scope scope' →
    expr.eval host scope line = expr.eval host scope' line
  | .literal value, _ => by rw [Expr.eval, Expr.eval]
  | .path segments, agrees => by
      rw [Expr.names] at agrees
      rw [Expr.eval, Expr.eval, agrees.lookup]
  | .not operand, agrees => by
      rw [Expr.names] at agrees
      rw [Expr.eval, Expr.eval, Expr.eval_agrees line operand agrees]
  | .binary op left right, agrees => by
      rw [Expr.names] at agrees
      rw [Expr.eval, Expr.eval, Expr.eval_agrees line left agrees.left,
        Expr.eval_agrees line right agrees.right]
  | .call name args, agrees => by
      rw [Expr.names] at agrees
      rw [Expr.eval, Expr.eval, Arg.evalAll_agrees line .empty args agrees]
      apply bind_congr
      intro found
      exact callFunction_agrees agrees line name found

theorem Arg.evalAll_agrees (line : Nat) (found : Args) : ∀ args : List Arg,
    AgreesOn (Arg.namesAll args) scope scope' →
      Arg.evalAll host scope line found args = Arg.evalAll host scope' line found args
  | [], _ => by rw [Arg.evalAll, Arg.evalAll]
  | .positional value :: rest, agrees => by
      rw [Arg.namesAll] at agrees
      rw [Arg.evalAll, Arg.evalAll, Expr.eval_agrees line value agrees.left]
      apply bind_congr
      intro _
      exact Arg.evalAll_agrees line _ rest agrees.right
  | .named name value :: rest, agrees => by
      rw [Arg.namesAll] at agrees
      rw [Arg.evalAll, Arg.evalAll, Expr.eval_agrees line value agrees.left]
      apply bind_congr
      intro _
      exact Arg.evalAll_agrees line _ rest agrees.right

end

theorem evalSpanned_agrees (code : Spanned Expr) (agrees : AgreesOn code.node.names scope scope') :
    evalSpanned host scope code = evalSpanned host scope' code := by
  unfold evalSpanned
  rw [agrees.lineOf, Expr.eval_agrees _ code.node agrees]

mutual

theorem Node.run_agrees : ∀ (node : Node) {scope scope' : Scope},
    AgreesOn node.freeNames scope scope' → node.run host scope = node.run host scope'
  | .text contents, _, _, _ => by rw [Node.run, Node.run]
  | .output value, _, _, agrees => by
      rw [Node.freeNames] at agrees
      rw [Node.run, Node.run, evalSpanned_agrees value agrees]
  | .eval code, _, _, agrees => by
      rw [Node.freeNames] at agrees
      rw [Node.run, Node.run, evalSpanned_agrees code agrees]
  | .branch condition yes no, _, _, agrees => by
      rw [Node.freeNames] at agrees
      rw [Node.run, Node.run, evalSpanned_agrees condition agrees.left,
        Node.runAll_agrees yes agrees.right.left, Node.runAll_agrees no agrees.right.right]
  | .each name items body, _, _, agrees => by
      rw [Node.freeNames] at agrees
      have bodies (item : Value) := Node.runAll_agrees body (agrees.right.bind item)
      rw [Node.run, Node.run, evalSpanned_agrees items agrees.left, agrees.lineOf]
      simp only [bodies, agrees.fault]

theorem Node.runAll_agrees : ∀ (nodes : List Node) {scope scope' : Scope},
    AgreesOn (Node.freeNamesAll nodes) scope scope' →
      Node.runAll host scope nodes = Node.runAll host scope' nodes
  | [], _, _, _ => by rw [Node.runAll, Node.runAll]
  | node :: rest, _, _, agrees => by
      rw [Node.freeNamesAll] at agrees
      rw [Node.runAll, Node.runAll, Node.run_agrees node agrees.left,
        Node.runAll_agrees rest agrees.right]

end

theorem run_agrees (host : Host σ) (label source : String) {locals locals' : Locals}
    {nodes : List Node}
    (agree : ∀ name ∈ Node.freeNamesAll nodes, locals.get? name = locals'.get? name) :
    run host label source locals nodes = run host label source locals' nodes := by
  apply Node.runAll_agrees
  refine ⟨rfl, rfl, ?_⟩
  intro name free
  exact agree name free

/-- Locals that agree on the free names of a template cannot be told apart by running it, whatever the
host is: output, state and result are the same, and so are the requests that are made, each with the
output at that moment. -/
theorem sees_only_free_names (host : Host σ) (label source : String) {locals locals' : Locals}
    {nodes : List Node}
    (agree : ∀ name ∈ Node.freeNamesAll nodes, locals.get? name = locals'.get? name)
    (stage : Stage σ) :
    run host label source locals nodes stage = run host label source locals' nodes stage ∧
      requests host label source locals nodes stage =
        requests host label source locals' nodes stage := by
  constructor
  · rw [run_agrees host label source agree]
  · unfold requests
    rw [run_agrees host.logged label source agree]

/-- A loop over a list of its own, in which a partial is given the loop's variable; the condition that
follows looks at the local of the same name only if another one is not set. -/
def teaserNodes : List Node :=
  [.each "post" ⟨.path ["posts"], ⟨0, 0⟩⟩
      [.eval ⟨.call "partial" [.positional (.literal (.string "teaser")),
        .named "title" (.path ["post"])], ⟨0, 0⟩⟩],
    .branch ⟨.binary .or (.path ["quiet"]) (.path ["posts", "more"]), ⟨0, 0⟩⟩ []
      [.output ⟨.path ["footer"], ⟨0, 0⟩⟩]]

theorem teasers_do_not_see_post :
    let posts : Value := .list [.string "One", .string "Two"]
    let locals : Locals := ⟨[("footer", .string "end"), ("posts", posts)]⟩
    let locals' : Locals := ⟨[("footer", .string "end"), ("post", .string "other"),
      ("posts", posts), ("unused", .null)]⟩
    (∀ name ∈ Node.freeNamesAll teaserNodes, locals.get? name = locals'.get? name) ∧
    run (recorder []) "inline" "" locals teaserNodes ⟨.empty, []⟩ =
      run (recorder []) "inline" "" locals' teaserNodes ⟨.empty, []⟩ ∧
    (requests (recorder []) "inline" "" locals teaserNodes ⟨.empty, []⟩).map (·.frames.top) =
      ["", "[teaser]"] := by
  intro posts locals locals'
  have agree : ∀ name ∈ Node.freeNamesAll teaserNodes, locals.get? name = locals'.get? name := by
    intro name free
    have names : Node.freeNamesAll teaserNodes = ["posts", "quiet", "posts", "footer"] := by
      decide
    rw [names] at free
    simp only [List.mem_cons, List.not_mem_nil, or_false] at free
    rcases free with rfl | rfl | rfl | rfl <;> rfl
  exact ⟨agree, (sees_only_free_names (recorder []) "inline" "" agree ⟨.empty, []⟩).1, rfl⟩

end ThemeRender.Template
