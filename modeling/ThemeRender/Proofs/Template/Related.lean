import ThemeRender.Proofs.Outcome
import ThemeRender.Template.Run
/-!
Runs over two hosts. A relation between computations that sequencing respects holds between two
runs of a template as soon as it holds between what the hosts do. Nodes in a row are run one after
the other, and the text of a template matters to a run only through the lines of spans.
-/

namespace ThemeRender

/-- The faults that a template has by itself; the others are those of a host. -/
def RuntimeFault.ofTemplate : RuntimeFault → Bool
  | .outsideView | .nestedTooDeep _ | .noCompiler _ | .refused _ => false
  | _ => true

namespace Template

variable {σ τ : Type}

/-- A relation between computations that is kept by doing one thing after another. -/
structure Sequential (R : {α : Type} → Render σ α → Render τ α → Prop) : Prop where
  pure : ∀ {α : Type} (a : α), R (pure a) (pure a)
  bind : ∀ {α β : Type} {first : Render σ α} {first' : Render τ α}
    {next : α → Render σ β} {next' : α → Render τ β},
    R first first' → (∀ a, R (next a) (next' a)) → R (first >>= next) (first' >>= next')

namespace Sequential

variable {R : {α : Type} → Render σ α → Render τ α → Prop}

theorem map (sequential : Sequential R) {α β : Type} (f : α → β)
    {first : Render σ α} {first' : Render τ α} (related : R first first') :
    R (f <$> first) (f <$> first') := by
  rw [map_eq_pure_bind, map_eq_pure_bind]
  exact sequential.bind related (fun a => sequential.pure (f a))

theorem forM (sequential : Sequential R) {α : Type} {body : α → Render σ Unit}
    {body' : α → Render τ Unit} (related : ∀ a, R (body a) (body' a)) (values : List α) :
    R (values.forM body) (values.forM body') := by
  induction values with
  | nil => exact sequential.pure ()
  | cons value rest ih => exact sequential.bind (related value) (fun _ => ih)

end Sequential

/-- A relation between computations that is kept by everything a template does on its own. All it
fails by on its own are faults of its run. -/
structure Compatible (R : {α : Type} → Render σ α → Render τ α → Prop) : Prop where
  pure : ∀ {α : Type} (a : α), R (pure a) (pure a)
  throw : ∀ {α : Type} (template : String) (line? : Option Nat) (fault : RuntimeFault),
    R (α := α) (throw (.runtime template line? fault)) (throw (.runtime template line? fault))
  write : ∀ text : String, R (Staged.write text) (Staged.write text)
  bind : ∀ {α β : Type} {first : Render σ α} {first' : Render τ α}
    {next : α → Render σ β} {next' : α → Render τ β},
    R first first' → (∀ a, R (next a) (next' a)) → R (first >>= next) (first' >>= next')

namespace Host

structure Related (R : {α : Type} → Render σ α → Render τ α → Prop)
    (host : Host σ) (host' : Host τ) : Prop where
  yieldView : R host.yieldView host'.yieldView
  renderPartial : ∀ name locals,
    R (host.renderPartial name locals) (host'.renderPartial name locals)
  partialContent : ∀ name locals,
    R (host.partialContent name locals) (host'.partialContent name locals)

end Host

theorem Host.Related.same (host : Host σ) : Related Eq host host where
  yieldView := rfl
  renderPartial _ _ := rfl
  partialContent _ _ := rfl

namespace Compatible

theorem eq : Compatible (σ := σ) Eq where
  pure _ := rfl
  throw _ _ _ := rfl
  write _ := rfl
  bind first next := by
    rw [first]
    exact bind_congr next

theorem mirrors {f : Stage σ → Stage τ}
    (writes : ∀ (text : String) (stage : Stage σ),
      { f stage with frames := (f stage).frames.write text } =
        f { stage with frames := stage.frames.write text }) :
    Compatible fun {α} (first : Render σ α) second => Outcome.Mirrors f (α := α) first second where
  pure := .pure
  throw _ _ _ := .throw _
  write text := .modify (writes text)
  bind := .bind

theorem sequential {R : {α : Type} → Render σ α → Render τ α → Prop} (compatible : Compatible R) :
    Sequential R where
  pure := compatible.pure
  bind := compatible.bind

theorem forM {R : {α : Type} → Render σ α → Render τ α → Prop} (compatible : Compatible R)
    {α : Type} {body : α → Render σ Unit} {body' : α → Render τ Unit}
    (related : ∀ a, R (body a) (body' a)) (values : List α) :
    R (values.forM body) (values.forM body') :=
  compatible.sequential.forM related values

end Compatible

variable {R : {α : Type} → Render σ α → Render τ α → Prop}

theorem Args.ofTemplate_of_partialCall {args : Args} {function : String} {fault : RuntimeFault}
    (fails : args.partialCall function = .error fault) : fault.ofTemplate = true := by
  unfold Args.partialCall at fails
  split at fails
  · cases fails
    rfl
  · rcases Outcome.except_bind_eq_error.mp fails with noLocals | ⟨⟨found, rest⟩, -, tooMany⟩
    · split at noLocals
      all_goals
        cases noLocals
      rfl
    · cases none : rest.isEmpty with
      | true => simp [none] at tooMany
      | false =>
          simp only [none, Bool.false_eq_true, if_false] at tooMany
          cases tooMany
          rfl
  · cases fails
    rfl

structure Places (R : {α : Type} → Render σ α → Render τ α → Prop) (scope scope' : Scope)
    (line line' : Nat) : Prop where
  lookup : ∀ segments, scope.lookup segments = scope'.lookup segments
  fault : ∀ {α : Type} (fault : RuntimeFault), fault.ofTemplate = true →
    R (α := α) (scope.fault line fault) (scope'.fault line' fault)

theorem Places.same (compatible : Compatible R) (scope : Scope) (line : Nat) :
    Places R scope scope line line where
  lookup _ := rfl
  fault _ _ := compatible.throw _ _ _

variable {host : Host σ} {host' : Host τ} {scope scope' : Scope} {line line' : Nat}

theorem callFunction_related (sequential : Sequential R) (hosts : Host.Related R host host')
    (places : Places R scope scope' line line') (name : String) (args : Args) :
    R (callFunction host scope line name args) (callFunction host' scope' line' name args) := by
  unfold callFunction
  split
  · split
    · exact sequential.bind hosts.yieldView (fun _ => sequential.pure _)
    · exact places.fault _ rfl
  · split
    · exact sequential.bind (hosts.renderPartial _ _) (fun _ => sequential.pure _)
    · rename_i fails
      exact places.fault _ (Args.ofTemplate_of_partialCall fails)
  · split
    · exact sequential.map _ (hosts.partialContent _ _)
    · rename_i fails
      exact places.fault _ (Args.ofTemplate_of_partialCall fails)
  · split
    · split
      · exact sequential.pure _
      · exact places.fault _ rfl
    · exact places.fault _ rfl
  · exact places.fault _ rfl

mutual

theorem Expr.eval_related (sequential : Sequential R) (hosts : Host.Related R host host')
    (places : Places R scope scope' line line') :
    ∀ expr : Expr, R (expr.eval host scope line) (expr.eval host' scope' line')
  | .literal value => by
      rw [Expr.eval, Expr.eval]
      exact sequential.pure _
  | .path segments => by
      rw [Expr.eval, Expr.eval, places.lookup]
      exact sequential.pure _
  | .not operand => by
      rw [Expr.eval, Expr.eval]
      exact sequential.bind (Expr.eval_related sequential hosts places operand)
        (fun _ => sequential.pure _)
  | .binary op left right => by
      rw [Expr.eval, Expr.eval]
      apply sequential.bind (Expr.eval_related sequential hosts places left)
      intro leftValue
      have rightRelated := Expr.eval_related sequential hosts places right
      cases op with
      | and =>
          dsimp only
          split
          · exact sequential.bind rightRelated (fun _ => sequential.pure _)
          · exact sequential.pure _
      | or =>
          dsimp only
          split
          · exact sequential.pure _
          · exact sequential.bind rightRelated (fun _ => sequential.pure _)
      | equal => exact sequential.bind rightRelated (fun _ => sequential.pure _)
      | unequal => exact sequential.bind rightRelated (fun _ => sequential.pure _)
  | .call name args => by
      rw [Expr.eval, Expr.eval]
      exact sequential.bind (Arg.evalAll_related sequential hosts places .empty args)
        (fun _ => callFunction_related sequential hosts places name _)

theorem Arg.evalAll_related (sequential : Sequential R) (hosts : Host.Related R host host')
    (places : Places R scope scope' line line') (found : Args) :
    ∀ args : List Arg,
      R (Arg.evalAll host scope line found args) (Arg.evalAll host' scope' line' found args)
  | [] => by
      rw [Arg.evalAll, Arg.evalAll]
      exact sequential.pure _
  | .positional value :: rest => by
      rw [Arg.evalAll, Arg.evalAll]
      exact sequential.bind (Expr.eval_related sequential hosts places value)
        (fun _ => Arg.evalAll_related sequential hosts places _ rest)
  | .named name value :: rest => by
      rw [Arg.evalAll, Arg.evalAll]
      exact sequential.bind (Expr.eval_related sequential hosts places value)
        (fun _ => Arg.evalAll_related sequential hosts places _ rest)

end

theorem evalSpanned_related (compatible : Compatible R) (hosts : Host.Related R host host')
    (scope : Scope) (code : Spanned Expr) :
    R (evalSpanned host scope code) (evalSpanned host' scope code) :=
  Expr.eval_related compatible.sequential hosts (.same compatible scope _) code.node

mutual

theorem Node.run_related (compatible : Compatible R) (hosts : Host.Related R host host')
    (scope : Scope) :
    ∀ node : Node, R (node.run host scope) (node.run host' scope)
  | .text contents => by
      rw [Node.run, Node.run]
      exact compatible.write contents
  | .output value => by
      rw [Node.run, Node.run]
      exact compatible.bind (evalSpanned_related compatible hosts scope value)
        (fun _ => compatible.write _)
  | .eval code => by
      rw [Node.run, Node.run]
      exact compatible.bind (evalSpanned_related compatible hosts scope code)
        (fun _ => compatible.pure ())
  | .branch condition yes no => by
      rw [Node.run, Node.run]
      apply compatible.bind (evalSpanned_related compatible hosts scope condition)
      intro value
      split
      · exact Node.runAll_related compatible hosts scope yes
      · exact Node.runAll_related compatible hosts scope no
  | .each name items body => by
      rw [Node.run, Node.run]
      apply compatible.bind (evalSpanned_related compatible hosts scope items)
      intro value
      split
      · exact compatible.throw _ _ _
      · exact compatible.forM
          (fun item => Node.runAll_related compatible hosts (scope.bind name item) body) _

theorem Node.runAll_related (compatible : Compatible R) (hosts : Host.Related R host host')
    (scope : Scope) :
    ∀ nodes : List Node, R (Node.runAll host scope nodes) (Node.runAll host' scope nodes)
  | [] => by
      rw [Node.runAll, Node.runAll]
      exact compatible.pure ()
  | node :: rest => by
      rw [Node.runAll, Node.runAll]
      exact compatible.bind (Node.run_related compatible hosts scope node)
        (fun _ => Node.runAll_related compatible hosts scope rest)

end

theorem run_related (compatible : Compatible R) (hosts : Host.Related R host host')
    (label source : String) (locals : Locals) (nodes : List Node) :
    R (run host label source locals nodes) (run host' label source locals nodes) :=
  Node.runAll_related compatible hosts _ nodes

end Template

/-! Nodes in a row -/

namespace Template

variable {σ : Type} {host : Host σ}

/-! Another text -/

def Scope.over (scope : Scope) (source : List Char) : Scope :=
  { scope with source }

theorem Scope.over_places (scope : Scope) (source : List Char) (line : Nat) :
    Places (σ := σ) Eq (scope.over source) scope line line where
  lookup _ := rfl
  fault _ _ := rfl

theorem Expr.eval_over (scope : Scope) (source : List Char) (line : Nat) (expr : Expr) :
    expr.eval host (scope.over source) line = expr.eval host scope line :=
  Expr.eval_related Compatible.eq.sequential (.same host) (scope.over_places source line) expr

/-! Text between other nodes -/

theorem write_append (first second : String) :
    (Staged.write (first ++ second) : Render σ Unit) =
      (do Staged.write first; Staged.write second) := by
  funext stage
  change EStateM.Result.ok () { stage with frames := stage.frames.write (first ++ second) } =
    EStateM.Result.ok ()
      { stage with frames := (stage.frames.write first).write second }
  rw [Frames.write_write]

theorem write_empty : (Staged.write "" : Render σ Unit) = pure () := by
  funext stage
  change EStateM.Result.ok () { stage with frames := stage.frames.write "" } =
    EStateM.Result.ok () stage
  simp [Frames.write]

theorem runAll_append (scope : Scope) (first second : List Node) :
    Node.runAll host scope (first ++ second) =
      (do Node.runAll host scope first; Node.runAll host scope second) := by
  induction first with
  | nil => rw [List.nil_append, Node.runAll, pure_bind]
  | cons node rest ih => rw [List.cons_append, Node.runAll, Node.runAll, ih, bind_assoc]

def textNodes (contents : List Char) : List Node :=
  if contents.isEmpty then [] else [.text (String.ofList contents)]

theorem runAll_textNodes (scope : Scope) (contents : List Char) :
    Node.runAll host scope (textNodes contents) = Staged.write (String.ofList contents) := by
  cases contents with
  | nil =>
      rw [show String.ofList [] = "" from rfl, write_empty]
      rfl
  | cons c rest =>
      change Node.runAll host scope [.text (String.ofList (c :: rest))] = _
      rw [Node.runAll, Node.runAll, Node.run, bind_pure_unit]

end Template

end ThemeRender
