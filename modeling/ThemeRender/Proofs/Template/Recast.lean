import ThemeRender.Proofs.Template.Related

namespace ThemeRender.Template

/-- The same nodes, but that code that calls `partial` may have become output of
`partial_content` with the same arguments, here or in any block. Where code stands may differ. -/
inductive Recast : List Node → List Node → Prop
  | nil : Recast [] []
  | text (contents : String) {rest rest' : List Node} (more : Recast rest rest') :
      Recast (.text contents :: rest) (.text contents :: rest')
  | output {value value' : Spanned Expr} {rest rest' : List Node}
      (same : value'.node = value.node) (more : Recast rest rest') :
      Recast (.output value :: rest) (.output value' :: rest')
  | eval {code code' : Spanned Expr} {rest rest' : List Node}
      (same : code'.node = code.node) (more : Recast rest rest') :
      Recast (.eval code :: rest) (.eval code' :: rest')
  | captured (args : List Arg) {code value : Spanned Expr} {rest rest' : List Node}
      (calls : code.node = .call "partial" args)
      (captures : value.node = .call "partial_content" args) (more : Recast rest rest') :
      Recast (.eval code :: rest) (.output value :: rest')
  | branch {condition condition' : Spanned Expr} {yes yes' no no' rest rest' : List Node}
      (same : condition'.node = condition.node) (yesRecast : Recast yes yes')
      (noRecast : Recast no no') (more : Recast rest rest') :
      Recast (.branch condition yes no :: rest) (.branch condition' yes' no' :: rest')
  | each (name : String) {items items' : Spanned Expr} {body body' rest rest' : List Node}
      (same : items'.node = items.node) (bodyRecast : Recast body body')
      (more : Recast rest rest') :
      Recast (.each name items body :: rest) (.each name items' body' :: rest')

namespace Recast

theorem refl : ∀ nodes : List Node, Recast nodes nodes
  | [] => .nil
  | .text contents :: rest => .text contents (refl rest)
  | .output _ :: rest => .output rfl (refl rest)
  | .eval _ :: rest => .eval rfl (refl rest)
  | .branch _ yes no :: rest => .branch rfl (refl yes) (refl no) (refl rest)
  | .each name _ body :: rest => .each name rfl (refl body) (refl rest)

end Recast

theorem Args.partialCall_function {args : Args} {function : String} {call : String × Locals}
    (found : args.partialCall function = .ok call) (other : String) :
    args.partialCall other = .ok call := by
  have ofRest : ∀ {rest : List Value} {fault fault' : RuntimeFault} {found : String × Locals},
      (if rest.isEmpty then .ok found else .error fault) = Except.ok call →
        (if rest.isEmpty then .ok found else .error fault') = Except.ok call := by
    intro rest fault fault' found asked
    split at asked
    · rename_i last
      rw [if_pos last]
      exact asked
    · cases asked
  unfold partialCall at found ⊢
  split at found
  · cases found
  · dsimp only at found ⊢
    split at found
    · exact found
    · exact ofRest found
    · exact ofRest found
    · cases found
  · cases found

structure Scope.Alike (scope scope' : Scope) : Prop where
  locals : scope.locals = scope'.locals
  loopVars : scope.loopVars = scope'.loopVars

namespace Scope.Alike

variable {scope scope' : Scope}

theorem bind (alike : scope.Alike scope') (name : String) (value : Value) :
    (scope.bind name value).Alike (scope'.bind name value) where
  locals := alike.locals
  loopVars := congrArg ((name, value) :: ·) alike.loopVars

theorem get? (alike : scope.Alike scope') (name : String) : scope.get? name = scope'.get? name := by
  unfold Scope.get?
  rw [alike.locals, alike.loopVars]

theorem lookup (alike : scope.Alike scope') (segments : List String) :
    scope.lookup segments = scope'.lookup segments := by
  cases segments with
  | nil => rfl
  | cons name segments =>
      change Option.getD (segments.foldl _ (scope.get? name)) _ = _
      rw [alike.get?]
      rfl

end Scope.Alike

variable {σ τ : Type}

/-- A relation that takes a partial rendered in place for one captured and written, and asks
nothing where the first computation fails. -/
structure Captures (R : {α : Type} → Render σ α → Render τ α → Prop)
    (host : Host σ) (host' : Host τ) : Prop where
  compatible : Compatible R
  hosts : Host.Related R host host'
  fails : ∀ {α : Type} (error : RenderError) (second : Render τ α), R (throw error) second
  captured : ∀ name locals,
    R (host.renderPartial name locals) (host'.partialContent name locals >>= Staged.write)

namespace Captures

variable {R : {α : Type} → Render σ α → Render τ α → Prop} {host : Host σ} {host' : Host τ}
  {scope scope' : Scope} {line line' : Nat}

theorem places (captures : Captures R host host') (alike : scope.Alike scope') (line line' : Nat) :
    Places R scope scope' line line' where
  lookup := alike.lookup
  fault _ _ := captures.fails _ _

theorem eval (captures : Captures R host host') (alike : scope.Alike scope')
    {code code' : Spanned Expr} (same : code'.node = code.node) :
    R (evalSpanned host scope code) (evalSpanned host' scope' code') := by
  unfold evalSpanned
  rw [same]
  exact Expr.eval_related captures.compatible.sequential captures.hosts (captures.places alike _ _)
    code.node

theorem partialCall (captures : Captures R host host') (args : Args) :
    R (do let _ ← callFunction host scope line "partial" args)
      (do Staged.write (← callFunction host' scope' line' "partial_content" args).text) := by
  unfold callFunction
  cases asked : args.partialCall "partial" with
  | error fault => exact captures.fails _ _
  | ok call =>
      simp only [Args.partialCall_function asked "partial_content", map_eq_pure_bind, bind_assoc,
        pure_bind, bind_pure_unit]
      exact captures.captured call.1 call.2

theorem call (captures : Captures R host host') (alike : scope.Alike scope') {args : List Arg}
    {code value : Spanned Expr} (calls : code.node = .call "partial" args)
    (content : value.node = .call "partial_content" args) :
    R ((Node.eval code).run host scope) ((Node.output value).run host' scope') := by
  rw [Node.run, Node.run]
  unfold evalSpanned
  rw [calls, content, Expr.eval, Expr.eval, bind_assoc, bind_assoc]
  apply captures.compatible.bind
    (Arg.evalAll_related captures.compatible.sequential captures.hosts (captures.places alike _ _)
      .empty args)
  intro found
  exact captures.partialCall found

/-- Recast nodes run alike. The nodes of a loop run in more scopes than the one around it, so the
induction is for all scopes. -/
theorem runAll (captures : Captures R host host') {nodes nodes' : List Node}
    (recast : Recast nodes nodes') (alike : scope.Alike scope') :
    R (Node.runAll host scope nodes) (Node.runAll host' scope' nodes') := by
  have compatible := captures.compatible
  induction recast generalizing scope scope' with
  | nil =>
      rw [Node.runAll, Node.runAll]
      exact compatible.pure ()
  | text contents _ ih =>
      rw [Node.runAll, Node.runAll, Node.run, Node.run]
      exact compatible.bind (compatible.write contents) (fun _ => ih alike)
  | output same _ ih =>
      rw [Node.runAll, Node.runAll, Node.run, Node.run]
      apply compatible.bind ?_ (fun _ => ih alike)
      exact compatible.bind (captures.eval alike same) (fun _ => compatible.write _)
  | eval same _ ih =>
      rw [Node.runAll, Node.runAll, Node.run, Node.run]
      apply compatible.bind ?_ (fun _ => ih alike)
      exact compatible.bind (captures.eval alike same) (fun _ => compatible.pure ())
  | captured args calls content _ ih =>
      rw [Node.runAll, Node.runAll]
      exact compatible.bind (captures.call alike calls content) (fun _ => ih alike)
  | branch same _ _ _ yesAlike noAlike ih =>
      rw [Node.runAll, Node.runAll, Node.run, Node.run]
      apply compatible.bind ?_ (fun _ => ih alike)
      apply compatible.bind (captures.eval alike same)
      intro value
      split
      · exact yesAlike alike
      · exact noAlike alike
  | each name same _ _ bodyAlike ih =>
      rw [Node.runAll, Node.runAll, Node.run, Node.run]
      apply compatible.bind ?_ (fun _ => ih alike)
      apply compatible.bind (captures.eval alike same)
      intro value
      split
      · exact captures.fails _ _
      · exact compatible.forM (fun item => bodyAlike (alike.bind name item)) _

theorem run (captures : Captures R host host') (label label' source source' : String)
    (locals : Locals) {nodes nodes' : List Node} (recast : Recast nodes nodes') :
    R (Template.run host label source locals nodes)
      (Template.run host' label' source' locals nodes') :=
  captures.runAll recast ⟨rfl, rfl⟩

end Captures

end ThemeRender.Template
