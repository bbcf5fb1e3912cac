import ThemeRender.Proofs.Template.ExprPlaces
import ThemeRender.Proofs.Template.Related
/-!
Nodes told once more: the expressions are found at other places, and a text may come in two pieces.
Related pieces of templates are put together to such nodes, and such nodes run alike as far as the
places of their expressions are told alike.
-/

namespace ThemeRender.Template

variable {Same : Spanned Expr → Spanned Expr → Prop}

/-- The second nodes are the first ones with other expressions, and with some texts in two pieces. -/
inductive Retold (Same : Spanned Expr → Spanned Expr → Prop) : List Node → List Node → Prop
  | nil : Retold Same [] []
  | text (contents : String) {nodes nodes' : List Node} (after : Retold Same nodes nodes') :
      Retold Same (.text contents :: nodes) (.text contents :: nodes')
  | split (first second : String) {nodes nodes' : List Node} (after : Retold Same nodes nodes') :
      Retold Same (.text (first ++ second) :: nodes) (.text first :: .text second :: nodes')
  | output {value value' : Spanned Expr} {nodes nodes' : List Node} (same : Same value value')
      (after : Retold Same nodes nodes') :
      Retold Same (.output value :: nodes) (.output value' :: nodes')
  | eval {code code' : Spanned Expr} {nodes nodes' : List Node} (same : Same code code')
      (after : Retold Same nodes nodes') : Retold Same (.eval code :: nodes) (.eval code' :: nodes')
  | branch {condition condition' : Spanned Expr} {yes yes' no no' nodes nodes' : List Node}
      (same : Same condition condition') (first : Retold Same yes yes')
      (second : Retold Same no no') (after : Retold Same nodes nodes') :
      Retold Same (.branch condition yes no :: nodes) (.branch condition' yes' no' :: nodes')
  | each (name : String) {items items' : Spanned Expr} {body body' nodes nodes' : List Node}
      (same : Same items items') (inside : Retold Same body body')
      (after : Retold Same nodes nodes') :
      Retold Same (.each name items body :: nodes) (.each name items' body' :: nodes')

namespace Retold

variable {nodes nodes' more more' : List Node}

theorem append (told : Retold Same nodes nodes') (toldMore : Retold Same more more') :
    Retold Same (nodes ++ more) (nodes' ++ more') := by
  induction told with
  | nil => exact toldMore
  | text contents _ ih => exact .text contents ih
  | split first second _ ih => exact .split first second ih
  | output same _ ih => exact .output same ih
  | eval same _ ih => exact .eval same ih
  | branch same first second _ _ _ ih => exact .branch same first second ih
  | each name same inside _ _ ih => exact .each name same inside ih

theorem refl : ∀ nodes : List Node, (∀ place ∈ Node.allPlaces nodes, Same place.2 place.2) →
    Retold Same nodes nodes
  | [], _ => .nil
  | .text contents :: rest, same => .text contents (refl rest same)
  | .output _ :: rest, same =>
      have ⟨here, later⟩ := List.forall_mem_cons.mp same
      .output here (refl rest later)
  | .eval _ :: rest, same =>
      have ⟨here, later⟩ := List.forall_mem_cons.mp same
      .eval here (refl rest later)
  | .branch _ yes no :: rest, same =>
      have ⟨inside, later⟩ := List.forall_mem_append.mp same
      have ⟨here, within⟩ := List.forall_mem_cons.mp inside
      have ⟨first, second⟩ := List.forall_mem_append.mp within
      .branch here (refl yes first) (refl no second) (refl rest later)
  | .each name _ body :: rest, same =>
      have ⟨inside, later⟩ := List.forall_mem_append.mp same
      have ⟨here, within⟩ := List.forall_mem_cons.mp inside
      .each name here (refl body within) (refl rest later)

end Retold

/-! Running -/

section

variable {σ τ : Type}

/-- Expressions at other places of another text have the same faults as far as a relation tells. -/
structure Tells (R : {α : Type} → Render σ α → Render τ α → Prop)
    (Same : Spanned Expr → Spanned Expr → Prop) (host : Host σ) (host' : Host τ) (label : String)
    (source source' : List Char) : Prop where
  sequential : Sequential R
  hosts : Host.Related R host host'
  write : ∀ text : String, R (Staged.write text) (Staged.write text)
  node : ∀ {value value' : Spanned Expr}, Same value value' → value.node = value'.node
  fault : ∀ {value value' : Spanned Expr}, Same value value' →
    ∀ {α : Type} (fault : RuntimeFault), fault.ofTemplate = true →
      R (α := α) (throw (.runtime label (some (Text.lineAt source value.span.start)) fault))
        (throw (.runtime label (some (Text.lineAt source' value'.span.start)) fault))

namespace Tells

variable {R : {α : Type} → Render σ α → Render τ α → Prop} {host : Host σ} {host' : Host τ}
  {label : String} {source source' : List Char}

theorem eval (tells : Tells R Same host host' label source source') {value value' : Spanned Expr}
    (same : Same value value') (locals : Locals) (vars : List (String × Value)) :
    R (evalSpanned host ⟨label, source, locals, vars⟩ value)
      (evalSpanned host' ⟨label, source', locals, vars⟩ value') := by
  have places : Places R ⟨label, source, locals, vars⟩ ⟨label, source', locals, vars⟩
      (Text.lineAt source value.span.start) (Text.lineAt source' value'.span.start) := by
    refine ⟨fun segments => ?_, tells.fault same⟩
    cases segments <;> rfl
  unfold evalSpanned
  rw [← tells.node same]
  exact Expr.eval_related tells.sequential tells.hosts places value.node

/-- Nodes told again run alike. A loop runs its body in scopes of its own, so the induction is for
all variables. -/
theorem runAll (tells : Tells R Same host host' label source source') (locals : Locals)
    {nodes nodes' : List Node} (told : Retold Same nodes nodes') (vars : List (String × Value)) :
    R (Node.runAll host ⟨label, source, locals, vars⟩ nodes)
      (Node.runAll host' ⟨label, source', locals, vars⟩ nodes') := by
  have sequential := tells.sequential
  induction told generalizing vars with
  | nil =>
      rw [Node.runAll, Node.runAll]
      exact sequential.pure ()
  | text contents _ ih =>
      rw [Node.runAll, Node.runAll, Node.run, Node.run]
      exact sequential.bind (tells.write contents) (fun _ => ih vars)
  | split first second _ ih =>
      rw [Node.runAll, Node.runAll, Node.runAll, Node.run, Node.run, Node.run, write_append,
        bind_assoc]
      apply sequential.bind (tells.write first)
      intro _
      exact sequential.bind (tells.write second) (fun _ => ih vars)
  | output same _ ih =>
      rw [Node.runAll, Node.runAll, Node.run, Node.run]
      apply sequential.bind ?_ (fun _ => ih vars)
      exact sequential.bind (tells.eval same locals vars) (fun _ => tells.write _)
  | eval same _ ih =>
      rw [Node.runAll, Node.runAll, Node.run, Node.run]
      apply sequential.bind ?_ (fun _ => ih vars)
      exact sequential.bind (tells.eval same locals vars) (fun _ => sequential.pure ())
  | branch same _ _ _ ihFirst ihSecond ih =>
      rw [Node.runAll, Node.runAll, Node.run, Node.run]
      apply sequential.bind ?_ (fun _ => ih vars)
      apply sequential.bind (tells.eval same locals vars)
      intro value
      split
      · exact ihFirst vars
      · exact ihSecond vars
  | each name same _ _ ihInside ih =>
      rw [Node.runAll, Node.runAll, Node.run, Node.run]
      apply sequential.bind ?_ (fun _ => ih vars)
      apply sequential.bind (tells.eval same locals vars)
      intro value
      split
      · exact tells.fault same _ rfl
      · exact sequential.forM (fun item => ihInside ((name, item) :: vars)) _

end Tells

end

/-! Putting related pieces together -/

inductive Directive.Alike (Same : Spanned Expr → Spanned Expr → Prop) :
    Directive → Directive → Prop
  | ifBegin {condition condition' : Spanned Expr} (same : Same condition condition') :
      Alike Same (.ifBegin condition) (.ifBegin condition')
  | elseBegin : Alike Same .elseBegin .elseBegin
  | blockEnd : Alike Same .blockEnd .blockEnd
  | forBegin (name : String) {items items' : Spanned Expr} (same : Same items items') :
      Alike Same (.forBegin name items) (.forBegin name items')
  | eval {code code' : Spanned Expr} (same : Same code code') :
      Alike Same (.eval code) (.eval code')

inductive Move.Alike (Same : Spanned Expr → Spanned Expr → Prop) : Move → Move → Prop
  | text (contents : String) : Alike Same (.text contents) (.text contents)
  | output {value value' : Spanned Expr} (same : Same value value') :
      Alike Same (.output value) (.output value')
  | tag {directive directive' : Directive} (alike : directive.Alike Same directive')
      (span span' : Span) : Alike Same (.tag directive span) (.tag directive' span')

theorem Move.Alike.refl (move : Move) (same : ∀ place ∈ move.places, Same place.2 place.2) :
    move.Alike Same move := by
  cases move with
  | text contents => exact .text contents
  | output value => exact .output (same (.output, value) List.mem_cons_self)
  | tag directive span =>
      refine .tag ?_ span span
      cases directive with
      | ifBegin condition => exact .ifBegin (same (.condition, condition) List.mem_cons_self)
      | elseBegin => exact .elseBegin
      | blockEnd => exact .blockEnd
      | forBegin name items => exact .forBegin name (same (.items name, items) List.mem_cons_self)
      | eval code => exact .eval (same (.eval, code) List.mem_cons_self)

inductive MovesRetold (Same : Spanned Expr → Spanned Expr → Prop) : List Move → List Move → Prop
  | nil : MovesRetold Same [] []
  | move {move move' : Move} {moves moves' : List Move} (alike : move.Alike Same move')
      (after : MovesRetold Same moves moves') : MovesRetold Same (move :: moves) (move' :: moves')
  | split (first second : String) {moves moves' : List Move}
      (after : MovesRetold Same moves moves') :
      MovesRetold Same (.text (first ++ second) :: moves) (.text first :: .text second :: moves')

namespace MovesRetold

variable {moves moves' more more' : List Move}

theorem append (told : MovesRetold Same moves moves') (toldMore : MovesRetold Same more more') :
    MovesRetold Same (moves ++ more) (moves' ++ more') := by
  induction told with
  | nil => exact toldMore
  | move alike _ ih => exact .move alike ih
  | split first second _ ih => exact .split first second ih

theorem refl (moves : List Move)
    (same : ∀ place ∈ moves.flatMap Move.places, Same place.2 place.2) :
    MovesRetold Same moves moves := by
  induction moves with
  | nil => exact .nil
  | cons move moves ih =>
      have ⟨here, later⟩ := List.forall_mem_append.mp same
      exact .move (.refl move here) (ih later)

theorem rfl (moves : List Move) : MovesRetold Eq moves moves :=
  refl moves fun _ _ => Eq.refl _

end MovesRetold

inductive Opening.Retold (Same : Spanned Expr → Spanned Expr → Prop) : Opening → Opening → Prop
  | branch {condition condition' : Spanned Expr} (same : Same condition condition') :
      Retold Same (.branch condition none) (.branch condition' none)
  | branchElse {condition condition' : Spanned Expr} {yes yes' : List Node}
      (same : Same condition condition') (first : Template.Retold Same yes yes') :
      Retold Same (.branch condition (some yes)) (.branch condition' (some yes'))
  | each (name : String) {items items' : Spanned Expr} (same : Same items items') :
      Retold Same (.each name items) (.each name items')

theorem Opening.Retold.close {opening opening' : Opening} {nodes nodes' : List Node}
    (opens : opening.Retold Same opening') (told : Template.Retold Same nodes nodes') :
    Template.Retold Same [opening.close nodes] [opening'.close nodes'] := by
  cases opens with
  | branch same => exact .branch same told .nil .nil
  | branchElse same first => exact .branch same first told .nil
  | each name same => exact .each name same told .nil

/-- On both sides the same has been assembled, told again, but for the nodes of `front`, which came
before everything on the left. -/
inductive Assembled (Same : Spanned Expr → Spanned Expr → Prop) (front : List Node) :
    List OpenBlock → List Node → List OpenBlock → List Node → Prop
  | outermost {nodes nodes' : List Node} (told : Retold Same nodes nodes') :
      Assembled Same front [] (front ++ nodes) [] nodes'
  | inside {opening opening' : Opening} (openedAt openedAt' : Span)
      {blocks blocks' : List OpenBlock} {before before' nodes nodes' : List Node}
      (opens : opening.Retold Same opening')
      (around : Assembled Same front blocks before blocks' before')
      (told : Retold Same nodes nodes') :
      Assembled Same front (⟨opening, openedAt, before⟩ :: blocks) nodes
        (⟨opening', openedAt', before'⟩ :: blocks') nodes'

namespace Assembled

open Outcome (Together)

variable {front : List Node} {blocks blocks' : List OpenBlock} {nodes nodes' more more' : List Node}

theorem append (assembled : Assembled Same front blocks nodes blocks' nodes')
    (told : Retold Same more more') :
    Assembled Same front blocks (nodes ++ more) blocks' (nodes' ++ more') := by
  cases assembled with
  | outermost toldBefore =>
      rw [List.append_assoc]
      exact .outermost (toldBefore.append told)
  | inside openedAt openedAt' opens around toldInside =>
      exact .inside openedAt openedAt' opens around (toldInside.append told)

abbrev Between (Same : Spanned Expr → Spanned Expr → Prop) (front : List Node)
    (assembly assembly' : Assembly) : Prop :=
  Assembled Same front assembly.blocks assembly.nodes assembly'.blocks assembly'.nodes

variable {assembly assembly' : Assembly}

theorem start (Same : Spanned Expr → Spanned Expr → Prop) (front : List Node) :
    Between Same front ⟨[], front⟩ .empty := by
  have started : Assembled Same front [] (front ++ []) [] [] := .outermost .nil
  rwa [List.append_nil] at started

theorem apply {directive directive' : Directive}
    (assembled : Between Same front assembly assembly') (alike : directive.Alike Same directive')
    (span span' : Span) :
    Together (Between Same front) (assembly.apply directive span)
      (assembly'.apply directive' span') := by
  obtain ⟨blocks, nodes⟩ := assembly
  obtain ⟨blocks', nodes'⟩ := assembly'
  cases alike with
  | eval same => exact .ok (assembled.append (.eval same .nil))
  | ifBegin same => exact .ok (.inside span span' (.branch same) assembled .nil)
  | forBegin name same => exact .ok (.inside span span' (.each name same) assembled .nil)
  | elseBegin =>
      cases assembled with
      | outermost => exact .error _ _
      | inside openedAt openedAt' opens around told =>
          cases opens with
          | branch same =>
              exact .ok (.inside openedAt openedAt' (.branchElse same told) around .nil)
          | branchElse => exact .error _ _
          | each => exact .error _ _
  | blockEnd =>
      cases assembled with
      | outermost => exact .error _ _
      | inside openedAt openedAt' opens around told => exact .ok (around.append (opens.close told))

theorem move {move move' : Move} (assembled : Between Same front assembly assembly')
    (alike : move.Alike Same move') :
    Together (Between Same front) (assembly.move move) (assembly'.move move') := by
  cases alike with
  | text contents => exact .ok (assembled.append (.text contents .nil))
  | output same => exact .ok (assembled.append (.output same .nil))
  | tag alike span span' => exact assembled.apply alike span span'

theorem run {moves moves' : List Move} (assembled : Between Same front assembly assembly')
    (told : MovesRetold Same moves moves') :
    Together (Between Same front) (assembly.run moves) (assembly'.run moves') := by
  induction told generalizing assembly assembly' with
  | nil => exact .ok assembled
  | move alike _ ih =>
      rw [Assembly.run, Assembly.run, List.foldlM_cons, List.foldlM_cons]
      exact (assembled.move alike).bind fun _ _ next => ih next
  | split first second _ ih =>
      have next : Between Same front (assembly.push (.text (first ++ second)))
          ((assembly'.push (.text first)).push (.text second)) := by
        have pushed := assembled.append (.split first second .nil)
        rwa [← List.singleton_append (x := Node.text first), ← List.append_assoc] at pushed
      exact ih next

theorem of_closed (assembled : Assembled Same front blocks nodes blocks' nodes')
    (closed : blocks = [] ∨ blocks' = []) :
    ∃ rest, blocks = [] ∧ blocks' = [] ∧ nodes = front ++ rest ∧ Retold Same rest nodes' := by
  cases assembled with
  | outermost told => exact ⟨_, rfl, rfl, rfl, told⟩
  | inside => simp at closed

theorem run_closed {moves moves' : List Move} (assembled : Between Same front assembly assembly')
    (told : MovesRetold Same moves moves') :
    (∀ nodes, assembly.run moves = .ok ⟨[], nodes⟩ →
      ∃ rest nodes', nodes = front ++ rest ∧ assembly'.run moves' = .ok ⟨[], nodes'⟩ ∧
        Retold Same rest nodes') ∧
    ∀ nodes', assembly'.run moves' = .ok ⟨[], nodes'⟩ →
      ∃ rest, assembly.run moves = .ok ⟨[], front ++ rest⟩ ∧ Retold Same rest nodes' := by
  have together := assembled.run told
  generalize assembly.run moves = result, assembly'.run moves' = result' at together
  cases together with
  | @ok last last' related =>
      obtain ⟨blocks, nodes⟩ := last
      obtain ⟨blocks', nodes'⟩ := last'
      constructor
      · rintro _ ⟨⟩
        obtain ⟨rest, -, rfl, same, told⟩ := related.of_closed (.inl rfl)
        exact ⟨rest, nodes', same, rfl, told⟩
      · rintro _ ⟨⟩
        obtain ⟨rest, rfl, -, same, told⟩ := related.of_closed (.inr rfl)
        exact ⟨rest, congrArg (fun nodes => Except.ok (Assembly.mk [] nodes)) same, told⟩
  | error =>
      constructor
      · rintro _ ⟨⟩
      · rintro _ ⟨⟩

end Assembled

end ThemeRender.Template
