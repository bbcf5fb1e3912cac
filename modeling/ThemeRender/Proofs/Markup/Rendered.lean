import ThemeRender.Proofs.Markup.Interpretation
import ThemeRender.Proofs.Markup.Scan
/-!
What a part of a template does when it runs, wherever it stands on lines of its own. Parts in a row
do one thing after the other, and control lines do with the parts between them what they say.
-/

namespace ThemeRender.Markup

open Template

/-- What a part of a template does in a scope, from a line on. -/
abbrev Action : Type 1 :=
  (σ : Type) → Host σ → Scope → Nat → Render σ Unit

/-- Nothing but whole lines of text waits for the next tag. -/
structure Scan.Ready (scan : Scan) : Prop where
  clean : Text.Lacks tagOpen scan.lead
  ends : EndsLine scan.atLineStart scan.lead

/-- Read from the start of a line on, the text adds nodes that do what `action` does. Text that
waits before it is written first, and text that waits after it is still to be written. -/
def Renders (s : List Char) (action : Action) : Prop :=
  ∀ scan : Scan, scan.Ready → ∃ next added,
    scan.Reaches s next ∧ next.Ready ∧ next.blocks = scan.blocks ∧
    next.nodes = scan.nodes ++ added ∧
    ∀ (σ : Type) (host : Host σ) (scope : Scope) (rest : List Char),
      (do
        Node.runAll host (scope.over (scan.text ++ s ++ rest)) added
        Staged.write (String.ofList next.lead)) =
      (do
        Staged.write (String.ofList scan.lead)
        action σ host scope scan.line)

/-- Code that a reader takes whole and that a tag on one line can hold. -/
structure Embeds {α : Type} (reader : Reader α) (code : List Char) : Prop where
  reads : ∃ a, readCode reader code = .ok a
  closed : Text.Lacks tagClose code
  flat : Text.Flat code

theorem Renders.nil : Renders [] (fun _ _ _ _ => pure ()) := by
  intro scan ready
  refine ⟨scan, [], ⟨(List.append_nil _).symm, fun _ => rfl⟩, ready, rfl,
    (List.append_nil _).symm, ?_⟩
  intro σ host scope rest
  rw [Node.runAll, pure_bind, bind_pure_unit]

theorem Renders.append {s t : List Char} {first second : Action} (rendersFirst : Renders s first)
    (rendersSecond : Renders t second) :
    Renders (s ++ t) (fun σ host scope line => do
      first σ host scope line
      second σ host scope (line + s.count '\n')) := by
  intro scan ready
  obtain ⟨middle, added, reaches, readyMiddle, blocks, nodes, runs⟩ := rendersFirst scan ready
  obtain ⟨next, more, reachesNext, readyNext, blocksNext, nodesNext, runsNext⟩ :=
    rendersSecond middle readyMiddle
  refine ⟨next, added ++ more, reaches.trans reachesNext, readyNext, blocksNext.trans blocks,
    ?_, ?_⟩
  · rw [nodesNext, nodes, List.append_assoc]
  · intro σ host scope rest
    have runsFirst := runs σ host scope (t ++ rest)
    have runsSecond := runsNext σ host scope rest
    rw [reaches.grows, reaches.line] at runsSecond
    rw [show scan.text ++ (s ++ t) ++ rest = scan.text ++ s ++ (t ++ rest) by simp] at *
    rw [show scan.text ++ s ++ t ++ rest = scan.text ++ s ++ (t ++ rest) by simp] at runsSecond
    rw [runAll_append, bind_assoc, runsSecond, ← bind_assoc, runsFirst, bind_assoc]

theorem Renders.congr {s : List Char} {action other : Action} (renders : Renders s action)
    (same : ∀ σ host scope line, action σ host scope line = other σ host scope line) :
    Renders s other := by
  have equal : action = other := by
    funext σ host scope line
    exact same σ host scope line
  exact equal ▸ renders

theorem Renders.of_node {s : List Char} {action : Action}
    (step : ∀ scan : Scan, scan.Ready → ∃ node done,
      scan.Reaches s ⟨done, [], true, scan.blocks,
        scan.nodes ++ (textNodes scan.lead ++ [node])⟩ ∧
      ∀ (σ : Type) (host : Host σ) (scope : Scope) (rest : List Char),
        node.run host (scope.over (scan.text ++ s ++ rest)) = action σ host scope scan.line) :
    Renders s action := by
  intro scan ready
  obtain ⟨node, done, reaches, runs⟩ := step scan ready
  refine ⟨_, _, reaches, ⟨Text.lacks_nil, .inl ⟨rfl, rfl⟩⟩, rfl, rfl, ?_⟩
  intro σ host scope rest
  rw [runAll_append, runAll_textNodes, bind_assoc, Node.runAll, runs, Node.runAll, bind_pure_unit,
    show String.ofList [] = "" from rfl, write_empty, bind_pure_unit]

/-! Lines of code -/

theorem runCode_of_reads {σ : Type} {code : List Char} {value : Spanned Expr}
    (reads : readCode readOutput code = .ok value) (host : Host σ) (scope : Scope) (line : Nat) :
    runCode host scope line code = value.node.eval host scope line := by
  unfold runCode
  simp only [reads]

theorem runBinding_of_reads {σ : Type} {binding : List Char} {name : String}
    {items : Spanned Expr} (reads : readCode readBinding binding = .ok (name, items))
    (host : Host σ) (scope : Scope) (line : Nat) :
    runBinding host scope line binding = (do
      let value ← items.node.eval host scope line
      match itemsOf? value with
      | none => scope.fault line (.notIterable value.typeName)
      | some values => return (name, values)) := by
  unfold runBinding
  split
  · rename_i other
    rw [reads] at other
    cases other
  · rename_i found
    rw [reads] at found
    cases found
    rfl

theorem eval_codeLine {σ : Type} {code : List Char} {value : Spanned Expr} {depth ahead : Nat}
    (flat : Text.Flat code) (starts : value.span.start + ahead ≤ Text.byteLength code + 1)
    (scan : Scan) (host : Host σ) (scope : Scope) (rest : List Char) :
    (scope.over (scan.text ++ lineAt depth (codeTag code) ++ rest)).lineOf
        ((value.shift ahead).shift (scan.codeOffset depth)).span = scan.line ∧
      evalSpanned host (scope.over (scan.text ++ lineAt depth (codeTag code) ++ rest))
        ((value.shift ahead).shift (scan.codeOffset depth)) =
          value.node.eval host scope scan.line := by
  have line := @Scan.lineOf_codeLine scan code depth (value.shift ahead).span flat starts scope rest
  refine ⟨line, ?_⟩
  rw [← line, ← Expr.eval_over scope]
  rfl

theorem Renders.code {code : List Char} (embeds : Embeds readOutput code) (depth : Nat) :
    Renders (lineAt depth (codeTag code)) (fun _ host scope line => do
      let _ ← runCode host scope line code) := by
  obtain ⟨value, reads⟩ := embeds.reads
  apply Renders.of_node
  intro scan ready
  have reaches := @Scan.reaches_codeLine scan code _ depth _ ready.clean ready.ends embeds.closed
    (readDirective_padded reads) rfl
  refine ⟨.eval ((value.shift 1).shift (scan.codeOffset depth)),
    scan.text ++ lineAt depth (codeTag code), ?_, ?_⟩
  · rw [← List.append_assoc]
    exact reaches
  · intro σ host scope rest
    have starts := Nat.succ_le_succ (start_of_readOutput reads)
    rw [Node.run, (eval_codeLine embeds.flat starts scan host scope rest).2,
      runCode_of_reads reads]

/-! Blocks -/

theorem Renders.body {s : List Char} {action : Action} (renders : Renders s action)
    (text : List Char) (blocks : List OpenBlock) :
    ∃ next : Scan, Scan.Reaches ⟨text, [], true, blocks, []⟩ s next ∧ next.Ready ∧
      next.blocks = blocks ∧
      ∀ (σ : Type) (host : Host σ) (scope : Scope) (rest : List Char),
        Node.runAll host (scope.over (text ++ s ++ rest)) (next.nodes ++ textNodes next.lead) =
          action σ host scope (text.count '\n' + 1) := by
  obtain ⟨next, added, reaches, ready, sameBlocks, nodes, runs⟩ :=
    renders ⟨text, [], true, blocks, []⟩ ⟨Text.lacks_nil, .inl ⟨rfl, rfl⟩⟩
  refine ⟨next, reaches, ready, sameBlocks, ?_⟩
  intro σ host scope rest
  have whole := runs σ host scope rest
  simp only [Scan.text, Scan.line, List.append_nil, show String.ofList [] = "" from rfl,
    write_empty, pure_bind] at whole
  rw [runAll_append, runAll_textNodes, nodes]
  exact whole

theorem Scan.reaches_end {scan : Scan} {opening : Opening} {openedAt : Span} {before : List Node}
    {blocks : List OpenBlock} (ready : scan.Ready)
    (opened : scan.blocks = ⟨opening, openedAt, before⟩ :: blocks) (depth : Nat) :
    scan.Reaches (lineAt depth endTag)
      ⟨scan.text ++ lineAt depth endTag, [], true, blocks,
        before ++ [opening.close (scan.nodes ++ textNodes scan.lead)]⟩ := by
  apply @Scan.reaches_codeLine scan "end".toList .blockEnd depth
    ⟨blocks, before ++ [opening.close (scan.nodes ++ textNodes scan.lead)]⟩ ready.clean ready.ends
    (by decide) readDirective_end
  rw [opened]
  rfl

theorem Scan.reaches_else {scan : Scan} {condition : Spanned Expr} {openedAt : Span}
    {before : List Node} {blocks : List OpenBlock} (ready : scan.Ready)
    (opened : scan.blocks = ⟨.branch condition none, openedAt, before⟩ :: blocks) (depth : Nat) :
    scan.Reaches (lineAt depth (codeTag "else".toList))
      ⟨scan.text ++ lineAt depth (codeTag "else".toList), [], true,
        ⟨.branch condition (some (scan.nodes ++ textNodes scan.lead)), openedAt, before⟩ :: blocks,
        []⟩ := by
  apply @Scan.reaches_codeLine scan "else".toList .elseBegin depth
    ⟨⟨.branch condition (some (scan.nodes ++ textNodes scan.lead)), openedAt, before⟩ :: blocks, []⟩
    ready.clean ready.ends (by decide) readDirective_else
  rw [opened]
  rfl

theorem Embeds.after_if {code : List Char} (embeds : Embeds readOutput code) :
    Text.Lacks tagClose ("if ".toList ++ code) ∧ Text.Flat ("if ".toList ++ code) := by
  refine ⟨?_, Text.Flat.append (by decide) embeds.flat⟩
  exact ((embeds.closed.cons (by decide)).cons (by decide)).cons (by decide)

theorem Embeds.after_for {code : List Char} (embeds : Embeds readBinding code) :
    Text.Lacks tagClose ("for ".toList ++ code) ∧ Text.Flat ("for ".toList ++ code) := by
  refine ⟨?_, Text.Flat.append (by decide) embeds.flat⟩
  exact (((embeds.closed.cons (by decide)).cons (by decide)).cons (by decide)).cons (by decide)

theorem start_after_if {code : List Char} {value : Spanned Expr}
    (reads : readCode readOutput code = .ok value) :
    value.span.start + 4 ≤ Text.byteLength ("if ".toList ++ code) + 1 := by
  have size : Text.byteLength ("if ".toList ++ code) = 3 + Text.byteLength code :=
    Text.byteLength_append _ _
  have := start_of_readOutput reads
  omega

theorem start_after_for {code : List Char} {name : String} {items : Spanned Expr}
    (reads : readCode readBinding code = .ok (name, items)) :
    items.span.start + 5 ≤ Text.byteLength ("for ".toList ++ code) + 1 := by
  have size : Text.byteLength ("for ".toList ++ code) = 4 + Text.byteLength code :=
    Text.byteLength_append _ _
  have := start_of_readBinding reads
  omega

theorem count_lineAt {text : List Char} (flat : Text.Flat text) (depth : Nat) :
    (lineAt depth text).count '\n' = 1 := by
  rw [lineAt, List.count_append, ((Text.flat_blanks _).append flat).count]
  rfl

theorem count_codeLine {code : List Char} (flat : Text.Flat code) (depth : Nat) :
    (lineAt depth (codeTag code)).count '\n' = 1 :=
  count_lineAt ((Text.Flat.append (by decide) flat).append (by decide)) depth

theorem Renders.opened {code s : List Char} {action : Action} {directive : Directive}
    {opening : Opening} {scan : Scan} {depth : Nat} (renders : Renders s action)
    (ready : scan.Ready) (closed : Text.Lacks tagClose code) (flat : Text.Flat code)
    (reads : readCode readDirective (' ' :: code ++ [' ']) = .ok directive)
    (opens : ∀ (assembly : Assembly) (span : Span),
      assembly.apply (directive.shift (scan.codeOffset depth)) span =
        .ok (assembly.openBlock opening span)) :
    ∃ openedAt next, scan.Reaches (lineAt depth (codeTag code) ++ s) next ∧ next.Ready ∧
      next.blocks = ⟨opening, openedAt, scan.nodes ++ textNodes scan.lead⟩ :: scan.blocks ∧
      ∀ (σ : Type) (host : Host σ) (scope : Scope) (rest : List Char),
        Node.runAll host (scope.over (scan.text ++ lineAt depth (codeTag code) ++ s ++ rest))
          (next.nodes ++ textNodes next.lead) = action σ host scope (scan.line + 1) := by
  have first := Scan.reaches_codeLine ready.clean ready.ends closed reads (opens _ _)
  obtain ⟨next, reaches, readyNext, blocks, runs⟩ := renders.body
    (scan.text ++ lineAt depth (codeTag code))
    (⟨opening, scan.codeSpan depth code, scan.nodes ++ textNodes scan.lead⟩ :: scan.blocks)
  refine ⟨scan.codeSpan depth code, next, first.trans reaches, readyNext, blocks, ?_⟩
  intro σ host scope rest
  rw [runs, List.count_append, count_codeLine flat, Scan.line]

theorem Renders.when {condition s : List Char} {action : Action}
    (embeds : Embeds readOutput condition) (renders : Renders s action) (depth : Nat) :
    Renders (lineAt depth (codeTag ("if ".toList ++ condition)) ++ s ++ lineAt depth endTag)
      (fun σ host scope line => do
        let value ← runCode host scope line condition
        if value.isTruthy then action σ host scope (line + 1) else return) := by
  obtain ⟨value, reads⟩ := embeds.reads
  obtain ⟨closed, flat⟩ := embeds.after_if
  apply Renders.of_node
  intro scan ready
  obtain ⟨openedAt, next, reaches, readyNext, blocks, runs⟩ :=
    @Renders.opened _ _ _ _ (.branch ((value.shift 4).shift (scan.codeOffset depth)) none)
      scan depth renders ready closed flat (readDirective_if reads) (fun _ _ => rfl)
  have closes := Scan.reaches_end readyNext blocks depth
  refine ⟨.branch ((value.shift 4).shift (scan.codeOffset depth))
    (next.nodes ++ textNodes next.lead) [], next.text ++ lineAt depth endTag, ?_, ?_⟩
  · rw [← List.append_assoc scan.nodes]
    exact reaches.trans closes
  · intro σ host scope rest
    have source : scan.text ++ (lineAt depth (codeTag ("if ".toList ++ condition)) ++ s ++
        lineAt depth endTag) ++ rest =
        scan.text ++ lineAt depth (codeTag ("if ".toList ++ condition)) ++ s ++
          (lineAt depth endTag ++ rest) := by simp only [List.append_assoc]
    have starts := start_after_if reads
    rw [Node.run, source, runs, List.append_assoc _ s,
      (eval_codeLine flat starts scan host scope _).2, runCode_of_reads reads]
    simp only [Node.runAll]

theorem Renders.branch {condition s t : List Char} {yes no : Action}
    (embeds : Embeds readOutput condition) (rendersYes : Renders s yes) (rendersNo : Renders t no)
    (depth : Nat) :
    Renders (lineAt depth (codeTag ("if ".toList ++ condition)) ++ s ++
        (lineAt depth (codeTag "else".toList) ++ t ++ lineAt depth endTag))
      (fun σ host scope line => do
        let value ← runCode host scope line condition
        if value.isTruthy then yes σ host scope (line + 1)
        else no σ host scope (line + 1 + s.count '\n' + 1)) := by
  obtain ⟨value, reads⟩ := embeds.reads
  obtain ⟨closed, flat⟩ := embeds.after_if
  apply Renders.of_node
  intro scan ready
  obtain ⟨openedAt, middle, reaches, readyMiddle, blocks, runsYes⟩ :=
    @Renders.opened _ _ _ _ (.branch ((value.shift 4).shift (scan.codeOffset depth)) none)
      scan depth rendersYes ready closed flat (readDirective_if reads) (fun _ _ => rfl)
  have turns := Scan.reaches_else readyMiddle blocks depth
  obtain ⟨next, reachesNo, readyNext, blocksNext, runsNo⟩ := rendersNo.body
    (middle.text ++ lineAt depth (codeTag "else".toList))
    (⟨.branch ((value.shift 4).shift (scan.codeOffset depth))
      (some (middle.nodes ++ textNodes middle.lead)), openedAt,
      scan.nodes ++ textNodes scan.lead⟩ :: scan.blocks)
  have closes := Scan.reaches_end readyNext blocksNext depth
  refine ⟨.branch ((value.shift 4).shift (scan.codeOffset depth))
    (middle.nodes ++ textNodes middle.lead) (next.nodes ++ textNodes next.lead),
    next.text ++ lineAt depth endTag, ?_, ?_⟩
  · rw [← List.append_assoc scan.nodes, List.append_assoc _ t]
    exact reaches.trans (turns.trans (reachesNo.trans closes))
  · intro σ host scope rest
    have source : scan.text ++ (lineAt depth (codeTag ("if ".toList ++ condition)) ++ s ++
        (lineAt depth (codeTag "else".toList) ++ t ++ lineAt depth endTag)) ++ rest =
        scan.text ++ lineAt depth (codeTag ("if ".toList ++ condition)) ++ s ++
          (lineAt depth (codeTag "else".toList) ++ t ++ lineAt depth endTag ++ rest) := by
      simp only [List.append_assoc]
    have sourceNo : scan.text ++ lineAt depth (codeTag ("if ".toList ++ condition)) ++ s ++
          (lineAt depth (codeTag "else".toList) ++ t ++ lineAt depth endTag ++ rest) =
        middle.text ++ lineAt depth (codeTag "else".toList) ++ t ++
          (lineAt depth endTag ++ rest) := by
      simp only [reaches.grows, List.append_assoc]
    -- the second body starts after the two lines of code and the lines of the first
    have lineNo : (middle.text ++ lineAt depth (codeTag "else".toList)).count '\n' + 1 =
        scan.line + 1 + s.count '\n' + 1 := by
      have elseLine : (lineAt depth (codeTag "else".toList)).count '\n' = 1 :=
        count_codeLine (by decide) depth
      have grown := reaches.line
      rw [List.count_append, count_codeLine flat] at grown
      rw [List.count_append, elseLine]
      unfold Scan.line at grown ⊢
      omega
    have runsElse := runsNo σ host scope (lineAt depth endTag ++ rest)
    rw [← sourceNo, lineNo] at runsElse
    have starts := start_after_if reads
    rw [Node.run, source, runsYes, runsElse, List.append_assoc _ s,
      (eval_codeLine flat starts scan host scope _).2, runCode_of_reads reads]

theorem Renders.each {binding s : List Char} {action : Action}
    (embeds : Embeds readBinding binding) (renders : Renders s action) (depth : Nat) :
    Renders (lineAt depth (codeTag ("for ".toList ++ binding)) ++ s ++ lineAt depth endTag)
      (fun σ host scope line => do
        let (name, values) ← runBinding host scope line binding
        values.forM fun value => action σ host (scope.bind name value) (line + 1)) := by
  obtain ⟨⟨name, items⟩, reads⟩ := embeds.reads
  obtain ⟨closed, flat⟩ := embeds.after_for
  apply Renders.of_node
  intro scan ready
  obtain ⟨openedAt, next, reaches, readyNext, blocks, runs⟩ :=
    @Renders.opened _ _ _ _ (.each name ((items.shift 5).shift (scan.codeOffset depth)))
      scan depth renders ready closed flat (readDirective_for reads) (fun _ _ => rfl)
  have closes := Scan.reaches_end readyNext blocks depth
  refine ⟨.each name ((items.shift 5).shift (scan.codeOffset depth))
    (next.nodes ++ textNodes next.lead), next.text ++ lineAt depth endTag, ?_, ?_⟩
  · rw [← List.append_assoc scan.nodes]
    exact reaches.trans closes
  · intro σ host scope rest
    have source : scan.text ++ (lineAt depth (codeTag ("for ".toList ++ binding)) ++ s ++
        lineAt depth endTag) ++ rest =
        scan.text ++ lineAt depth (codeTag ("for ".toList ++ binding)) ++ s ++
          (lineAt depth endTag ++ rest) := by simp only [List.append_assoc]
    obtain ⟨line, evaluates⟩ := @eval_codeLine σ _ _ depth 5 flat (start_after_for reads) scan host
      scope (s ++ (lineAt depth endTag ++ rest))
    rw [← List.append_assoc (scan.text ++ _) s] at line evaluates
    rw [Node.run, source, evaluates, line, runBinding_of_reads reads, bind_assoc]
    apply bind_congr
    intro value
    cases itemsOf? value with
    | none => rfl
    | some values =>
        simp only [pure_bind]
        congr
        funext item
        exact runs σ host (scope.bind name item) (lineAt depth endTag ++ rest)

end ThemeRender.Markup
