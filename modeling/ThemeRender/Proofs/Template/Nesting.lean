import ThemeRender.Proofs.Template.Parts
import ThemeRender.Template.Parse
/-!
Which templates are accepted, and what their nodes keep of them. `Block` is the grammar of the parts
of a template, `Unfolds` lays nodes out into parts again. Blocks that are still open are kept in
`Built`, which every step of the assembly preserves.
-/

namespace ThemeRender.Template

/-- Parts in which every block that is opened is closed. -/
inductive Block : List Part → Prop
  | nil : Block []
  | text (contents : String) {rest : List Part} (after : Block rest) : Block (.text contents :: rest)
  | output (value : Expr) {rest : List Part} (after : Block rest) : Block (.output value :: rest)
  | eval (code : Expr) {rest : List Part} (after : Block rest) : Block (.eval code :: rest)
  | branch (condition : Expr) {yes rest : List Part} (first : Block yes) (after : Block rest) :
      Block (.ifBegin condition :: (yes ++ .blockEnd :: rest))
  | branchElse (condition : Expr) {yes no rest : List Part} (first : Block yes)
      (second : Block no) (after : Block rest) :
      Block (.ifBegin condition :: (yes ++ .elseBegin :: (no ++ .blockEnd :: rest)))
  | each (name : String) (items : Expr) {body rest : List Part} (inside : Block body)
      (after : Block rest) : Block (.forBegin name items :: (body ++ .blockEnd :: rest))

/-- The parts that nodes stand for, in order. A branch without nodes for the other case stands for
one with or without an `else`. -/
inductive Unfolds : List Node → List Part → Prop
  | nil : Unfolds [] []
  | text (contents : String) {nodes : List Node} {rest : List Part} (after : Unfolds nodes rest) :
      Unfolds (.text contents :: nodes) (.text contents :: rest)
  | output (value : Spanned Expr) {nodes : List Node} {rest : List Part}
      (after : Unfolds nodes rest) : Unfolds (.output value :: nodes) (.output value.node :: rest)
  | eval (code : Spanned Expr) {nodes : List Node} {rest : List Part}
      (after : Unfolds nodes rest) : Unfolds (.eval code :: nodes) (.eval code.node :: rest)
  | branch (condition : Spanned Expr) {yes nodes : List Node} {yesParts rest : List Part}
      (first : Unfolds yes yesParts) (after : Unfolds nodes rest) :
      Unfolds (.branch condition yes [] :: nodes)
        (.ifBegin condition.node :: (yesParts ++ .blockEnd :: rest))
  | branchElse (condition : Spanned Expr) {yes no nodes : List Node}
      {yesParts noParts rest : List Part} (first : Unfolds yes yesParts)
      (second : Unfolds no noParts) (after : Unfolds nodes rest) :
      Unfolds (.branch condition yes no :: nodes)
        (.ifBegin condition.node :: (yesParts ++ .elseBegin :: (noParts ++ .blockEnd :: rest)))
  | each (name : String) (items : Spanned Expr) {body nodes : List Node}
      {bodyParts rest : List Part} (inside : Unfolds body bodyParts)
      (after : Unfolds nodes rest) :
      Unfolds (.each name items body :: nodes)
        (.forBegin name items.node :: (bodyParts ++ .blockEnd :: rest))

variable {nodes more : List Node} {parts moreParts : List Part}

theorem Unfolds.block (unfolds : Unfolds nodes parts) : Block parts := by
  induction unfolds with
  | nil => exact .nil
  | text contents _ after => exact .text contents after
  | output value _ after => exact .output value.node after
  | eval code _ after => exact .eval code.node after
  | branch condition _ _ first after => exact .branch condition.node first after
  | branchElse condition _ _ _ first second after =>
      exact .branchElse condition.node first second after
  | each name items _ _ inside after => exact .each name items.node inside after

theorem Unfolds.append (unfolds : Unfolds nodes parts) (unfoldsMore : Unfolds more moreParts) :
    Unfolds (nodes ++ more) (parts ++ moreParts) := by
  induction unfolds with
  | nil => exact unfoldsMore
  | text contents _ after => exact .text contents after
  | output value _ after => exact .output value after
  | eval code _ after => exact .eval code after
  | branch condition first _ _ after =>
      have whole := Unfolds.branch condition first after
      simpa using whole
  | branchElse condition first second _ _ _ after =>
      have whole := Unfolds.branchElse condition first second after
      simpa using whole
  | each name items inside _ _ after =>
      have whole := Unfolds.each name items inside after
      simpa using whole

/-! Open blocks -/

/-- What has been assembled so far stands for the parts so far. -/
inductive Built : List OpenBlock → List Node → List Part → Prop
  | outermost {nodes : List Node} {parts : List Part} (unfolds : Unfolds nodes parts) :
      Built [] nodes parts
  | branch (condition : Spanned Expr) (openedAt : Span) {blocks : List OpenBlock}
      {before yes : List Node} {parts yesParts : List Part} (around : Built blocks before parts)
      (first : Unfolds yes yesParts) :
      Built (⟨.branch condition none, openedAt, before⟩ :: blocks) yes
        (parts ++ .ifBegin condition.node :: yesParts)
  | branchElse (condition : Spanned Expr) (openedAt : Span) {blocks : List OpenBlock}
      {before yes no : List Node} {parts yesParts noParts : List Part}
      (around : Built blocks before parts) (first : Unfolds yes yesParts)
      (second : Unfolds no noParts) :
      Built (⟨.branch condition (some yes), openedAt, before⟩ :: blocks) no
        (parts ++ .ifBegin condition.node :: (yesParts ++ .elseBegin :: noParts))
  | each (name : String) (items : Spanned Expr) (openedAt : Span) {blocks : List OpenBlock}
      {before body : List Node} {parts bodyParts : List Part} (around : Built blocks before parts)
      (inside : Unfolds body bodyParts) :
      Built (⟨.each name items, openedAt, before⟩ :: blocks) body
        (parts ++ .forBegin name items.node :: bodyParts)

variable {blocks : List OpenBlock}

theorem Built.append (built : Built blocks nodes parts) (unfolds : Unfolds more moreParts) :
    Built blocks (nodes ++ more) (parts ++ moreParts) := by
  cases built with
  | outermost done => exact .outermost (done.append unfolds)
  | branch condition openedAt around first =>
      have whole := Built.branch condition openedAt around (first.append unfolds)
      simpa using whole
  | branchElse condition openedAt around first second =>
      have whole := Built.branchElse condition openedAt around first (second.append unfolds)
      simpa using whole
  | each name items openedAt around inside =>
      have whole := Built.each name items openedAt around (inside.append unfolds)
      simpa using whole

theorem Built.close {block : OpenBlock} (built : Built (block :: blocks) nodes parts) :
    Built blocks (block.before ++ [block.opening.close nodes]) (parts ++ [.blockEnd]) := by
  cases built with
  | branch condition openedAt around first =>
      have whole := around.append (.branch condition first .nil)
      simpa [Opening.close] using whole
  | branchElse condition openedAt around first second =>
      have whole := around.append (.branchElse condition first second .nil)
      simpa [Opening.close] using whole
  | each name items openedAt around inside =>
      have whole := around.append (.each name items inside .nil)
      simpa [Opening.close] using whole

theorem Built.apply {assembly next : Assembly} {directive : Directive} {span : Span}
    (built : Built assembly.blocks assembly.nodes parts)
    (applied : assembly.apply directive span = .ok next) :
    Built next.blocks next.nodes (parts ++ [directive.part]) := by
  obtain ⟨blocks, nodes⟩ := assembly
  cases directive with
  | eval code =>
      cases applied
      exact built.append (.eval code .nil)
  | ifBegin condition =>
      cases applied
      exact .branch condition span built .nil
  | forBegin name items =>
      cases applied
      exact .each name items span built .nil
  | elseBegin =>
      cases built with
      | branch condition openedAt around first =>
          cases applied
          have whole := Built.branchElse condition openedAt around first .nil
          simpa [Directive.part] using whole
      | outermost | branchElse | each => cases applied
  | blockEnd =>
      cases blocks with
      | nil => cases applied
      | cons block blocks =>
          cases applied
          exact built.close

/-! Putting nodes together -/

/-- What a segment does when it has no error. -/
inductive Move where
  | text (contents : String)
  | output (value : Spanned Expr)
  | tag (directive : Directive) (span : Span)

def Move.part : Move → Part
  | .text contents => .text contents
  | .output value => .output value.node
  | .tag directive _ => directive.part

def Assembly.move (assembly : Assembly) : Move → Except SyntaxError Assembly
  | .text contents => .ok (assembly.push (.text contents))
  | .output value => .ok (assembly.push (.output value))
  | .tag directive span => assembly.apply directive span

def Assembly.run (moves : List Move) (assembly : Assembly) : Except SyntaxError Assembly :=
  moves.foldlM Assembly.move assembly

theorem Assembly.run_cons {move : Move} {moves : List Move} {assembly next : Assembly}
    (moved : assembly.move move = .ok next) :
    assembly.run (move :: moves) = next.run moves := by
  rw [run, List.foldlM_cons, moved]
  rfl

theorem Assembly.run_append {first second : List Move} {assembly next : Assembly}
    (ran : assembly.run first = .ok next) :
    assembly.run (first ++ second) = next.run second := by
  rw [run, List.foldlM_append]
  exact congrArg (· >>= _) ran

theorem Built.run {moves : List Move} {assembly last : Assembly}
    (built : Built assembly.blocks assembly.nodes parts) (ran : assembly.run moves = .ok last) :
    Built last.blocks last.nodes (parts ++ moves.map Move.part) := by
  induction moves generalizing assembly parts with
  | nil =>
      cases ran
      simpa using built
  | cons move moves ih =>
      obtain ⟨next, moved, ran⟩ := Outcome.except_bind_eq_ok.mp ran
      have after : Built next.blocks next.nodes (parts ++ [move.part]) := by
        cases move with
        | text contents =>
            cases moved
            exact built.append (.text contents .nil)
        | output value =>
            cases moved
            exact built.append (.output value .nil)
        | tag directive span => exact built.apply moved
      have whole := ih after ran
      simpa using whole

def Part.isLeaf : Part → Bool
  | .text _ | .output _ | .eval _ => true
  | _ => false

theorem Move.pushes {move : Move} (leaf : move.part.isLeaf = true) :
    ∃ node, ∀ assembly : Assembly, assembly.move move = .ok (assembly.push node) := by
  cases move with
  | text contents => exact ⟨.text contents, fun _ => rfl⟩
  | output value => exact ⟨.output value, fun _ => rfl⟩
  | tag directive span => cases directive with
    | eval code => exact ⟨.eval code, fun _ => rfl⟩
    | _ => cases leaf

theorem Move.of_ifBegin {move : Move} {condition : Expr} (same : move.part = .ifBegin condition) :
    ∃ spanned span, move = .tag (.ifBegin spanned) span := by
  cases move with
  | text | output => cases same
  | tag directive span => cases directive with
    | ifBegin spanned => exact ⟨spanned, span, rfl⟩
    | _ => cases same

theorem Move.of_forBegin {move : Move} {name : String} {items : Expr}
    (same : move.part = .forBegin name items) :
    ∃ spanned span, move = .tag (.forBegin name spanned) span := by
  cases move with
  | text | output => cases same
  | tag directive span => cases directive with
    | forBegin _ spanned =>
        cases same
        exact ⟨spanned, span, rfl⟩
    | _ => cases same

theorem Move.of_elseBegin {move : Move} (same : move.part = .elseBegin) :
    ∃ span, move = .tag .elseBegin span := by
  cases move with
  | text | output => cases same
  | tag directive span => cases directive with
    | elseBegin => exact ⟨span, rfl⟩
    | _ => cases same

theorem Move.of_blockEnd {move : Move} (same : move.part = .blockEnd) :
    ∃ span, move = .tag .blockEnd span := by
  cases move with
  | text | output => cases same
  | tag directive span => cases directive with
    | blockEnd => exact ⟨span, rfl⟩
    | _ => cases same

/-- However the run starts, it ends with more nodes in the same blocks. -/
def AddsNodes (moves : List Move) : Prop :=
  ∀ assembly : Assembly, ∃ nodes,
    assembly.run moves = .ok { assembly with nodes := assembly.nodes ++ nodes }

theorem AddsNodes.push {move : Move} {moves : List Move} (leaf : move.part.isLeaf = true)
    (adds : AddsNodes moves) : AddsNodes (move :: moves) := by
  intro assembly
  obtain ⟨node, pushes⟩ := Move.pushes leaf
  obtain ⟨nodes, ran⟩ := adds (assembly.push node)
  refine ⟨node :: nodes, ?_⟩
  rw [Assembly.run_cons (pushes assembly), ran]
  simp [Assembly.push]

theorem AddsNodes.close {inside after : List Move} (adds : AddsNodes inside)
    (addsAfter : AddsNodes after) (endSpan : Span) (block : OpenBlock)
    (blocks : List OpenBlock) :
    ∃ nodes, Assembly.run (inside ++ .tag .blockEnd endSpan :: after) ⟨block :: blocks, []⟩ =
      .ok ⟨blocks, block.before ++ nodes⟩ := by
  obtain ⟨last, ran⟩ := adds ⟨block :: blocks, []⟩
  obtain ⟨nodes, ranAfter⟩ := addsAfter ⟨blocks, block.before ++ [block.opening.close last]⟩
  refine ⟨block.opening.close last :: nodes, ?_⟩
  rw [Assembly.run_append ran, Assembly.run_cons rfl]
  simpa using ranAfter

theorem Block.addsNodes (block : Block parts) {moves : List Move}
    (same : moves.map Move.part = parts) : AddsNodes moves := by
  induction block generalizing moves with
  | nil =>
      rw [List.map_eq_nil_iff.mp same]
      exact fun assembly => ⟨[], by simp [Assembly.run, pure, Except.pure]⟩
  | text contents _ ih =>
      obtain ⟨move, rest, rfl, leaf, sameRest⟩ := List.map_eq_cons_iff.mp same
      exact (ih sameRest).push (leaf ▸ rfl)
  | output value _ ih =>
      obtain ⟨move, rest, rfl, leaf, sameRest⟩ := List.map_eq_cons_iff.mp same
      exact (ih sameRest).push (leaf ▸ rfl)
  | eval code _ ih =>
      obtain ⟨move, rest, rfl, leaf, sameRest⟩ := List.map_eq_cons_iff.mp same
      exact (ih sameRest).push (leaf ▸ rfl)
  | branch condition _ _ ihFirst ihAfter =>
      obtain ⟨opens, _, rfl, isOpen, same⟩ := List.map_eq_cons_iff.mp same
      obtain ⟨yes, _, rfl, sameYes, same⟩ := List.map_eq_append_iff.mp same
      obtain ⟨ends, after, rfl, isEnd, sameAfter⟩ := List.map_eq_cons_iff.mp same
      obtain ⟨spanned, span, rfl⟩ := Move.of_ifBegin isOpen
      obtain ⟨endSpan, rfl⟩ := Move.of_blockEnd isEnd
      intro assembly
      rw [Assembly.run_cons rfl]
      exact (ihFirst sameYes).close (ihAfter sameAfter) endSpan _ _
  | branchElse condition _ _ _ ihFirst ihSecond ihAfter =>
      obtain ⟨opens, _, rfl, isOpen, same⟩ := List.map_eq_cons_iff.mp same
      obtain ⟨yes, _, rfl, sameYes, same⟩ := List.map_eq_append_iff.mp same
      obtain ⟨between, _, rfl, isElse, same⟩ := List.map_eq_cons_iff.mp same
      obtain ⟨no, _, rfl, sameNo, same⟩ := List.map_eq_append_iff.mp same
      obtain ⟨ends, after, rfl, isEnd, sameAfter⟩ := List.map_eq_cons_iff.mp same
      obtain ⟨spanned, span, rfl⟩ := Move.of_ifBegin isOpen
      obtain ⟨elseSpan, rfl⟩ := Move.of_elseBegin isElse
      obtain ⟨endSpan, rfl⟩ := Move.of_blockEnd isEnd
      intro assembly
      obtain ⟨first, ran⟩ := ihFirst sameYes
        ⟨⟨.branch spanned none, span, assembly.nodes⟩ :: assembly.blocks, []⟩
      rw [Assembly.run_cons rfl, Assembly.openBlock, Assembly.run_append ran,
        Assembly.run_cons rfl]
      exact (ihSecond sameNo).close (ihAfter sameAfter) endSpan _ _
  | each name items _ _ ihInside ihAfter =>
      obtain ⟨opens, _, rfl, isOpen, same⟩ := List.map_eq_cons_iff.mp same
      obtain ⟨body, _, rfl, sameBody, same⟩ := List.map_eq_append_iff.mp same
      obtain ⟨ends, after, rfl, isEnd, sameAfter⟩ := List.map_eq_cons_iff.mp same
      obtain ⟨spanned, span, rfl⟩ := Move.of_forBegin isOpen
      obtain ⟨endSpan, rfl⟩ := Move.of_blockEnd isEnd
      intro assembly
      rw [Assembly.run_cons rfl]
      exact (ihInside sameBody).close (ihAfter sameAfter) endSpan _ _

/-! Segments without errors -/

/-- What the segments do, none of them with an error of its own. -/
inductive Moves : List Segment → List Move → Prop
  | nil : Moves [] []
  | text (contents : List Char) {segments : List Segment} {moves : List Move}
      (rest : Moves segments moves) :
      Moves (.text contents :: segments) (.text (String.ofList contents) :: moves)
  | output {code : List Char} {value : Spanned Expr} (offset : Nat) (span : Span)
      {segments : List Segment} {moves : List Move} (read : readCode readOutput code = .ok value)
      (rest : Moves segments moves) :
      Moves (.tag .output code offset span :: segments) (.output (value.shift offset) :: moves)
  | code {code : List Char} {directive : Directive} (offset : Nat) (span : Span)
      {segments : List Segment} {moves : List Move}
      (read : readCode readDirective code = .ok directive) (rest : Moves segments moves) :
      Moves (.tag .code code offset span :: segments)
        (.tag (directive.shift offset) span :: moves)
  | comment (code : List Char) (offset : Nat) (span : Span) {segments : List Segment}
      {moves : List Move} (rest : Moves segments moves) :
      Moves (.tag .comment code offset span :: segments) moves

section

variable {segments : List Segment} {moves : List Move}

theorem Moves.reads (found : Moves segments moves) :
    Reads (segments.map Segment.piece) (moves.map Move.part) := by
  induction found with
  | nil => exact .nil
  | text contents _ ih => exact .text contents ih
  | output _ _ read _ ih =>
      obtain ⟨tokens, lexed, whole, -⟩ := expr_of_readCode read
      exact .output lexed (isExpr_iff_derives.mp whole) ih
  | @code _ directive offset _ _ _ read _ ih =>
      obtain ⟨tokens, rest, lexed, found⟩ := tokens_of_readCode read
      refine .code lexed ?_ ih
      rw [Move.part, directive.part_shift]
      exact directs_of_readDirective found
  | comment code _ _ _ ih => exact .comment code ih

theorem Reads.exists_moves (reads : Reads (segments.map Segment.piece) parts) :
    ∃ moves, Moves segments moves ∧ moves.map Move.part = parts := by
  generalize same : segments.map Segment.piece = pieces at reads
  induction reads generalizing segments with
  | nil =>
      rw [List.map_eq_nil_iff.mp same]
      exact ⟨[], .nil, rfl⟩
  | text contents _ ih =>
      obtain ⟨segment, rest, rfl, isText, sameRest⟩ := List.map_eq_cons_iff.mp same
      obtain ⟨moves, found, rfl⟩ := ih sameRest
      cases segment with
      | tag => cases isText
      | text =>
          cases isText
          exact ⟨_, .text contents found, rfl⟩
  | output lexed value _ ih =>
      obtain ⟨segment, rest, rfl, isTag, sameRest⟩ := List.map_eq_cons_iff.mp same
      obtain ⟨moves, found, rfl⟩ := ih sameRest
      cases segment with
      | text => cases isTag
      | tag kind code offset span =>
          cases isTag
          have read := readCode_of_tokens lexed (isExpr_iff_derives.mpr value).readOutput
          exact ⟨_, .output offset span read found, rfl⟩
  | code lexed directs _ ih =>
      obtain ⟨segment, rest, rfl, isTag, sameRest⟩ := List.map_eq_cons_iff.mp same
      obtain ⟨moves, found, rfl⟩ := ih sameRest
      cases segment with
      | text => cases isTag
      | tag kind code offset span =>
          cases isTag
          obtain ⟨directive, read, rfl⟩ := directs.readDirective
          refine ⟨_, .code offset span (readCode_of_tokens lexed read) found, ?_⟩
          rw [List.map_cons, Move.part, directive.part_shift]
  | comment code _ ih =>
      obtain ⟨segment, rest, rfl, isTag, sameRest⟩ := List.map_eq_cons_iff.mp same
      obtain ⟨moves, found, rfl⟩ := ih sameRest
      cases segment with
      | text => cases isTag
      | tag kind code offset span =>
          cases isTag
          exact ⟨moves, .comment _ offset span found, rfl⟩

theorem foldl_step_of_moves (found : Moves segments moves) {assembly last : Assembly}
    (ran : assembly.run moves = .ok last) :
    segments.foldl Progress.step ⟨assembly, []⟩ = ⟨last, []⟩ := by
  induction found generalizing assembly with
  | nil =>
      cases ran
      rfl
  | text contents _ ih =>
      obtain ⟨next, moved, ran⟩ := Outcome.except_bind_eq_ok.mp ran
      cases moved
      exact ih ran
  | output offset span read _ ih =>
      obtain ⟨next, moved, ran⟩ := Outcome.except_bind_eq_ok.mp ran
      cases moved
      rw [List.foldl_cons, Progress.step, read]
      exact ih ran
  | code offset span read _ ih =>
      obtain ⟨next, moved, ran⟩ := Outcome.except_bind_eq_ok.mp ran
      have applied : assembly.apply _ span = .ok next := moved
      rw [List.foldl_cons, Progress.step, read]
      simp only [applied]
      exact ih ran
  | comment _ _ _ _ ih => exact ih ran

theorem errors_prefix_step (progress : Progress) (segment : Segment) :
    progress.errors <+: (progress.step segment).errors := by
  unfold Progress.step
  split
  · exact List.prefix_rfl
  · exact List.prefix_rfl
  · split
    · exact List.prefix_rfl
    · exact List.prefix_append _ _
  · split
    · exact List.prefix_append _ _
    · split
      · exact List.prefix_rfl
      · exact List.prefix_append _ _

theorem errors_prefix_foldl (progress : Progress) (segments : List Segment) :
    progress.errors <+: (segments.foldl Progress.step progress).errors := by
  induction segments generalizing progress with
  | nil => exact List.prefix_rfl
  | cons segment segments ih => exact (errors_prefix_step progress segment).trans (ih _)

theorem moves_of_foldl_step {assembly last : Assembly}
    (folds : segments.foldl Progress.step ⟨assembly, []⟩ = ⟨last, []⟩) :
    ∃ moves, Moves segments moves ∧ assembly.run moves = .ok last := by
  induction segments generalizing assembly with
  | nil =>
      cases folds
      exact ⟨[], .nil, rfl⟩
  | cons segment segments ih =>
      rw [List.foldl_cons] at folds
      have noError : (Progress.step ⟨assembly, []⟩ segment).errors = [] := by
        have kept := errors_prefix_foldl (Progress.step ⟨assembly, []⟩ segment) segments
        rw [folds] at kept
        exact List.prefix_nil.mp kept
      cases segment with
      | text contents =>
          obtain ⟨moves, found, ran⟩ := ih folds
          exact ⟨_, .text contents found, ran⟩
      | tag kind code offset span => cases kind with
        | comment =>
            obtain ⟨moves, found, ran⟩ := ih folds
            exact ⟨moves, .comment code offset span found, ran⟩
        | output =>
            rw [Progress.step] at folds noError
            cases read : readCode readOutput code with
            | error error => simp [read, Progress.fail] at noError
            | ok value =>
                rw [read] at folds
                obtain ⟨moves, found, ran⟩ := ih folds
                exact ⟨_, .output offset span read found, ran⟩
        | code =>
            rw [Progress.step] at folds noError
            cases read : readCode readDirective code with
            | error error => simp [read, Progress.fail] at noError
            | ok directive =>
                rw [read] at folds noError
                cases applied : assembly.apply (directive.shift offset) span with
                | error error => simp [applied, Progress.fail] at noError
                | ok next =>
                    simp only [applied] at folds
                    obtain ⟨moves, found, ran⟩ := ih folds
                    have moved : assembly.move (.tag (directive.shift offset) span) = .ok next :=
                      applied
                    exact ⟨_, .code offset span read found, (Assembly.run_cons moved).trans ran⟩

end

theorem finish_eq_ok_iff {progress : Progress} :
    progress.finish = .ok nodes ↔ progress = ⟨⟨[], nodes⟩, []⟩ := by
  obtain ⟨⟨blocks, last⟩, errors⟩ := progress
  unfold Progress.finish Assembly.finish
  cases errors with
  | cons error errors => simp
  | nil => cases blocks with
    | nil =>
        change Except.ok last = .ok nodes ↔ _
        simp
    | cons block blocks =>
        change Except.error _ = .ok nodes ↔ _
        simp

theorem parse_eq_ok_iff {source : String} :
    parse source = .ok nodes ↔ ∃ found moves, segments source.toList = .ok found ∧
      Moves found moves ∧ Assembly.empty.run moves = .ok ⟨[], nodes⟩ := by
  unfold parse
  cases split : segments source.toList with
  | error error => simp
  | ok found =>
      simp only [finish_eq_ok_iff, Except.ok.injEq]
      constructor
      · intro folds
        obtain ⟨moves, hasMoves, ran⟩ := moves_of_foldl_step folds
        exact ⟨found, moves, rfl, hasMoves, ran⟩
      · rintro ⟨_, moves, rfl, hasMoves, ran⟩
        exact foldl_step_of_moves hasMoves ran

/-- An accepted template has a layout, and its nodes unfold to what every layout of it says. -/
theorem unfolds_of_parse {source : String} (parsed : parse source = .ok nodes) :
    (∃ layout : Layout, layout.text = source.toList) ∧
      ∀ layout : Layout, layout.text = source.toList →
        ∃ parts, Reads layout.pieces parts ∧ Unfolds nodes parts := by
  obtain ⟨found, moves, split, hasMoves, ran⟩ := parse_eq_ok_iff.mp parsed
  obtain ⟨layout, laidOut, -⟩ := layout_of_segments split
  refine ⟨⟨layout, laidOut⟩, fun layout laidOut => ?_⟩
  obtain ⟨found', split', same⟩ := segments_layout layout
  rw [laidOut, split] at split'
  cases split'
  have reads := hasMoves.reads
  rw [same] at reads
  have whole := Built.run (.outermost .nil) ran
  cases whole with
  | outermost unfolds => exact ⟨_, reads, unfolds⟩

theorem parse_of_block {source : String} {layout : Layout} (laidOut : layout.text = source.toList)
    (reads : Reads layout.pieces parts) (block : Block parts) :
    ∃ nodes, parse source = .ok nodes := by
  obtain ⟨found, split, same⟩ := segments_layout layout
  rw [laidOut] at split
  rw [← same] at reads
  obtain ⟨moves, hasMoves, sameParts⟩ := reads.exists_moves
  obtain ⟨nodes, ran⟩ := block.addsNodes sameParts .empty
  exact ⟨_, parse_eq_ok_iff.mpr ⟨found, moves, split, hasMoves, ran⟩⟩

/-- A template is accepted just if it can be laid out into text and tags, every tag but the comments
says something, and the blocks are nested well. Its nodes then keep every part in its place. -/
theorem parse_iff_well_nested (source : String) :
    ((∃ nodes, parse source = .ok nodes) ↔
      ∃ layout : Layout, layout.text = source.toList ∧
        ∃ parts, Reads layout.pieces parts ∧ Block parts) ∧
    ∀ nodes, parse source = .ok nodes → ∀ layout : Layout, layout.text = source.toList →
      ∀ parts, Reads layout.pieces parts → Unfolds nodes parts := by
  refine ⟨⟨?_, ?_⟩, ?_⟩
  · rintro ⟨nodes, parsed⟩
    obtain ⟨⟨layout, laidOut⟩, unfolded⟩ := unfolds_of_parse parsed
    obtain ⟨parts, reads, unfolds⟩ := unfolded layout laidOut
    exact ⟨layout, laidOut, parts, reads, unfolds.block⟩
  · rintro ⟨layout, laidOut, parts, reads, block⟩
    exact parse_of_block laidOut reads block
  · intro nodes parsed layout laidOut parts reads
    obtain ⟨parts', readsToo, unfolds⟩ := (unfolds_of_parse parsed).2 layout laidOut
    rw [reads.unique readsToo]
    exact unfolds

end ThemeRender.Template
