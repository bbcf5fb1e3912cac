import ThemeRender.Proofs.Template.ErrorPlaces
import ThemeRender.Proofs.Template.Partition
import ThemeRender.Proofs.Template.RoundTrip
import ThemeRender.Proofs.Template.SameNodes

namespace ThemeRender.Template

open Text (StandsAt byteLength)

variable {offset : Nat} {s code : List Char} {first : Spanned Token}
  {lead tokens : List (Spanned Token)}

/-! Parts of a code -/

theorem Lexes.unshift {more : Nat} (lexes : Lexes (offset + more) s tokens) :
    ∃ moved, Lexes offset s moved ∧ tokens = shiftAll more moved := by
  generalize same : offset + more = place at lexes
  induction lexes generalizing offset with
  | nil => exact ⟨[], .nil offset, rfl⟩
  | @gap place c rest tokens gap _ ih =>
      obtain ⟨moved, lexes, rfl⟩ := @ih (offset + c.utf8Size) (by omega)
      exact ⟨moved, .gap gap lexes, rfl⟩
  | @token place c rest token tokens noGap found _ ih =>
      obtain ⟨moved, lexes, rfl⟩ := @ih (offset + byteLength (lexeme c rest).text) (by omega)
      refine ⟨_, .token noGap found lexes, ?_⟩
      subst same
      rw [shiftAll_cons, Spanned.shift, Span.shift, Nat.add_right_comm]

theorem Lexes.from_first (lexes : Lexes offset s (lead ++ first :: tokens)) :
    ∃ before rest, s = before ++ rest ∧ first.span.start = offset + byteLength before ∧
      Lexes (offset + byteLength before) rest (first :: tokens) := by
  generalize same : lead ++ first :: tokens = all at lexes
  induction lexes generalizing lead with
  | nil => simp at same
  | @gap offset c rest _ _ _ ih =>
      obtain ⟨before, after, rfl, start, lexes⟩ := ih same
      refine ⟨c :: before, after, rfl, ?_, ?_⟩
      · rw [start, Text.byteLength_cons, Nat.add_assoc]
      · rw [Text.byteLength_cons, ← Nat.add_assoc]
        exact lexes
  | @token offset c rest token _ noGap found lexes ih =>
      cases lead with
      | nil =>
          cases same
          exact ⟨[], c :: rest, rfl, rfl, .token noGap found lexes⟩
      | cons head lead =>
          obtain ⟨before, after, isRest, start, lexes⟩ := ih (List.cons.inj same).2
          refine ⟨(lexeme c rest).text ++ before, after, ?_, ?_, ?_⟩
          · rw [List.append_assoc, ← isRest, lexeme_text_append_rest]
          · rw [start, Text.byteLength_append, Nat.add_assoc]
          · rw [Text.byteLength_append, ← Nat.add_assoc]
            exact lexes

theorem spanOf_ends (more : tokens ≠ []) : ∃ first last, tokens.head? = some first ∧
    tokens.getLast? = some last ∧ spanOf tokens = ⟨first.span.start, last.span.stop⟩ := by
  obtain ⟨first, later, rfl⟩ := List.exists_cons_of_ne_nil more
  have isLast := List.getLast?_eq_some_getLast more
  refine ⟨first, _, rfl, isLast, ?_⟩
  rw [spanOf, isLast]
  rfl

theorem covers_spanOf (lexed : lex code = .ok (lead ++ tokens)) (more : tokens ≠ []) :
    ∃ text alone, (spanOf tokens).Covers code text ∧ text <:+: code ∧ text ≠ [] ∧
      lex text = .ok alone ∧ spanOf alone = ⟨0, byteLength text⟩ ∧ plain alone = plain tokens := by
  obtain ⟨first, last, isFirst, isLast, ends⟩ := spanOf_ends more
  obtain ⟨later, rfl⟩ := List.head?_eq_some_iff.mp isFirst
  obtain ⟨before, rest, rfl, start, lexes⟩ := (lexes_of_eq_ok lexed).from_first
  obtain ⟨text, after, rfl, lexes, -, -, stop⟩ := lexes.last isLast
  obtain ⟨alone, lexesAlone, same⟩ := lexes.unshift
  have some : alone ≠ [] := by
    rintro rfl
    cases same
  have span : spanOf (first :: later) = ⟨byteLength before, byteLength before + byteLength text⟩ := by
    rw [ends, start, stop, Nat.zero_add]
  refine ⟨text, alone, ?_, ?_, ?_, lexesAlone.eq_ok, ?_, ?_⟩
  · rw [span]
    exact ⟨⟨before, after, rfl, rfl⟩, rfl⟩
  · exact ⟨before, after, List.append_assoc _ _ _⟩
  · rintro rfl
    cases lexes
  · rw [same, spanOf_shiftAll _ some, Span.shift] at span
    generalize spanOf alone = place at span ⊢
    cases place
    simp only [Span.mk.injEq] at span ⊢
    omega
  · rw [same, plain_shiftAll]

/-! The code of a tag, in the place of its role -/

inductive Role where
  | output
  | eval
  | condition
  | items (name : String)

def Role.kind : Role → TagKind
  | .output => .output
  | .eval | .condition | .items _ => .code

def Role.words : Role → List Token
  | .output | .eval => []
  | .condition => [.keyword .ifKw]
  | .items name => [.keyword .forKw, .ident name, .keyword .inKw]

def Role.Reads (role : Role) (code : List Char) (value : Spanned Expr) : Prop :=
  ∃ lead tokens, lex code = .ok (lead ++ tokens) ∧ plain lead = role.words ∧
    IsExpr tokens value.node ∧ value.span = spanOf tokens

def Directive.places : Directive → List (Role × Spanned Expr)
  | .eval value => [(.eval, value)]
  | .ifBegin condition => [(.condition, condition)]
  | .forBegin name items => [(.items name, items)]
  | .elseBegin | .blockEnd => []

theorem Directive.places_shift (directive : Directive) (offset : Nat) :
    (directive.shift offset).places =
      directive.places.map fun place => (place.1, place.2.shift offset) := by
  cases directive <;> rfl

variable {role : Role} {value : Spanned Expr} {directive : Directive}

theorem reads_of_readOutput (read : readCode readOutput code = .ok value) :
    Role.output.Reads code value := by
  obtain ⟨tokens, lexed, whole, same⟩ := expr_of_readCode read
  exact ⟨[], tokens, lexed, rfl, whole, congrArg Spanned.span same⟩

theorem reads_of_readDirective (read : readCode readDirective code = .ok directive) :
    ∀ place ∈ directive.places, place.1.kind = .code ∧ place.1.Reads code place.2 := by
  obtain ⟨tokens, rest, lexed, found⟩ := tokens_of_readCode read
  have directs := directs_of_readDirective found
  generalize same : plain tokens = row at directs
  intro place member
  -- the grammar divides the tokens; that the span is theirs is read off the reader, which finds one
  -- directive only
  cases directive with
  | elseBegin | blockEnd => cases member
  | eval value =>
      obtain ⟨e, span⟩ := value
      obtain rfl := List.mem_singleton.mp member
      cases directs with
      | eval derives =>
          subst same
          have whole : IsExpr tokens e := isExpr_iff_derives.mpr derives
          rw [whole.readDirective] at found
          cases found
          exact ⟨rfl, [], tokens, lexed, rfl, whole, rfl⟩
  | ifBegin condition =>
      obtain ⟨e, span⟩ := condition
      obtain rfl := List.mem_singleton.mp member
      cases directs with
      | ifBegin derives =>
          obtain ⟨_, tokens, rfl, rfl⟩ := of_plain_cons same
          have whole : IsExpr tokens e := isExpr_iff_derives.mpr derives
          rw [whole.readDirective_if] at found
          cases found
          exact ⟨rfl, [_], tokens, lexed, rfl, whole, rfl⟩
  | forBegin name items =>
      obtain ⟨e, span⟩ := items
      obtain rfl := List.mem_singleton.mp member
      cases directs with
      | forBegin _ derives =>
          obtain ⟨_, _, rfl, afterFor⟩ := of_plain_cons same
          obtain ⟨_, _, rfl, afterName⟩ := of_plain_cons afterFor
          obtain ⟨_, tokens, rfl, rfl⟩ := of_plain_cons afterName
          have whole : IsExpr tokens e := isExpr_iff_derives.mpr derives
          rw [whole.readDirective_for] at found
          cases found
          exact ⟨rfl, [_, _, _], tokens, lexed, rfl, whole, rfl⟩

/-! The expressions of a template -/

mutual

def Node.places : Node → List (Role × Spanned Expr)
  | .text _ => []
  | .output value => [(.output, value)]
  | .eval value => [(.eval, value)]
  | .branch condition yes no =>
      (.condition, condition) :: (Node.allPlaces yes ++ Node.allPlaces no)
  | .each name items body => (.items name, items) :: Node.allPlaces body

def Node.allPlaces : List Node → List (Role × Spanned Expr)
  | [] => []
  | node :: rest => node.places ++ Node.allPlaces rest

end

theorem Node.allPlaces_append (nodes more : List Node) :
    Node.allPlaces (nodes ++ more) = Node.allPlaces nodes ++ Node.allPlaces more := by
  induction nodes with
  | nil => rfl
  | cons node nodes ih => rw [List.cons_append, allPlaces, allPlaces, ih, List.append_assoc]

theorem Node.allPlaces_singleton (node : Node) : Node.allPlaces [node] = node.places :=
  List.append_nil _

def Opening.places : Opening → List (Role × Spanned Expr)
  | .branch condition none => [(.condition, condition)]
  | .branch condition (some yes) => (.condition, condition) :: Node.allPlaces yes
  | .each name items => [(.items name, items)]

theorem Opening.places_close (opening : Opening) (nodes : List Node) :
    (opening.close nodes).places = opening.places ++ Node.allPlaces nodes := by
  cases opening with
  | branch condition yes? => cases yes? with
    | none =>
        change (_, condition) :: (Node.allPlaces nodes ++ []) = _
        rw [List.append_nil]
        rfl
    | some yes => rfl
  | each name items => rfl

def OpenBlock.places (block : OpenBlock) : List (Role × Spanned Expr) :=
  Node.allPlaces block.before ++ block.opening.places

def Assembly.places (assembly : Assembly) : List (Role × Spanned Expr) :=
  assembly.blocks.reverse.flatMap OpenBlock.places ++ Node.allPlaces assembly.nodes

def Move.places : Move → List (Role × Spanned Expr)
  | .text _ => []
  | .output value => [(.output, value)]
  | .tag directive _ => directive.places

theorem Assembly.places_push (assembly : Assembly) (node : Node) :
    (assembly.push node).places = assembly.places ++ node.places := by
  rw [places, push, Node.allPlaces_append, Node.allPlaces_singleton, ← List.append_assoc]
  rfl

theorem Assembly.places_openBlock (assembly : Assembly) (opening : Opening) (span : Span) :
    (assembly.openBlock opening span).places = assembly.places ++ opening.places := by
  simp [places, openBlock, OpenBlock.places, Node.allPlaces]

theorem Assembly.places_apply {assembly next : Assembly} {span : Span}
    (applied : assembly.apply directive span = .ok next) :
    next.places = assembly.places ++ directive.places := by
  obtain ⟨blocks, nodes⟩ := assembly
  cases directive with
  | eval value =>
      cases applied
      exact places_push _ _
  | ifBegin condition =>
      cases applied
      exact places_openBlock _ _ _
  | forBegin name items =>
      cases applied
      exact places_openBlock _ _ _
  | elseBegin =>
      unfold apply at applied
      dsimp only at applied
      split at applied
      · cases applied
        simp [places, OpenBlock.places, Opening.places, Directive.places, Node.allPlaces]
      · cases applied
      · cases applied
  | blockEnd =>
      cases blocks with
      | nil => cases applied
      | cons block blocks =>
          cases applied
          simp [places, OpenBlock.places, Directive.places, Node.allPlaces_append,
            Node.allPlaces_singleton, Opening.places_close]

theorem Assembly.places_move {assembly next : Assembly} {move : Move}
    (moved : assembly.move move = .ok next) : next.places = assembly.places ++ move.places := by
  cases move with
  | text contents =>
      cases moved
      exact places_push _ _
  | output value =>
      cases moved
      exact places_push _ _
  | tag directive span => exact places_apply moved

theorem Assembly.places_run {assembly last : Assembly} {moves : List Move}
    (ran : assembly.run moves = .ok last) :
    last.places = assembly.places ++ moves.flatMap Move.places := by
  induction moves generalizing assembly with
  | nil =>
      cases ran
      exact (List.append_nil _).symm
  | cons move moves ih =>
      obtain ⟨next, moved, ran⟩ := Outcome.except_bind_eq_ok.mp ran
      rw [ih ran, places_move moved, List.append_assoc]
      rfl

def IsReadFrom (segments : List Segment) (place : Role × Spanned Expr) : Prop :=
  ∃ code offset span value, .tag place.1.kind code offset span ∈ segments ∧
    place.1.Reads code value ∧ place.2 = value.shift offset

theorem IsReadFrom.cons {segments : List Segment} {place : Role × Spanned Expr}
    (isRead : IsReadFrom segments place) (segment : Segment) :
    IsReadFrom (segment :: segments) place := by
  obtain ⟨code, offset, span, value, tag, found⟩ := isRead
  exact ⟨code, offset, span, value, List.mem_cons_of_mem _ tag, found⟩

theorem Moves.isReadFrom {segments : List Segment} {moves : List Move}
    (hasMoves : Moves segments moves) :
    ∀ place ∈ moves.flatMap Move.places, IsReadFrom segments place := by
  induction hasMoves with
  | nil => simp
  | text contents _ ih => exact fun place member => (ih place member).cons _
  | comment code offset span _ ih => exact fun place member => (ih place member).cons _
  | @output code value offset span _ _ read _ ih =>
      refine List.forall_mem_cons.mpr ⟨?_, fun place member => (ih place member).cons _⟩
      exact ⟨code, offset, span, value, List.mem_cons_self, reads_of_readOutput read, rfl⟩
  | @code code directive offset span _ _ read _ ih =>
      refine List.forall_mem_append.mpr ⟨?_, fun place member => (ih place member).cons _⟩
      change ∀ place ∈ (directive.shift offset).places, _
      rw [directive.places_shift, List.forall_mem_map]
      intro place member
      obtain ⟨isCode, reads⟩ := reads_of_readDirective read place member
      refine ⟨code, offset, span, place.2, ?_, reads, rfl⟩
      dsimp only
      rw [isCode]
      exact List.mem_cons_self

/-! The text of an expression alone -/

theorem Layout.tag_not_mem_textPiece (contents : List Char) (kind : TagKind) :
    .tag kind code ∉ Layout.textPiece contents := by
  unfold textPiece
  split
  · simp
  · simp

theorem Layout.lacks_of_mem {layout : Layout} {kind : TagKind} {done : List Char} {taken : Nat}
    (member : .tag kind code ∈ layout.piecesAfter done taken) : Text.Lacks tagClose code := by
  induction layout generalizing done taken with
  | last run => exact absurd member (tag_not_mem_textPiece _ kind)
  | cons run tag rest ih =>
      have among {contents done : List Char} {taken : Nat}
          (member : .tag kind code ∈ textPiece contents ++ .tag tag.kind tag.code ::
            rest.piecesAfter done taken) : Text.Lacks tagClose code := by
        rcases List.mem_append.mp member with inText | inRest
        · exact absurd inText (tag_not_mem_textPiece contents kind)
        · rcases List.mem_cons.mp inRest with here | later
          · cases here
            exact tag.closed
          · exact ih later
      unfold piecesAfter at member
      dsimp only at member
      split at member
      · exact among member
      · exact among member

theorem lacks_of_segments {found : List Segment} {kind : TagKind} {span : Span}
    (split : segments s = .ok found) (tag : .tag kind code offset span ∈ found) :
    Text.Lacks tagClose code := by
  obtain ⟨layout, -, same⟩ := layout_of_segments split
  have member := List.mem_map_of_mem (f := Segment.piece) tag
  rw [same] at member
  exact Layout.lacks_of_mem member

/-- The expression is in a tag of the template, where its role has it: after the words of the role its
`tokens` fill the code. Its span starts with the first of them and ends with the last, and the
`text` that it covers is read as the same expression in a tag of its own. -/
structure ExprAt (source : String) (role : Role) (value : Spanned Expr) (code : List Char)
    (offset : Nat) (tokens : List (Spanned Token)) (text : List Char) : Prop where
  tag : ∃ found span, segments source.toList = .ok found ∧
    .tag role.kind code offset span ∈ found
  stands : StandsAt source.toList code offset
  lexed : ∃ lead, lex code = .ok (lead ++ tokens) ∧ plain lead = role.words
  derives : Derives (.expr .disjunction value.node) (plain tokens)
  ends : ∃ first last, tokens.head? = some first ∧ tokens.getLast? = some last ∧
    value.span = ⟨first.span.start + offset, last.span.stop + offset⟩
  nonempty : value.span.start < value.span.stop
  inside : offset ≤ value.span.start ∧ value.span.stop ≤ offset + byteLength code
  covers : value.span.Covers source.toList text
  alone : parse (String.ofList ("<%=".toList ++ (text ++ "%>".toList))) =
    .ok [.output ⟨value.node, ⟨3, 3 + byteLength text⟩⟩]

theorem IsReadFrom.exprAt {source : String} {found : List Segment}
    (split : segments source.toList = .ok found) (isRead : IsReadFrom found (role, value)) :
    ∃ code offset tokens text, ExprAt source role value code offset tokens text := by
  obtain ⟨code, offset, tagSpan, inCode, tag, reads, rfl⟩ := isRead
  obtain ⟨lead, tokens, lexed, words, whole, span⟩ := reads
  obtain ⟨stands, -⟩ := placed_of_segmentsFrom split (.whole source.toList) _ tag
  obtain ⟨text, alone, covers, part, some, lexedAlone, spanAlone, same⟩ :=
    covers_spanOf lexed whole.ne_nil
  rw [← span] at covers
  have derives := isExpr_iff_derives.mp whole
  have wholeAlone : IsExpr alone inCode.node := isExpr_iff_derives.mpr (same ▸ derives)
  have readAlone := readCode_of_tokens lexedAlone wholeAlone.readOutput
  have lacks := Text.Lacks.of_infix (lacks_of_segments split tag) part
  refine ⟨code, offset, tokens, text, ?_⟩
  constructor
  case tag => exact ⟨found, tagSpan, split, tag⟩
  case stands => exact stands
  case lexed => exact ⟨lead, lexed, words⟩
  case derives => exact derives
  case ends =>
    obtain ⟨first, last, isFirst, isLast, ends⟩ := spanOf_ends whole.ne_nil
    exact ⟨first, last, isFirst, isLast, congrArg (Span.shift offset) (span.trans ends)⟩
  case nonempty =>
    rw [Spanned.shift, Span.shift, covers.stop]
    have positive := Text.byteLength_pos some
    dsimp only
    omega
  case inside =>
    have stop := covers.stop_le
    rw [Spanned.shift, Span.shift]
    dsimp only
    omega
  case covers => exact covers.shift stands
  case alone =>
    rw [parse_outputTag lacks readAlone, spanAlone, Spanned.shift, Span.shift, Nat.zero_add,
      Nat.add_comm 3]
    rfl

/-- The span of every expression of an accepted template is just that of its tokens in its tag: it is
not empty, lies in the code of the tag and goes from the first token of the expression to the last.
What it covers is read as the same expression in an output tag. -/
theorem spans_are_exact {source : String} {nodes : List Node} (parsed : parse source = .ok nodes) :
    ∀ place ∈ Node.allPlaces nodes, ∃ code offset tokens text,
      ExprAt source place.1 place.2 code offset tokens text := by
  obtain ⟨found, moves, split, hasMoves, ran⟩ := parse_eq_ok_iff.mp parsed
  have kept := Assembly.places_run ran
  have same : Node.allPlaces nodes = moves.flatMap Move.places := kept
  intro place member
  rw [same] at member
  exact (hasMoves.isReadFrom place member).exprAt split

theorem title_span_is_exact :
    let source := "é\n<% for post in posts %>\n<%= post.title %><% end %>"
    let posts : Role × Spanned Expr := (.items "post", ⟨.path ["posts"], ⟨18, 23⟩⟩)
    let title : Role × Spanned Expr := (.output, ⟨.path ["post", "title"], ⟨31, 41⟩⟩)
    ∃ nodes, parse source = .ok nodes ∧ Node.allPlaces nodes = [posts, title] ∧
      (∃ code offset tokens text, ExprAt source posts.1 posts.2 code offset tokens text) ∧
      ∃ code offset tokens text, ExprAt source title.1 title.2 code offset tokens text := by
  intro source posts title
  have parsed : parse source = .ok [.text "é\n", .each "post" posts.2 [.output title.2]] :=
    parse_of_areSame (by decide +kernel)
  have exact := spans_are_exact parsed
  refine ⟨_, parsed, rfl, exact posts ?_, exact title ?_⟩
  · exact List.mem_cons_self
  · exact List.mem_cons_of_mem _ List.mem_cons_self

end ThemeRender.Template
