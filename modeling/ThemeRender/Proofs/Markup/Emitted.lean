import ThemeRender.Proofs.Markup.Elements
import ThemeRender.Proofs.Outcome

namespace ThemeRender.Markup

open Template

/-- A construct whose texts hold no tag and whose codes can be put into tags. -/
structure Construct.Fits (construct : Construct) : Prop where
  onLine : construct.OnLine
  clean : ∀ literal ∈ construct.literals, Text.Lacks tagOpen literal
  embed : ∀ code ∈ construct.codes, Embeds readOutput code
  bind : ∀ binding ∈ construct.bindings, Embeds readBinding binding

/-- The text takes as many lines as the items and renders as they run. -/
structure Emits (text : List Char) (height : Nat) (action : Action) : Prop where
  height : text.count '\n' = height
  renders : Renders text action

theorem Emits.line {pieces : List Piece} (sound : Sound pieces) (depth : Nat) :
    Emits (lineAt depth (templateOfPieces pieces)) 1
      (fun _ host scope line => runLine host scope depth line pieces) where
  height := count_lineAt (flat_templateOfPieces sound.fit) depth
  renders := Renders.line sound.fit sound.clean depth

theorem Emits.append {s t : List Char} {height heightAfter : Nat} {first second : Action}
    (emits : Emits s height first) (emitsAfter : Emits t heightAfter second) :
    Emits (s ++ t) (height + heightAfter) (fun σ host scope line => do
      first σ host scope line
      second σ host scope (line + height)) where
  height := by rw [List.count_append, emits.height, emitsAfter.height]
  renders := by
    have both := emits.renders.append emitsAfter.renders
    rw [emits.height] at both
    exact both

theorem Emits.congr {s : List Char} {height other : Nat} {action sameAction : Action}
    (emits : Emits s height action) (sameHeight : height = other)
    (same : ∀ σ host scope line, action σ host scope line = sameAction σ host scope line) :
    Emits s other sameAction where
  height := emits.height.trans sameHeight
  renders := emits.renders.congr same

theorem Emits.between {first last : List Piece} {body : List Char} {height : Nat} {action : Action}
    (soundFirst : Sound first) (emits : Emits body height action) (soundLast : Sound last)
    (depth : Nat) :
    Emits (lineAt depth (templateOfPieces first) ++ body ++ lineAt depth (templateOfPieces last))
      (height + 2) (fun σ host scope line => do
        runLine host scope depth line first
        action σ host scope (line + 1)
        runLine host scope depth (line + 1 + height) last) := by
  apply (((Emits.line soundFirst depth).append emits).append (Emits.line soundLast depth)).congr
  · omega
  · intro σ host scope line
    simp only [bind_assoc, Nat.add_assoc]

/-! The template of an element -/

theorem Element.template_openPieces (element : Element) :
    templateOfPieces element.openPieces = openTag element := by
  simp only [Element.openPieces, openTag, templateOfPieces_append, templateOfPieces_cons,
    templateOfPieces_nil, Element.template_headPieces, Piece.template]
  rfl

theorem Element.template_closePieces (element : Element) :
    templateOfPieces element.closePieces = closeTag element :=
  List.append_nil _

theorem Inline.template_pieces (inline : Inline) :
    templateOfPieces inline.pieces = inline.template?.getD [] := by
  cases inline with
  | none => rfl
  | text pieces => rfl
  | output code => exact List.append_nil _

theorem Element.template_linePieces (element : Element) :
    templateOfPieces element.linePieces =
      if element.isVoid then voidTag element
      else openTag element ++ element.inline.template?.getD [] ++ closeTag element := by
  unfold Element.linePieces
  split
  · simp only [voidTag, templateOfPieces_append, templateOfPieces_cons, templateOfPieces_nil,
      Element.template_headPieces, Piece.template]
    simp
  · simp only [templateOfPieces_append, Element.template_openPieces, Inline.template_pieces,
      Element.template_closePieces]

/-! What is emitted -/

section

variable {depth : Nat} {text : List Char} {line : Nat} {span : Span} {nested : List Item}

theorem emits_elementLine {element : Element} (fits : element.Fits) (empty : nested.isEmpty = true)
    (otherwise : Action) :
    Emits (lineAt depth (templateOfPieces element.linePieces))
      (Item.height (.mk (.element element) line span nested)) (fun σ host scope start =>
        runItem host scope depth start (otherwise σ host scope start)
          (.mk (.element element) line span nested)) := by
  apply (Emits.line fits.line depth).congr
  · rw [Item.height, if_pos empty]
  · intro σ host scope start
    rw [runItem, if_pos empty]

theorem emits_element {element : Element} (fits : element.Fits)
    (emitted : emitItem depth (.mk (.element element) line span nested) = .ok text)
    (emitsNested : ∀ body, emitItems (depth + 1) false nested = .ok body →
      Emits body (heights nested) (fun _ host scope start =>
        runItems host scope (depth + 1) start nested)) (otherwise : Action) :
    Emits text (Item.height (.mk (.element element) line span nested)) (fun σ host scope start =>
      runItem host scope depth start (otherwise σ host scope start)
        (.mk (.element element) line span nested)) := by
  have template := element.template_linePieces
  simp only [emitItem] at emitted
  split at emitted
  · rename_i void
    rw [if_pos void] at template
    split at emitted
    · rename_i both
      rw [Bool.and_eq_true] at both
      cases emitted
      rw [← template]
      exact emits_elementLine fits both.2 otherwise
    · cases emitted
  · rename_i notVoid
    rw [if_neg notVoid] at template
    split at emitted
    · cases emitted
    · rename_i content inline empty
      cases emitted
      rw [inline, Option.getD_some] at template
      rw [← template]
      exact emits_elementLine fits empty otherwise
    · rename_i inline empty
      cases emitted
      rw [inline, Option.getD_none, List.append_nil] at template
      rw [← template]
      exact emits_elementLine fits empty otherwise
    · rename_i inline some
      obtain ⟨body, emittedBody, same⟩ := Outcome.except_bind_eq_ok.mp emitted
      cases same
      have between := Emits.between fits.opening.toSound (emitsNested body emittedBody)
        fits.closing.toSound depth
      rw [Element.template_openPieces, Element.template_closePieces] at between
      apply between.congr
      · rw [Item.height, if_neg (by simp [some])]
      · intro σ host scope start
        rw [runItem, if_neg (by simp [some])]

theorem emits_comment {words : List Char} (flat : Text.Flat words)
    (clean : Text.Lacks tagOpen words)
    (emitted : emitItem depth (.mk (.comment words) line span nested) = .ok text)
    (emitsNested : ∀ body, emitItems (depth + 1) false nested = .ok body →
      Emits body (heights nested) (fun _ host scope start =>
        runItems host scope (depth + 1) start nested)) (otherwise : Action) :
    Emits text (Item.height (.mk (.comment words) line span nested)) (fun σ host scope start =>
      runItem host scope depth start (otherwise σ host scope start)
        (.mk (.comment words) line span nested)) := by
  simp only [emitItem] at emitted
  split at emitted
  · rename_i empty
    cases emitted
    have whole : Sound [.text ("<!-- ".toList ++ words ++ " -->".toList)] := by
      apply sound_text
      · exact (Text.Flat.append (by decide) flat).append (by decide)
      · apply Text.Lacks.append _ (by decide) (.inr (by decide))
        exact Text.Lacks.append (by decide) clean (.inl (by decide))
    have template : templateOfPieces [.text ("<!-- ".toList ++ words ++ " -->".toList)] =
        "<!-- ".toList ++ words ++ " -->".toList := List.append_nil _
    rw [← template]
    apply (Emits.line whole depth).congr
    · rw [Item.height, if_pos empty]
    · intro σ host scope start
      rw [runItem, if_pos empty]
  · rename_i some
    obtain ⟨body, emittedBody, same⟩ := Outcome.except_bind_eq_ok.mp emitted
    cases same
    have opening : Sound [.text "<!--".toList] := sound_text (by decide) (by decide)
    have closing : Sound [.text "-->".toList] := sound_text (by decide) (by decide)
    apply (Emits.between opening (emitsNested body emittedBody) closing depth).congr
    · rw [Item.height, if_neg some]
    · intro σ host scope start
      rw [runItem, if_neg some]

theorem emits_for {binding : List Char} (embeds : Embeds readBinding binding)
    (emitted : emitItem depth (.mk (.control (.forBegin binding)) line span nested) = .ok text)
    (emitsNested : ∀ body, emitItems depth false nested = .ok body →
      Emits body (heights nested) (fun _ host scope start =>
        runItems host scope depth start nested)) (otherwise : Action) :
    Emits text (Item.height (.mk (.control (.forBegin binding)) line span nested))
      (fun σ host scope start =>
        runItem host scope depth start (otherwise σ host scope start)
          (.mk (.control (.forBegin binding)) line span nested)) := by
  simp only [emitItem] at emitted
  obtain ⟨body, emittedBody, same⟩ := Outcome.except_bind_eq_ok.mp emitted
  cases same
  have emitsBody := emitsNested body emittedBody
  constructor
  · have opens := count_codeLine embeds.after_for.2 depth
    have closes : (lineAt depth endTag).count '\n' = 1 := count_codeLine (by decide) depth
    rw [List.count_append, List.count_append, opens, closes, emitsBody.height, Item.height]
    omega
  · apply (Renders.each embeds emitsBody.renders depth).congr
    intro σ host scope start
    rw [runItem]

theorem emits_when {condition : List Char} (embeds : Embeds readOutput condition)
    (emitted : emitItem depth (.mk (.control (.ifBegin condition)) line span nested) = .ok text)
    (emitsNested : ∀ body, emitItems depth false nested = .ok body →
      Emits body (heights nested) (fun _ host scope start =>
        runItems host scope depth start nested)) :
    Emits (text ++ lineAt depth endTag)
      (Item.height (.mk (.control (.ifBegin condition)) line span nested) + 1)
      (fun _ host scope start =>
        runItem host scope depth start (return)
          (.mk (.control (.ifBegin condition)) line span nested)) := by
  simp only [emitItem] at emitted
  obtain ⟨body, emittedBody, same⟩ := Outcome.except_bind_eq_ok.mp emitted
  cases same
  have emitsBody := emitsNested body emittedBody
  constructor
  · have opens := count_codeLine embeds.after_if.2 depth
    have closes : (lineAt depth endTag).count '\n' = 1 := count_codeLine (by decide) depth
    rw [List.count_append, List.count_append, opens, closes, emitsBody.height, Item.height]
    omega
  · apply (Renders.when embeds emitsBody.renders depth).congr
    intro σ host scope start
    rw [runItem]

theorem emits_branch {condition elseText : List Char} {elseLine : Nat} {elseSpan : Span}
    {elseNested : List Item} (embeds : Embeds readOutput condition)
    (emitted : emitItem depth (.mk (.control (.ifBegin condition)) line span nested) = .ok text)
    (emittedElse : emitItem depth (.mk (.control .elseBegin) elseLine elseSpan elseNested) =
      .ok elseText)
    (emitsNested : ∀ body, emitItems depth false nested = .ok body →
      Emits body (heights nested) (fun _ host scope start =>
        runItems host scope depth start nested))
    (emitsElse : ∀ body, emitItems depth false elseNested = .ok body →
      Emits body (heights elseNested) (fun _ host scope start =>
        runItems host scope depth start elseNested)) :
    Emits (text ++ elseText)
      (Item.height (.mk (.control (.ifBegin condition)) line span nested) +
        Item.height (.mk (.control .elseBegin) elseLine elseSpan elseNested))
      (fun _ host scope start =>
        runItem host scope depth start
          (runItems host scope depth
            (start + Item.height (.mk (.control (.ifBegin condition)) line span nested) + 1)
            elseNested)
          (.mk (.control (.ifBegin condition)) line span nested)) := by
  simp only [emitItem] at emitted emittedElse
  obtain ⟨body, emittedBody, same⟩ := Outcome.except_bind_eq_ok.mp emitted
  cases same
  obtain ⟨elseBody, emittedElseBody, same⟩ := Outcome.except_bind_eq_ok.mp emittedElse
  cases same
  have emitsBody := emitsNested body emittedBody
  have emitsElseBody := emitsElse elseBody emittedElseBody
  constructor
  · have opens := count_codeLine embeds.after_if.2 depth
    have turns : (lineAt depth (codeTag "else".toList)).count '\n' = 1 :=
      count_codeLine (by decide) depth
    have closes : (lineAt depth endTag).count '\n' = 1 := count_codeLine (by decide) depth
    simp only [List.count_append, opens, turns, closes, emitsBody.height, emitsElseBody.height,
      Item.height]
    omega
  · apply (Renders.branch embeds emitsBody.renders emitsElseBody.renders depth).congr
    intro σ host scope start
    rw [runItem, emitsBody.height, Item.height]
    simp only [Nat.add_assoc, Nat.add_comm 1]

theorem emits_doctype {words : List Char} (flat : Text.Flat words)
    (clean : Text.Lacks tagOpen words) (otherwise : Action) :
    Emits (lineAt depth ("<!DOCTYPE ".toList ++ words ++ ['>']))
      (Item.height (.mk (.doctype words) line span nested)) (fun σ host scope start =>
        runItem host scope depth start (otherwise σ host scope start)
          (.mk (.doctype words) line span nested)) := by
  have whole : Sound [.text ("<!DOCTYPE ".toList ++ words ++ ['>'])] := by
    apply sound_text
    · exact (Text.Flat.append (by decide) flat).append (by decide)
    · apply Text.Lacks.append _ (by decide) (.inr (by decide))
      exact (Text.lacks_of_not_mem_right (by decide)).append clean (.inl (by decide))
  have template : templateOfPieces [.text ("<!DOCTYPE ".toList ++ words ++ ['>'])] =
      "<!DOCTYPE ".toList ++ words ++ ['>'] := List.append_nil _
  rw [← template]
  apply (Emits.line whole depth).congr
  · rw [Item.height]
  · intro σ host scope start
    rw [runItem]

end

/-! Trees -/

theorem count_lines {lines : List (List Char)} (flat : ∀ text ∈ lines, Text.Flat text)
    (depth : Nat) : (lines.flatMap (lineAt depth)).count '\n' = lines.length := by
  induction lines with
  | nil => rfl
  | cons text rest ih =>
      rw [List.flatMap_cons, List.count_append, count_lineAt (flat text List.mem_cons_self),
        ih fun text member => flat text (List.mem_cons_of_mem _ member), List.length_cons]
      omega

theorem Construct.Fits.element {element : Element} (fits : Construct.Fits (.element element)) :
    element.Fits :=
  ⟨fits.onLine, fits.clean, fits.embed⟩

theorem of_requireLeaf {item : Item} {what : String} {s text : List Char}
    (emitted : (do item.requireLeaf what; return s) = (.ok text : Except Complaint (List Char))) :
    text = s := by
  obtain ⟨_, _, same⟩ := Outcome.except_bind_eq_ok.mp emitted
  cases same
  rfl

theorem of_isIf {construct : Construct} {line : Nat} {span : Span} {nested : List Item}
    (isIf : Item.isIf (.mk construct line span nested) = true) :
    ∃ condition, construct = .control (.ifBegin condition) := by
  cases construct with
  | control control => cases control with
    | ifBegin condition => exact ⟨condition, rfl⟩
    | _ => cases isIf
  | _ => cases isIf

theorem of_isElse {construct : Construct} {line : Nat} {span : Span} {nested : List Item}
    (isElse : Item.isElse (.mk construct line span nested) = true) :
    construct = .control .elseBegin := by
  cases construct with
  | control control => cases control with
    | elseBegin => rfl
    | _ => cases isElse
  | _ => cases isElse

theorem runItem_of_not_isIf {σ : Type} {host : Host σ} {scope : Scope} {depth start : Nat}
    {item : Item} (notIf : item.isIf = false) (otherwise other : Render σ Unit) :
    runItem host scope depth start otherwise item = runItem host scope depth start other item := by
  obtain ⟨construct, line, span, nested⟩ := item
  cases construct with
  | control control => cases control with
    | ifBegin condition => cases notIf
    | _ => rw [runItem, runItem]
  | _ => rw [runItem, runItem]

theorem runItems_cons {σ : Type} (host : Host σ) (scope : Scope) (depth start : Nat) (item : Item)
    (rest : List Item) :
    ∃ otherwise, runItems host scope depth start (item :: rest) = (do
      runItem host scope depth start otherwise item
      runItems host scope depth (start + item.height + item.endHeight rest) rest) := by
  rw [runItems.eq_def]
  exact ⟨_, rfl⟩

theorem runItems_without_else {σ : Type} {rest : List Item} (alone : startsElse rest = false)
    (host : Host σ) (scope : Scope) (depth start : Nat) (item : Item) :
    runItems host scope depth start (item :: rest) = (do
      runItem host scope depth start (pure ()) item
      runItems host scope depth (start + item.height + item.endHeight rest) rest) := by
  rw [runItems.eq_def]
  cases rest with
  | nil => rfl
  | cons next more =>
      obtain ⟨construct, line, span, nested⟩ := next
      cases construct with
      | control control => cases control with
        | elseBegin => cases alone
        | _ => rfl
      | _ => rfl

theorem runItems_with_else {σ : Type} (host : Host σ) (scope : Scope) (depth start : Nat)
    (item : Item) (line : Nat) (span : Span) (nested rest : List Item) :
    runItems host scope depth start
        (item :: .mk (.control .elseBegin) line span nested :: rest) = (do
      runItem host scope depth start
        (runItems host scope depth (start + item.height + 1) nested) item
      runItems host scope depth
        (start + (item.height + Item.height (.mk (.control .elseBegin) line span nested)))
        rest) := by
  have noEnd : item.endHeight (.mk (.control .elseBegin) line span nested :: rest) = 0 := by
    unfold Item.endHeight
    rw [show startsElse (.mk (.control .elseBegin) line span nested :: rest) = true from rfl]
    simp
  obtain ⟨otherwise, runsElse⟩ := runItems_cons host scope depth (start + item.height)
    (.mk (.control .elseBegin) line span nested) rest
  rw [runItem, pure_bind] at runsElse
  have noElseEnd : Item.endHeight (.mk (.control .elseBegin) line span nested) rest = 0 := rfl
  rw [runItems.eq_def]
  simp only [noEnd, Nat.add_zero, runsElse, noElseEnd, Nat.add_assoc]

theorem emits_items_when {depth : Nat} {condition first more : List Char} {line : Nat} {span : Span}
    {nested rest : List Item} (embeds : Embeds readOutput condition)
    (alone : startsElse rest = false)
    (emitted : emitItem depth (.mk (.control (.ifBegin condition)) line span nested) = .ok first)
    (emitsNested : ∀ body, emitItems depth false nested = .ok body →
      Emits body (heights nested) (fun _ host scope start =>
        runItems host scope depth start nested))
    (emitsRest : Emits more (heights rest) (fun _ host scope start =>
      runItems host scope depth start rest)) :
    Emits (first ++ lineAt depth endTag ++ more)
      (heights (.mk (.control (.ifBegin condition)) line span nested :: rest))
      (fun _ host scope start => runItems host scope depth start
        (.mk (.control (.ifBegin condition)) line span nested :: rest)) := by
  have oneEnd : Item.endHeight (.mk (.control (.ifBegin condition)) line span nested) rest = 1 := by
    unfold Item.endHeight
    rw [alone]
    rfl
  apply ((emits_when embeds emitted emitsNested).append emitsRest).congr
  · rw [heights, oneEnd]
  · intro σ host scope start
    rw [runItems_without_else alone, oneEnd, Nat.add_assoc]

theorem emits_items_branch {depth : Nat} {condition first second more : List Char}
    {line elseLine : Nat} {span elseSpan : Span} {nested elseNested rest : List Item}
    (embeds : Embeds readOutput condition)
    (emitted : emitItem depth (.mk (.control (.ifBegin condition)) line span nested) = .ok first)
    (emittedElse : emitItem depth (.mk (.control .elseBegin) elseLine elseSpan elseNested) =
      .ok second)
    (emitsNested : ∀ body, emitItems depth false nested = .ok body →
      Emits body (heights nested) (fun _ host scope start =>
        runItems host scope depth start nested))
    (emitsElse : ∀ body, emitItems depth false elseNested = .ok body →
      Emits body (heights elseNested) (fun _ host scope start =>
        runItems host scope depth start elseNested))
    (emitsRest : Emits more (heights rest) (fun _ host scope start =>
      runItems host scope depth start rest)) :
    Emits (first ++ second ++ more)
      (heights (.mk (.control (.ifBegin condition)) line span nested ::
        .mk (.control .elseBegin) elseLine elseSpan elseNested :: rest))
      (fun _ host scope start => runItems host scope depth start
        (.mk (.control (.ifBegin condition)) line span nested ::
          .mk (.control .elseBegin) elseLine elseSpan elseNested :: rest)) := by
  apply ((emits_branch embeds emitted emittedElse emitsNested emitsElse).append emitsRest).congr
  · have noEnd : Item.endHeight (.mk (.control (.ifBegin condition)) line span nested)
        (.mk (.control .elseBegin) elseLine elseSpan elseNested :: rest) = 0 := rfl
    have noElseEnd : Item.endHeight (.mk (.control .elseBegin) elseLine elseSpan elseNested)
        rest = 0 := rfl
    rw [heights, heights, noEnd, noElseEnd]
    omega
  · intro σ host scope start
    rw [runItems_with_else]

mutual

theorem emits_item : ∀ (item : Item) (depth : Nat) (text : List Char),
    (∀ construct ∈ item.constructs, construct.Fits) → item.isIf = false → item.isElse = false →
    emitItem depth item = .ok text → ∀ otherwise : Action,
    Emits text item.height (fun σ host scope start =>
      runItem host scope depth start (otherwise σ host scope start) item)
  | .mk construct line span nested => by
      intro depth text fits notIf notElse emitted otherwise
      rw [Item.constructs] at fits
      have own : construct.Fits := fits construct List.mem_cons_self
      have emitsNested (within : Nat) (body : List Char)
          (emittedBody : emitItems within false nested = .ok body) :
          Emits body (heights nested) (fun _ host scope start =>
            runItems host scope within start nested) :=
        emits_items nested within body (fun c member => fits c (List.mem_cons_of_mem _ member))
          emittedBody
      cases construct with
      | element element => exact emits_element own.element emitted (emitsNested _) otherwise
      | comment words =>
          exact emits_comment own.onLine (own.clean words List.mem_cons_self) emitted
            (emitsNested _) otherwise
      | control control => cases control with
        | ifBegin condition => cases notIf
        | elseBegin => cases notElse
        | forBegin binding =>
            exact emits_for (own.bind binding List.mem_cons_self) emitted (emitsNested _) otherwise
      | text pieces =>
          rw [emitItem] at emitted
          rw [of_requireLeaf emitted]
          have sound := sound_pieces own.onLine own.clean own.embed
          apply (Emits.line sound depth).congr
          · rw [Item.height]
          · intro σ host scope start
            rw [runItem]
      | output code =>
          rw [emitItem] at emitted
          rw [of_requireLeaf emitted]
          have sound := (joins_expr (own.embed code List.mem_cons_self)).toSound
          have template : templateOfPieces [.expr code] = outputTag code := List.append_nil _
          rw [← template]
          apply (Emits.line sound depth).congr
          · rw [Item.height]
          · intro σ host scope start
            rw [runItem]
      | code code =>
          rw [emitItem] at emitted
          rw [of_requireLeaf emitted]
          have embeds := own.embed code List.mem_cons_self
          constructor
          · rw [count_codeLine embeds.flat, Item.height]
          · apply (Renders.code embeds depth).congr
            intro σ host scope start
            rw [runItem]
      | doctype words =>
          rw [emitItem] at emitted
          cases emitted
          exact emits_doctype own.onLine (own.clean words List.mem_cons_self) otherwise
      | raw lines =>
          rw [emitItem] at emitted
          cases emitted
          constructor
          · rw [count_lines own.onLine, Item.height]
          · apply (Renders.lines own.onLine own.clean depth).congr
            intro σ host scope start
            rw [runItem]

/-- Items in a row, none of which belongs to an `if` before them. -/
theorem emits_items : ∀ (items : List Item) (depth : Nat) (text : List Char),
    (∀ construct ∈ constructsOf items, construct.Fits) →
    emitItems depth false items = .ok text →
    Emits text (heights items) (fun _ host scope start => runItems host scope depth start items)
  | [] => by
      intro depth text fits emitted
      rw [emitItems] at emitted
      cases emitted
      constructor
      · rfl
      · apply Renders.nil.congr
        intro σ host scope start
        rw [runItems]
  | item :: rest => by
      intro depth text fits emitted
      obtain ⟨belongs, first, more, emittedItem, emittedRest, rfl⟩ := emitItems_cons emitted
      rw [constructsOf] at fits
      have fitsItem (c : Construct) (member : c ∈ item.constructs) : c.Fits :=
        fits c (List.mem_append_left _ member)
      have fitsRest (c : Construct) (member : c ∈ constructsOf rest) : c.Fits :=
        fits c (List.mem_append_right _ member)
      cases isIf : item.isIf with
      | false =>
          rw [isIf] at emittedRest
          have notElse : item.isElse = false := by
            cases isElse : item.isElse with
            | false => rfl
            | true => cases belongs isElse
          have emitsFirst := emits_item item depth first fitsItem isIf notElse emittedItem
            (fun _ _ _ _ => pure ())
          have emitsRest := emits_items rest depth more fitsRest emittedRest
          have noEnd : item.endHeight rest = 0 := by
            unfold Item.endHeight
            rw [isIf]
            rfl
          rw [Bool.false_and, if_neg (by decide), List.append_nil]
          apply (emitsFirst.append emitsRest).congr
          · rw [heights, noEnd, Nat.add_zero]
          · intro σ host scope start
            obtain ⟨otherwise, runs⟩ := runItems_cons host scope depth start item rest
            rw [runs, runItem_of_not_isIf isIf, noEnd, Nat.add_zero]
      | true =>
          obtain ⟨construct, line, span, nested⟩ := item
          obtain ⟨condition, rfl⟩ := of_isIf isIf
          have embeds := (fitsItem _ List.mem_cons_self).embed condition List.mem_cons_self
          have emitsNested (body : List Char)
              (emittedBody : emitItems depth false nested = .ok body) :=
            emits_items nested depth body
              (fun c member => fitsItem c (List.mem_cons_of_mem _ member)) emittedBody
          cases follows : startsElse rest with
          | false =>
              rw [isIf, follows] at emittedRest
              have emitsRest := emits_items rest depth more fitsRest emittedRest
              exact emits_items_when embeds follows emittedItem emitsNested emitsRest
          | true =>
              -- the `else` leaves this `if` its end, so the two are one part of the template
              cases rest with
              | nil => cases follows
              | cons next rest =>
                  obtain ⟨construct, elseLine, elseSpan, elseNested⟩ := next
                  obtain rfl := of_isElse follows
                  obtain ⟨_, second, last, emittedElse, emittedLast, rfl⟩ :=
                    emitItems_cons emittedRest
                  have fitsElse (c : Construct) (member : c ∈ constructsOf elseNested) :
                      c.Fits := by
                    apply fitsRest
                    rw [constructsOf, Item.constructs]
                    exact List.mem_append_left _ (List.mem_cons_of_mem _ member)
                  have emitsElse (body : List Char)
                      (emittedBody : emitItems depth false elseNested = .ok body) :=
                    emits_items elseNested depth body fitsElse emittedBody
                  have emitsLast := emits_items rest depth last
                    (fun c member => fitsRest c (List.mem_append_right _ member)) emittedLast
                  change Emits (first ++ [] ++ (second ++ [] ++ last)) _ _
                  rw [List.append_nil, List.append_nil, ← List.append_assoc]
                  exact emits_items_branch embeds emittedItem emittedElse emitsNested emitsElse
                    emitsLast

end

end ThemeRender.Markup
