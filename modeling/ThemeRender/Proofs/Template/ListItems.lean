import ThemeRender.Proofs.Template.RoundTrip
import ThemeRender.Template.Run

namespace ThemeRender

theorem Value.index?_toDigits {index : Nat} (fits : index < 0x10000000000000000) :
    Value.index? (Nat.toDigits 10 index) = some index := by
  have digits : ∀ c ∈ Nat.toDigits 10 index, c.isDigit = true := fun c member =>
    Nat.isDigit_of_mem_toDigits (by decide) (by decide) member
  have unsigned : (Nat.toDigits 10 index).head? ≠ some '+' := by
    intro first
    exact absurd (digits '+' (List.mem_of_mem_head? first)) (by decide)
  have valid : ((Nat.toDigits 10 index).isEmpty || !(Nat.toDigits 10 index).all Char.isDigit) =
      false := by
    simp [List.all_eq_true.mpr digits, Nat.toDigits_ne_nil]
  rw [Value.index?, if_neg unsigned, valid, if_neg Bool.false_ne_true,
    Nat.ofDigitChars_ten_toDigits, if_pos fits]

theorem Value.field?_list_toString (items : List Value) {index : Nat}
    (fits : index < 0x10000000000000000) :
    (Value.list items).field? (toString index) = items[index]? := by
  have same : (toString index).toList = Nat.toDigits 10 index := by
    simp [toString, Nat.repr]
  rw [Value.field?, same, Value.index?_toDigits fits, Option.bind_some]

namespace Template

theorem Name.field?_list (name : Name) (items : List Value) :
    (Value.list items).field? name.string = none := by
  have noDigit : name.first.isDigit = false := by
    cases digit : name.first.isDigit with
    | false => rfl
    | true => exact absurd name.starts (Bool.eq_false_iff.mp (not_isNameStart_of_isDigit digit))
  have unsigned : name.first ≠ '+' := by
    intro plus
    exact absurd name.starts (by rw [plus]; decide)
  simp [Value.field?, Value.index?, Name.string, Name.text, unsigned, noDigit]

/-- One step of a path as it may be thought of: to a field of a map, or to an item of a list. -/
inductive Step where
  | field (name : Name)
  | item (index : Nat)

def Step.text : Step → List Char
  | .field name => name.text
  | .item index => Nat.toDigits 10 index

def Step.allText (steps : List Step) : List Char :=
  steps.flatMap fun step => '.' :: step.text

def stepsTemplate (name : Name) (steps : List Step) : String :=
  String.ofList ("<%= ".toList ++ (name.text ++ Step.allText steps) ++ " %>".toList)

mutual

def Expr.paths : Expr → List (List String)
  | .literal _ => []
  | .path segments => [segments]
  | .not operand => operand.paths
  | .binary _ left right => left.paths ++ right.paths
  | .call _ args => Arg.pathsAll args

def Arg.pathsAll : List Arg → List (List String)
  | [] => []
  | .positional value :: rest => value.paths ++ Arg.pathsAll rest
  | .named _ value :: rest => value.paths ++ Arg.pathsAll rest

end

mutual

theorem Written.segment_of_path : ∀ {w : Written} {path : List String} {segment : String},
    path ∈ w.expr.paths → segment ∈ path → ∃ name : Name, name.string = segment
  | .literal _, _, _, member, _ => by cases member
  | .path name fields, _, _, member, within => by
      rw [List.mem_singleton.mp member, List.mem_cons] at within
      rcases within with rfl | within
      · exact ⟨name, rfl⟩
      · obtain ⟨field, -, rfl⟩ := List.mem_map.mp within
        exact ⟨field, rfl⟩
  | .not operand, _, _, member, within => operand.segment_of_path member within
  | .binary _ left right, _, _, member, within => by
      rcases List.mem_append.mp member with member | member
      · exact left.segment_of_path member within
      · exact right.segment_of_path member within
  | .call _ args, _, _, member, within => WrittenArg.segment_of_path args member within

theorem WrittenArg.segment_of_path : ∀ (args : List WrittenArg) {path : List String}
    {segment : String}, path ∈ Arg.pathsAll (WrittenArg.args args) → segment ∈ path →
      ∃ name : Name, name.string = segment
  | [], _, _, member, _ => by cases member
  | .positional value :: rest, _, _, member, within => by
      rcases List.mem_append.mp member with member | member
      · exact value.segment_of_path member within
      · exact WrittenArg.segment_of_path rest member within
  | .named _ value :: rest, _, _, member, within => by
      rcases List.mem_append.mp member with member | member
      · exact value.segment_of_path member within
      · exact WrittenArg.segment_of_path rest member within

end

theorem segment_of_parse {source : String} {nodes : List Node} (parsed : parse source = .ok nodes)
    {e : Expr} (inNodes : e ∈ Node.allExprs nodes) {path : List String} (inExpr : path ∈ e.paths)
    {segment : String} (inPath : segment ∈ path) : ∃ name : Name, name.string = segment := by
  obtain ⟨⟨layout, laidOut⟩, unfolded⟩ := unfolds_of_parse parsed
  obtain ⟨parts, reads, unfolds⟩ := unfolded layout laidOut
  rw [unfolds.allExprs] at inNodes
  obtain ⟨w, rfl⟩ := reads.isWritten inNodes
  exact w.segment_of_path inExpr inPath

/-! What stands after a point -/

/-- After every point of the row comes a name. -/
def Dotted (row : List Token) : Prop :=
  ∀ front rest, row = front ++ .mark .dot :: rest → ∃ name more, rest = .ident name :: more

variable {row more : List Token}

theorem dotted_nil : Dotted [] := by
  intro front rest same
  simp at same

theorem Dotted.append (dotted : Dotted row) (dottedMore : Dotted more) : Dotted (row ++ more) := by
  intro front rest same
  rcases List.append_eq_append_iff.mp same with ⟨between, rfl, rfl⟩ | ⟨between, rfl, split⟩
  · exact dottedMore between rest rfl
  · cases between with
    | nil => exact dottedMore [] rest split.symm
    | cons head between =>
        obtain ⟨rfl, rfl⟩ := List.cons.inj split
        obtain ⟨name, later, rfl⟩ := dotted front between rfl
        exact ⟨name, later ++ more, rfl⟩

theorem Dotted.cons {token : Token} (noDot : token ≠ .mark .dot) (dotted : Dotted row) :
    Dotted (token :: row) := by
  have single : Dotted [token] := by
    intro front rest same
    have member : Token.mark .dot ∈ [token] := same ▸ by simp
    exact absurd (List.mem_singleton.mp member).symm noDot
  exact single.append dotted

theorem Dotted.tail {token : Token} (dotted : Dotted (token :: row)) : Dotted row := by
  rintro front rest rfl
  exact dotted (token :: front) rest rfl

theorem dotted_fields (fields : List String) :
    Dotted (fields.flatMap fun field => [.mark .dot, .ident field]) := by
  induction fields with
  | nil => exact dotted_nil
  | cons field fields ih =>
      intro front rest same
      cases front with
      | nil =>
          obtain ⟨-, rfl⟩ := List.cons.inj same
          exact ⟨field, _, rfl⟩
      | cons head front =>
          obtain ⟨-, same⟩ := List.cons.inj same
          exact ih.cons (by simp) front rest same

theorem Derives.dotted {phrase : Phrase} (derives : Derives phrase row) : Dotted row := by
  induction derives with
  | @literal token value isLiteral =>
      refine dotted_nil.cons ?_
      rintro rfl
      cases isLiteral
  | path name fields => exact (dotted_fields fields).cons (by simp)
  | emptyCall => exact ((dotted_nil.cons (by simp)).cons (by simp)).cons (by simp)
  | call function _ _ trailing ihFirst ihOthers =>
      have closing : Dotted [.mark .rightParen] := dotted_nil.cons (by simp)
      refine Dotted.cons (by simp) (Dotted.cons (by simp) (ihFirst.append (ihOthers.append ?_)))
      rcases trailing with rfl | rfl
      · exact closing
      · exact closing.cons (by simp)
  | parens _ ih => exact (ih.append (dotted_nil.cons (by simp))).cons (by simp)
  | not _ ih => exact ih.cons (by simp)
  | @binary op _ _ _ _ _ _ _ _ ihFirst ihSecond =>
      exact ihFirst.append (ihSecond.cons (by cases op <;> simp [BinaryOp.token]))
  | tighter _ _ ih | positional _ ih => exact ih
  | named name _ ih => exact (ih.cons (by simp)).cons (by simp)
  | noMore => exact dotted_nil
  | more _ _ ihNext ihOthers => exact (ihNext.append ihOthers).cons (by simp)

/-! Steps to items are not read -/

variable {offset : Nat} {s rest : List Char} {tokens : List (Spanned Token)}

theorem Lexes.first {c : Char} {token : Token} (noGap : isGap c = false)
    (found : (lexeme c s).token? = some token) (lexes : Lexes offset (c :: s) tokens) :
    ∃ place later more, tokens = ⟨token, place⟩ :: more ∧ Lexes later (lexeme c s).rest more := by
  cases lexes with
  | gap gap => exact absurd gap (Bool.eq_false_iff.mp noGap)
  | token _ foundToo after =>
      rw [found] at foundToo
      cases foundToo
      exact ⟨_, _, _, rfl, after⟩

theorem Lexes.first_name (name : Name) (ends : ∀ d, rest.head? = some d → isNameChar d = false)
    (lexes : Lexes offset (name.text ++ rest) tokens) :
    ∃ place later more, tokens = ⟨.ident name.string, place⟩ :: more ∧ Lexes later rest more := by
  have word := lexeme_word name.starts name.letters ends
  have isName : wordToken (name.first :: name.rest) = .ident name.string := by
    rw [wordToken, name.noKeyword]
    rfl
  have found := congrArg Lexeme.token? word
  rw [isName] at found
  obtain ⟨place, later, more, rfl, after⟩ :=
    Lexes.first (not_isGap_of_isNameStart name.starts) found lexes
  rw [word] at after
  exact ⟨place, later, more, rfl, after⟩

theorem Lexes.first_number {c : Char} (digit : c.isDigit = true)
    (lexes : Lexes offset (c :: s) tokens) :
    ∃ x place more, tokens = ⟨.number x, place⟩ :: more := by
  obtain ⟨noGap, number⟩ := lexeme_digit digit s
  have isNumber : ∃ x, (lexeme c s).token? = some (.number x) := by
    rw [number]
    unfold numberLexeme
    split
    · dsimp only
      split <;> exact ⟨_, rfl⟩
    · exact ⟨_, rfl⟩
  obtain ⟨x, found⟩ := isNumber
  obtain ⟨place, -, more, rfl, -⟩ := Lexes.first noGap found lexes
  exact ⟨x, place, more, rfl⟩

theorem Step.allText_ends (steps : List Step) (delimited : Delimited rest) (c : Char)
    (first : (Step.allText steps ++ rest).head? = some c) : isNameChar c = false := by
  cases steps with
  | nil => exact delimited.no_name c first
  | cons =>
      cases first
      rfl

theorem Step.isField_of_dotted {steps : List Step} (delimited : Delimited rest)
    (lexes : Lexes offset (Step.allText steps ++ rest) tokens) (dotted : Dotted (plain tokens)) :
    ∃ fields : List Name, steps = fields.map .field := by
  induction steps generalizing offset tokens with
  | nil => exact ⟨[], rfl⟩
  | cons step steps ih =>
      have text : Step.allText (step :: steps) ++ rest =
          '.' :: (step.text ++ (Step.allText steps ++ rest)) := by
        simp [Step.allText]
      rw [text] at lexes
      obtain ⟨place, later, afterDot, rfl, lexesStep⟩ := Lexes.first rfl rfl lexes
      have lexesStep : Lexes later (step.text ++ (Step.allText steps ++ rest)) afterDot := lexesStep
      obtain ⟨found, more, isName⟩ := dotted [] (plain afterDot) rfl
      cases step with
      | item index =>
          cases digits : Nat.toDigits 10 index with
          | nil => exact absurd digits Nat.toDigits_ne_nil
          | cons digit digits' =>
              have isDigit : digit.isDigit = true :=
                Nat.isDigit_of_mem_toDigits (by decide) (by decide)
                  (digits ▸ List.mem_cons_self : digit ∈ Nat.toDigits 10 index)
              rw [Step.text, digits] at lexesStep
              obtain ⟨x, place, others, rfl⟩ := lexesStep.first_number isDigit
              cases isName
      | field name =>
          obtain ⟨place, later, others, rfl, lexesMore⟩ :=
            lexesStep.first_name name (Step.allText_ends steps delimited)
          obtain ⟨fields, rfl⟩ := ih lexesMore dotted.tail.tail
          exact ⟨name :: fields, rfl⟩

variable {name : Name} {steps : List Step} {nodes : List Node}

theorem derives_of_parse_outputTag {code : List Char} (closed : Text.Lacks tagClose code)
    (parsed : parse (String.ofList ("<%=".toList ++ (code ++ "%>".toList))) = .ok nodes) :
    ∃ tokens e, lex code = .ok tokens ∧ Derives (.expr .disjunction e) (plain tokens) := by
  let tag : Tag := ⟨.output, code, closed, fun noOutput => by cases noOutput⟩
  let layout : Layout := .cons ⟨[], Text.lacks_nil⟩ tag (.last ⟨[], Text.lacks_nil⟩)
  have laidOut : layout.text = (String.ofList ("<%=".toList ++ (code ++ "%>".toList))).toList := by
    simp [layout, tag, Layout.text, Tag.text, TagKind.sign, tagOpen, tagClose]
  have pieces : layout.pieces = [.tag .output code] := by
    simp [layout, tag, Layout.pieces, Layout.piecesAfter, AloneOnLine, Layout.textPiece]
  obtain ⟨parts, reads, -⟩ := (unfolds_of_parse parsed).2 layout laidOut
  rw [pieces] at reads
  cases reads with
  | output lexed value _ => exact ⟨_, _, lexed, value⟩

theorem stepsTemplate_fields (name : Name) (fields : List Name) :
    stepsTemplate name (fields.map .field) = (Written.path name fields).template := by
  -- the two are the same around the path
  refine congrArg (fun path => String.ofList ("<%= ".toList ++ path ++ " %>".toList)) ?_
  simp [Step.allText, Written.text, Step.text, List.flatMap_map]

theorem Step.closed (step : Step) : Closed step.text := by
  cases step with
  | field name => exact name.closed
  | item index =>
      refine closed_of_not_mem fun member => ?_
      have isDigit := Nat.isDigit_of_mem_toDigits (by decide) (by decide) member
      exact absurd isDigit (by decide)

theorem Step.allText_closed (steps : List Step) : Closed (Step.allText steps) := by
  induction steps with
  | nil => exact closed_of_not_mem (by simp [Step.allText])
  | cons step steps ih =>
      have whole := (step.closed.append ih).cons (c := '.') (by decide)
      simpa [Step.allText] using whole

theorem isField_of_parse (parsed : parse (stepsTemplate name steps) = .ok nodes) :
    ∃ fields : List Name, steps = fields.map .field := by
  have template : "<%= ".toList ++ (name.text ++ Step.allText steps) ++ " %>".toList =
      "<%=".toList ++ ((' ' :: (name.text ++ (Step.allText steps ++ [' ']))) ++ "%>".toList) := by
    simp
  have closed : Closed (' ' :: (name.text ++ (Step.allText steps ++ [' ']))) :=
    (name.closed.append ((Step.allText_closed steps).append
      (closed_of_not_mem (by decide)))).cons (by decide)
  change parse (String.ofList ("<%= ".toList ++ (name.text ++ Step.allText steps) ++ " %>".toList)) =
    .ok nodes at parsed
  rw [template] at parsed
  obtain ⟨tokens, e, lexed, derives⟩ := derives_of_parse_outputTag closed.1 parsed
  have blank : Delimited [' '] := delimited_cons (.inl rfl) []
  cases lexes_of_eq_ok lexed with
  | token noGap => exact absurd noGap (by decide)
  | gap _ lexes =>
      obtain ⟨_, _, _, rfl, lexesSteps⟩ := lexes.first_name name (Step.allText_ends steps blank)
      exact Step.isField_of_dotted blank lexesSteps derives.dotted.tail

theorem Scope.lookup_through_list {scope : Scope} {front later : List String} {segment : String}
    {items : List Value} (atList : scope.lookup front = .list items)
    (nothing : (Value.list items).field? segment = none) :
    scope.lookup (front ++ segment :: later) = .null := by
  have ends : ∀ segments : List String,
      segments.foldl (fun value? segment => value?.bind (Value.field? · segment)) none = none := by
    intro segments
    induction segments with
    | nil => rfl
    | cons segment segments ih => exact ih
  cases front with
  | nil => cases atList
  | cons name fields =>
      rw [Scope.lookup] at atList
      rw [List.cons_append, Scope.lookup, List.foldl_append, List.foldl_cons]
      cases found : fields.foldl (fun value? segment => value?.bind (Value.field? · segment))
          (scope.get? name) with
      | none => rw [Option.bind_none, ends, Option.getD_none]
      | some value =>
          rw [found, Option.getD_some] at atList
          rw [Option.bind_some, atList, nothing, ends, Option.getD_none]

/-- A path goes on with names only. So the template that writes what a name and steps after it lead to
is accepted just if no step is to an item, and then writes what is found under the names. A path of an
accepted template leads nowhere beyond a list, though the list has its items under their numbers. -/
theorem list_items_out_of_reach (name : Name) (steps : List Step) :
    ((∃ nodes, parse (stepsTemplate name steps) = .ok nodes) ↔
      ∃ fields : List Name, steps = fields.map .field) ∧
    (∀ (fields : List Name) nodes, steps = fields.map .field →
      parse (stepsTemplate name steps) = .ok nodes →
      ∀ (σ : Type) (host : Host σ) label source locals,
        run host label source locals nodes = Staged.write
          ((Scope.mk label source.toList locals []).lookup
            (name.string :: fields.map Name.string)).text) ∧
    (∀ items : List Value, ∀ index < 0x10000000000000000,
      (Value.list items).field? (toString index) = items[index]?) ∧
    ∀ source nodes, parse source = .ok nodes → ∀ e ∈ Node.allExprs nodes,
      ∀ front segment later, front ++ segment :: later ∈ e.paths →
        ∀ (scope : Scope) items, scope.lookup front = .list items →
          scope.lookup (front ++ segment :: later) = .null := by
  refine ⟨⟨fun ⟨nodes, parsed⟩ => isField_of_parse parsed, ?_⟩, ?_,
    fun items index fits => Value.field?_list_toString items fits, ?_⟩
  · rintro ⟨fields, rfl⟩
    obtain ⟨span, parsed⟩ := (Written.path name fields).parse_template
    exact ⟨_, stepsTemplate_fields name fields ▸ parsed⟩
  · rintro fields nodes rfl parsed σ host label source locals
    obtain ⟨span, parsedToo⟩ := (Written.path name fields).parse_template
    rw [stepsTemplate_fields, parsedToo] at parsed
    cases parsed
    exact bind_pure (Staged.write _)
  · intro source nodes parsed e inNodes front segment later inExpr scope items atList
    have inPath : segment ∈ front ++ segment :: later := by simp
    obtain ⟨name, rfl⟩ := segment_of_parse parsed inNodes inExpr inPath
    exact Scope.lookup_through_list atList (name.field?_list items)

theorem first_item_out_of_reach :
    (Value.list [.string "a", .string "b"]).field? "0" = some (.string "a") ∧
      ¬ ∃ nodes, parse "<%= xs.0 %>" = .ok nodes := by
  let xs : Name := ⟨'x', ['s'], by decide, List.forall_mem_singleton.mpr (by decide), by decide⟩
  have template : stepsTemplate xs [.item 0] = "<%= xs.0 %>" := by decide
  refine ⟨by simp [Value.field?, Value.index?, Nat.ofDigitChars], ?_⟩
  rintro ⟨nodes, parsed⟩
  obtain ⟨fields, same⟩ := isField_of_parse (template ▸ parsed)
  cases fields <;> simp at same

end Template

end ThemeRender
