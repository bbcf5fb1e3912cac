import ThemeRender.Proofs.Template.Grammar
import ThemeRender.Proofs.Template.Yielding
/-!
The reader of expressions and their grammar. `isExpr_iff_derives`: tokens are read as an expression
exactly when the grammar derives it from them. So the order of the alternatives of the reader, and
that each takes as much as it can, decide nothing between two expressions.
-/

namespace ThemeRender.Template

open Reader (Yields Refuses yields_keyword yields_mark yields_ident refuses_keyword refuses_mark
  refuses_ident)

variable {row more left : List Token} {e : Expr} {level : Level}

/-! Rows that the grammar derives are read -/

namespace Expr

variable {inner : Reader Expr}

/-- The row is read as the first operands of a chain; those that follow in `more` go on from what it
was read as. -/
def StartsChain (op : BinaryOp) (word : Keyword) (operand : Reader Expr) (e : Expr)
    (row : List Token) : Prop :=
  ∀ more others left, Stops op.rightLevel more →
    (Reader.many (do Reader.keyword word; operand)).Yields more others left →
      (readChain op word operand).Yields (row ++ more) (others.foldl (.binary op) e) left

theorem StartsChain.operand {op : BinaryOp} {word : Keyword} {operand : Reader Expr}
    (reads : ∀ more, Stops op.rightLevel more → operand.Yields (row ++ more) e more) :
    StartsChain op word operand e row := by
  intro more others left stops goesOn
  apply (reads more stops).bind
  exact goesOn.bind (Yields.pure _ left)

theorem StartsChain.snoc {op : BinaryOp} {word : Keyword} {operand : Reader Expr} {right : Expr}
    {rightRow : List Token} (isWord : op.token = .keyword word)
    (ends : op.token.lengthens op.rightLevel = false) (starts : StartsChain op word operand e row)
    (reads : ∀ more, Stops op.rightLevel more → operand.Yields (rightRow ++ more) right more) :
    StartsChain op word operand (.binary op e right) (row ++ op.token :: rightRow) := by
  intro more others left stops goesOn
  rw [List.append_assoc, List.cons_append]
  apply starts (op.token :: (rightRow ++ more)) (right :: others) left (stops_cons ends _)
  rw [isWord]
  apply Yields.many ((yields_keyword word _).bind (reads more stops)) _ goesOn
  simp only [List.length_cons, List.length_append]
  omega

theorem StartsChain.whole {op : BinaryOp} {word : Keyword} {operand : Reader Expr}
    (isWord : op.token = .keyword word) (lengthens : op.token.lengthens level = true)
    (tight : level.rank ≤ op.rightLevel.rank) (starts : StartsChain op word operand e row)
    (stops : Stops level more) : (readChain op word operand).Yields (row ++ more) e more := by
  apply starts more [] more (stops.tighten tight)
  apply Refuses.many
  apply Refuses.bind
  apply refuses_keyword
  rw [← isWord]
  exact stops.not_head lengthens

theorem yields_negated (yields : (readUnary inner).Yields row e left) :
    (readUnary inner).Yields (.keyword .notKw :: row) (.not e) left := by
  intro tokens same
  obtain ⟨span, tail, rfl, sameTail⟩ := of_plain_cons same
  obtain ⟨rest, found, sameRest⟩ := yields tail sameTail
  obtain ⟨nots, middle, notsFound, found⟩ := Reader.of_found_bind found
  obtain ⟨operand, after, operandFound, found⟩ := Reader.of_found_bind found
  cases found
  refine ⟨rest, ?_, sameRest⟩
  have word : (Reader.keyword .notKw (⟨.keyword .notKw, span⟩ :: tail)).found? = some ((), tail) :=
    found?_keyword _ _ _
  unfold readUnary
  rw [Reader.found?_bind, Reader.found?_many, word]
  simp only [List.length_cons, Nat.lt_succ_self, if_true, notsFound, Option.map_some,
    Option.bind_some, Reader.found?_bind, operandFound]
  rfl

theorem yields_operand (derives : Derives (.expr .operand e) row)
    (reads : (readAtom inner).Yields (row ++ more) e more) :
    (readUnary inner).Yields (row ++ more) e more := by
  obtain ⟨head, rest, rfl, noNot⟩ := derives.operand_head
  have refuses : (Reader.keyword .notKw).Refuses (head :: rest ++ more) := by
    apply refuses_keyword
    rintro ⟨⟩
    exact noNot .notKw rfl rfl
  exact refuses.many.bind (reads.bind (Yields.pure _ more))

theorem yields_alone (reads : (readUnary inner).Yields (row ++ more) e more)
    (stops : Stops .comparison more) : (readComparison inner).Yields (row ++ more) e more := by
  have noSign : readComparisonOp.Refuses more := by
    apply Refuses.orElse
    · exact (refuses_mark (stops.not_head rfl)).bind _
    · exact (refuses_mark (stops.not_head rfl)).bind _
  exact reads.bind ((noSign.bind _).optional.bind (Yields.pure e more))

theorem yields_comparison {op : BinaryOp} {right : Expr} {rightRow : List Token}
    (atLevel : op.level = .comparison)
    (reads : ∀ more, Stops .negation more → (readUnary inner).Yields (row ++ more) e more)
    (readsRight : (readUnary inner).Yields (rightRow ++ more) right more) :
    (readComparison inner).Yields (row ++ op.token :: rightRow ++ more) (.binary op e right) more := by
  have sign : readComparisonOp.Yields (op.token :: (rightRow ++ more)) op (rightRow ++ more) := by
    cases op with
    | equal =>
        apply Yields.orElse
        exact (yields_mark .equal _).bind (Yields.pure BinaryOp.equal _)
    | unequal =>
        apply Refuses.orElse_yields
        · exact (refuses_mark (by simp [BinaryOp.token])).bind _
        · exact (yields_mark .unequal _).bind (Yields.pure BinaryOp.unequal _)
    | and | or => cases atLevel
  have stops : Stops .negation (op.token :: (rightRow ++ more)) := by
    apply stops_cons
    cases op <;> cases atLevel <;> rfl
  rw [List.append_assoc, List.cons_append]
  apply (reads _ stops).bind
  apply Yields.bind
  · apply Yields.optional
    apply sign.bind
    apply readsRight.bind
    exact Yields.pure (op, right) more
  · exact Yields.pure _ more

/-! Operands -/

theorem refuses_literal {head : Token} (other : literalOf? head = none) (row : List Token) :
    readLiteral.Refuses (head :: row) := by
  apply Refuses.map
  apply Reader.refuses_token
  rintro _ ⟨⟩
  exact other

theorem yields_fields (fields : List String) (stops : Stops .operand more) :
    (Reader.many (do Reader.mark .dot; Reader.ident)).Yields
      ((fields.flatMap fun field => [.mark .dot, .ident field]) ++ more) fields more := by
  induction fields with
  | nil => exact ((refuses_mark (stops.not_head rfl)).bind _).many
  | cons field fields ih =>
      apply Yields.many ((yields_mark .dot _).bind (yields_ident field _)) _ ih
      simp only [List.length_append, List.length_cons]
      omega

theorem yields_path (name : String) (fields : List String) (stops : Stops .operand more) :
    (readAtom inner).Yields
      (.ident name :: (fields.flatMap fun field => [.mark .dot, .ident field]) ++ more)
      (.path (name :: fields)) more := by
  apply (refuses_literal rfl _).orElse_yields
  have noCall : (readCall inner).Refuses
      (.ident name :: (fields.flatMap fun field => [.mark .dot, .ident field]) ++ more) := by
    apply (yields_ident name _).bind_refuses
    apply Refuses.bind
    apply Refuses.bind
    apply refuses_mark
    cases fields with
    | nil => exact stops.not_head rfl
    | cons => simp
  apply noCall.orElse_yields
  apply Yields.orElse
  apply Yields.map
  apply (yields_ident name _).bind
  exact (yields_fields fields stops).bind (Yields.pure _ more)

theorem yields_parens (reads : inner.Yields (row ++ .mark .rightParen :: more) e
      (.mark .rightParen :: more)) :
    (readAtom inner).Yields (.mark .leftParen :: (row ++ [.mark .rightParen]) ++ more) e more := by
  have noName : Reader.ident.Refuses (.mark .leftParen :: (row ++ .mark .rightParen :: more)) :=
    refuses_ident fun _ => by simp
  rw [List.cons_append, List.append_assoc]
  apply (refuses_literal rfl _).orElse_yields
  apply (noName.bind _).orElse_yields
  apply ((noName.bind _).map _).orElse_yields
  apply (yields_mark .leftParen _).bind
  apply reads.bind
  exact (yields_mark .rightParen more).bind (Yields.pure e more)

/-! Arguments -/

abbrev readNextArg (inner : Reader Expr) : Reader Arg := do
  Reader.mark .comma
  readArg inner

theorem readNested_starts (depth : Nat) : StartsLikeExpr (readNested depth) := by
  cases depth with
  | zero =>
      intro tokens other
      rfl
  | succ depth => exact (readUnary_starts _).bind.bind.bind

theorem refuses_of_starts {α : Type} {reader : Reader α} (starts : StartsLikeExpr reader)
    {head : Token} (other : startsExpr head = false) (row : List Token) :
    reader.Refuses (head :: row) := by
  intro tokens same
  obtain ⟨span, rest, rfl, -⟩ := of_plain_cons same
  apply starts
  simp [other]

theorem readArg_refuses (depth : Nat) (row : List Token) :
    (readArg (readNested depth)).Refuses (.mark .rightParen :: row) := by
  apply Refuses.orElse
  · exact (refuses_ident fun _ => by simp).bind _
  · exact (refuses_of_starts (readNested_starts depth) rfl row).map _

theorem yields_positional (derives : Derives (.expr level e) row) (ends : EndsArg more)
    (reads : inner.Yields (row ++ more) e more) :
    (readArg inner).Yields (row ++ more) (.positional e) more := by
  apply Refuses.orElse_yields _ (reads.map _)
  have some := derives.ne_nil rfl
  cases row with
  | nil => exact absurd rfl some
  | cons head tail =>
      cases head with
      | ident name =>
          apply (yields_ident name _).bind_refuses
          apply Refuses.bind
          apply refuses_mark
          cases tail with
          | nil =>
              rcases ends with comma | paren
              · simp [comma]
              · simp [paren]
          | cons second rest =>
              have noColon := derives.no_colon rfl rfl
              exact noColon
      | _ => exact (refuses_ident fun _ => by simp).bind _

theorem yields_call (function : String) {arg : Arg} {args : List Arg} {others comma : List Token}
    (trailing : comma = [] ∨ comma = [.mark .comma])
    (noParen : ∀ row, (readArg inner).Refuses (.mark .rightParen :: row))
    (derives : Derives (.moreArgs args) others)
    (reads : ∀ more, EndsArg more → (readArg inner).Yields (row ++ more) arg more)
    (readsMore : ∀ more, EndsArg more → (readNextArg inner).Refuses more →
      (Reader.many (readNextArg inner)).Yields (others ++ more) args more) :
    (readAtom inner).Yields
      (.ident function :: .mark .leftParen ::
        (row ++ (others ++ (comma ++ [.mark .rightParen]))) ++ more)
      (.call function (arg :: args)) more := by
  have ends : EndsArg (comma ++ .mark .rightParen :: more) := by
    rcases trailing with rfl | rfl
    · exact .inr rfl
    · exact .inl rfl
  have noOther : (readNextArg inner).Refuses
      (comma ++ .mark .rightParen :: more) := by
    rcases trailing with rfl | rfl
    · exact (refuses_mark (by simp)).bind _
    · exact (yields_mark .comma _).bind_refuses (noParen more)
  have last : ∃ found?, (Reader.optional (Reader.mark .comma)).Yields
      (comma ++ .mark .rightParen :: more) found? (.mark .rightParen :: more) := by
    rcases trailing with rfl | rfl
    · exact ⟨none, (refuses_mark (by simp)).optional⟩
    · exact ⟨some (), (yields_mark .comma _).optional⟩
  obtain ⟨found?, last⟩ := last
  have list : (Reader.commaSeparated (readArg inner)).Yields
      (row ++ (others ++ (comma ++ .mark .rightParen :: more))) (arg :: args)
      (.mark .rightParen :: more) := by
    apply Yields.orElse
    apply Yields.bind
    · apply (reads _ (derives.endsArg ends)).bind
      exact (readsMore _ ends noOther).bind (Yields.pure _ _)
    · exact last.bind (Yields.pure _ _)
  simp only [List.cons_append, List.append_assoc, List.nil_append]
  apply (refuses_literal rfl _).orElse_yields
  apply Yields.orElse
  apply (yields_ident function _).bind
  apply Yields.bind
  · apply (yields_mark .leftParen _).bind
    apply list.bind
    exact (yields_mark .rightParen more).bind (Yields.pure _ more)
  · exact Yields.pure _ more

theorem yields_emptyCall (function : String)
    (noParen : ∀ row, (readArg inner).Refuses (.mark .rightParen :: row)) (more : List Token) :
    (readAtom inner).Yields
      (.ident function :: .mark .leftParen :: .mark .rightParen :: more) (.call function []) more := by
  have list : (Reader.commaSeparated (readArg inner)).Yields (.mark .rightParen :: more) []
      (.mark .rightParen :: more) := by
    apply Refuses.orElse_yields _ (Yields.pure [] _)
    exact ((noParen more).bind _).bind _
  apply (refuses_literal rfl _).orElse_yields
  apply Yields.orElse
  apply (yields_ident function _).bind
  apply Yields.bind
  · apply (yields_mark .leftParen _).bind
    apply list.bind
    exact (yields_mark .rightParen more).bind (Yields.pure _ more)
  · exact Yields.pure _ more

/-! All rows -/

/-- How a row that the grammar derives is read, with `depth` for the expressions in parentheses. -/
def ReadsAs (depth : Nat) : Phrase → List Token → Prop
  | .expr .disjunction e, row =>
      StartsChain .or .orKw (readConjunction (readNested depth)) e row
  | .expr .conjunction e, row =>
      StartsChain .and .andKw (readComparison (readNested depth)) e row
  | .expr .comparison e, row => ∀ more, Stops .comparison more →
      (readComparison (readNested depth)).Yields (row ++ more) e more
  | .expr .negation e, row => ∀ more, Stops .negation more →
      (readUnary (readNested depth)).Yields (row ++ more) e more
  | .expr .operand e, row => ∀ more, Stops .operand more →
      (readAtom (readNested depth)).Yields (row ++ more) e more
  | .arg arg, row => ∀ more, EndsArg more →
      (readArg (readNested (depth + 1))).Yields (row ++ more) arg more
  | .moreArgs args, row => ∀ more, EndsArg more →
      (readNextArg (readNested (depth + 1))).Refuses more →
        (Reader.many (readNextArg (readNested (depth + 1)))).Yields (row ++ more) args more

variable {depth : Nat}

theorem ReadsAs.disjunction (reads : ReadsAs depth (.expr .disjunction e) row)
    (stops : Stops .disjunction more) : (readNested (depth + 1)).Yields (row ++ more) e more :=
  StartsChain.whole rfl rfl (by decide) reads stops

theorem ReadsAs.conjunction (reads : ReadsAs depth (.expr .conjunction e) row)
    (stops : Stops .conjunction more) :
    (readConjunction (readNested depth)).Yields (row ++ more) e more :=
  StartsChain.whole rfl rfl (by decide) reads stops

theorem ReadsAs.tighter {tight : Level} (isNext : level.next? = some tight)
    (derives : Derives (.expr tight e) row) (reads : ReadsAs depth (.expr tight e) row) :
    ReadsAs depth (.expr level e) row := by
  cases level with
  | disjunction =>
      cases isNext
      exact StartsChain.operand fun more stops => ReadsAs.conjunction reads stops
  | conjunction =>
      cases isNext
      exact StartsChain.operand reads
  | comparison =>
      cases isNext
      intro more stops
      exact yields_alone (reads more (stops.tighten (by decide))) stops
  | negation =>
      cases isNext
      intro more stops
      exact yields_operand derives (reads more (stops.tighten (by decide)))
  | operand => cases isNext

theorem ReadsAs.binary {op : BinaryOp} {left right : Expr} {leftRow rightRow : List Token}
    (reads : ReadsAs depth (.expr op.leftLevel left) leftRow)
    (readsRight : ReadsAs depth (.expr op.rightLevel right) rightRow) :
    ReadsAs depth (.expr op.level (.binary op left right)) (leftRow ++ op.token :: rightRow) := by
  cases op with
  | or => exact StartsChain.snoc rfl rfl reads fun more stops => ReadsAs.conjunction readsRight stops
  | and => exact StartsChain.snoc rfl rfl reads readsRight
  | equal | unequal =>
      intro more stops
      exact yields_comparison rfl reads (readsRight more (stops.tighten (by decide)))

/-- By induction on the derivation. The bound on the length leaves one level of nesting for each
parenthesis in the row. -/
theorem readsAs_of_derives {phrase : Phrase} (derives : Derives phrase row) :
    ∀ depth, row.length ≤ depth → ReadsAs depth phrase row := by
  induction derives with
  | literal isLiteral =>
      intro depth _ more _
      exact ((Reader.yields_token isLiteral more).map _).orElse _
  | path name fields =>
      intro depth _ more stops
      exact yields_path name fields stops
  | emptyCall function =>
      intro depth _ more _
      exact yields_emptyCall function (readArg_refuses depth) more
  | @call function arg args row others comma first derivesMore trailing ihFirst ihMore =>
      intro depth bound more _
      simp only [List.length_cons, List.length_append] at bound
      cases depth with
      | zero => omega
      | succ depth =>
          exact yields_call function trailing (readArg_refuses _) derivesMore
            (ihFirst depth (by omega)) (ihMore depth (by omega))
  | @parens e row inner ih =>
      intro depth bound more _
      simp only [List.length_cons, List.length_append] at bound
      cases depth with
      | zero => omega
      | succ depth => exact yields_parens ((ih depth (by omega)).disjunction (stops_cons rfl _))
  | not operand ih =>
      intro depth bound more stops
      simp only [List.length_cons] at bound
      exact yields_negated (ih depth (by omega) more stops)
  | binary atLevel first second ihFirst ihSecond =>
      intro depth bound
      simp only [List.length_cons, List.length_append] at bound
      subst atLevel
      exact (ihFirst depth (by omega)).binary (ihSecond depth (by omega))
  | tighter isNext derives ih =>
      intro depth bound
      exact (ih depth bound).tighter isNext derives
  | positional value ih =>
      intro depth bound more ends
      exact yields_positional value ends ((ih depth bound).disjunction ends.stops)
  | named name value ih =>
      intro depth bound more ends
      simp only [List.length_cons] at bound
      apply Yields.orElse
      apply (yields_ident name _).bind
      apply (yields_mark .colon _).bind
      exact ((ih depth (by omega)).disjunction ends.stops).bind (Yields.pure _ more)
  | noMore =>
      intro depth _ more _ refuses
      exact refuses.many
  | @more arg args row rest next others ihNext ihMore =>
      intro depth bound more ends refuses
      simp only [List.length_cons, List.length_append] at bound
      rw [List.cons_append, List.append_assoc]
      have step : (readNextArg (readNested (depth + 1))).Yields
          (.mark .comma :: (row ++ (rest ++ more))) arg (rest ++ more) :=
        (yields_mark .comma _).bind (ihNext depth (by omega) _ (others.endsArg ends))
      apply step.many _ (ihMore depth (by omega) more ends refuses)
      simp only [List.length_cons, List.length_append]
      omega

/-! What is read is derived -/

open Reader (Sound Rows AfterMark)

theorem readLiteral_sound :
    readLiteral.Sound fun e row => Derives (.expr .operand e) row := by
  apply (Sound.token.map _).mono
  rintro e row ⟨value, rfl, head, rfl, isLiteral⟩
  exact .literal isLiteral

theorem readPath_sound : readPath.Sound fun e row => Derives (.expr .operand e) row := by
  apply ((Sound.ident.separated .dot).map _).mono
  rintro e row ⟨names, rfl, name, fields, taken, more, rfl, rfl, rfl, rows, rfl, all⟩
  have same : rows.flatten = fields.flatMap fun field => [.mark .dot, .ident field] := by
    induction all with
    | nil => rfl
    | cons head _ ih =>
        obtain ⟨rest, rfl, rfl⟩ := head
        rw [List.flatten_cons, ih, List.flatMap_cons]
  rw [same]
  exact .path name fields

theorem readArg_sound (sound : inner.Sound fun e row => Derives (.expr .disjunction e) row) :
    (readArg inner).Sound fun arg row => Derives (.arg arg) row := by
  apply Sound.orElse
  · apply (Sound.ident.bind fun _ =>
      (Sound.mark .colon).bind fun _ => sound.bind fun _ => Sound.pure _).mono
    rintro arg row ⟨name, _, _, rfl, rfl, _, _, _, rfl, rfl, e, value, _, rfl, derives, rfl, rfl⟩
    rw [List.append_nil]
    exact .named name derives
  · apply (sound.map _).mono
    rintro arg row ⟨e, rfl, derives⟩
    exact .positional derives

theorem derives_moreArgs {args : List Arg}
    (rows : Rows (AfterMark .comma fun arg row => Derives (.arg arg) row) args row) :
    Derives (.moreArgs args) row := by
  obtain ⟨rows, rfl, all⟩ := rows
  induction all with
  | nil => exact .noMore
  | cons head _ ih =>
      obtain ⟨rest, rfl, derives⟩ := head
      exact .more derives ih

theorem readCall_sound (sound : inner.Sound fun e row => Derives (.expr .disjunction e) row) :
    (readCall inner).Sound fun e row => Derives (.expr .operand e) row := by
  have list : (Reader.commaSeparated (readArg inner)).Sound fun args row =>
      (args = [] ∧ row = []) ∨
        ∃ arg others first more comma, args = arg :: others ∧ row = first ++ (more ++ comma) ∧
          Derives (.arg arg) first ∧ Derives (.moreArgs others) more ∧
          (comma = [] ∨ comma = [.mark .comma]) := by
    apply Sound.orElse
    · apply (((readArg_sound sound).separated .comma).bind fun _ =>
        (Sound.mark .comma).optional.bind fun _ => Sound.pure _).mono
      rintro _ row ⟨_, _, _, rfl, ⟨arg, others, first, more, rfl, rfl, derives, rows⟩, _, comma, _,
        rfl, trailing, rfl, rfl⟩
      refine .inr ⟨arg, others, first, more, comma, rfl, ?_, derives, derives_moreArgs rows, ?_⟩
      · rw [List.append_nil, List.append_assoc]
      · rcases trailing with ⟨-, none⟩ | ⟨-, -, comma⟩
        · exact .inl none
        · exact .inr comma
    · exact (Sound.pure []).mono fun args row none => .inl none
  apply (Sound.ident.bind fun _ => list.parenthesized.bind fun _ => Sound.pure _).mono
  rintro e row ⟨function, _, _, rfl, rfl, args, _, _, rfl, ⟨taken, rfl, found⟩, rfl, rfl⟩
  rw [List.append_nil]
  rcases found with ⟨rfl, rfl⟩ | ⟨arg, others, first, more, comma, rfl, rfl, one, derives, trailing⟩
  · exact .emptyCall function
  · rw [List.append_assoc, List.append_assoc]
    exact .call function one derives trailing

theorem readAtom_sound (sound : inner.Sound fun e row => Derives (.expr .disjunction e) row) :
    (readAtom inner).Sound fun e row => Derives (.expr .operand e) row := by
  have parens : (Reader.parenthesized inner).Sound fun e row => Derives (.expr .operand e) row := by
    apply sound.parenthesized.mono
    rintro e row ⟨taken, rfl, derives⟩
    exact .parens derives
  exact readLiteral_sound.orElse ((readCall_sound sound).orElse (readPath_sound.orElse parens))

theorem readUnary_sound (sound : inner.Sound fun e row => Derives (.expr .disjunction e) row) :
    (readUnary inner).Sound fun e row => Derives (.expr .negation e) row := by
  apply ((Sound.keyword .notKw).many.bind fun _ =>
    (readAtom_sound sound).bind fun _ => Sound.pure _).mono
  rintro e row ⟨nots, _, _, rfl, ⟨rows, rfl, all⟩, operand, taken, _, rfl, derives, rfl, rfl⟩
  rw [List.append_nil]
  induction all with
  | nil => exact .tighter rfl derives
  | cons head _ ih =>
      subst head
      exact .not ih

theorem readComparison_sound
    (sound : inner.Sound fun e row => Derives (.expr .disjunction e) row) :
    (readComparison inner).Sound fun e row => Derives (.expr .comparison e) row := by
  have sign : readComparisonOp.Sound fun op row => op.level = .comparison ∧ row = [op.token] := by
    apply Sound.orElse
    · apply ((Sound.mark .equal).bind fun _ => Sound.pure _).mono
      rintro op row ⟨_, _, _, rfl, rfl, rfl, rfl⟩
      exact ⟨rfl, rfl⟩
    · apply ((Sound.mark .unequal).bind fun _ => Sound.pure _).mono
      rintro op row ⟨_, _, _, rfl, rfl, rfl, rfl⟩
      exact ⟨rfl, rfl⟩
  have unary := readUnary_sound sound
  have second := (sign.bind fun op => unary.bind fun right => Sound.pure (op, right)).optional
  intro tokens e rest found
  obtain ⟨left, afterLeft, leftFound, found⟩ := Reader.of_found_bind found
  obtain ⟨more?, afterMore, moreFound, found⟩ := Reader.of_found_bind found
  obtain ⟨leftRow, sameLeft, derives⟩ := unary _ _ _ leftFound
  obtain ⟨moreRow, sameMore, more⟩ := second _ _ _ moreFound
  refine ⟨leftRow ++ moreRow, ?_, ?_⟩
  · rw [sameLeft, sameMore, List.append_assoc]
    cases more? <;> cases found <;> rfl
  · rcases more with ⟨rfl, rfl⟩ |
      ⟨_, rfl, op, _, _, rfl, ⟨atLevel, rfl⟩, right, _, _, rfl, derivesRight, rfl, rfl⟩
    · cases found
      rw [List.append_nil]
      exact .tighter rfl derives
    · cases found
      rw [List.append_nil]
      cases op with
      | equal | unequal => exact .binary rfl derives derivesRight
      | and | or => cases atLevel

theorem readChain_sound {op : BinaryOp} {word : Keyword} {operand : Reader Expr}
    (isWord : op.token = .keyword word) (groupsLeft : op.leftLevel = op.level)
    (isNext : op.level.next? = some op.rightLevel)
    (sound : operand.Sound fun e row => Derives (.expr op.rightLevel e) row) :
    (readChain op word operand).Sound fun e row => Derives (.expr op.level e) row := by
  apply (sound.bind fun _ =>
    ((Sound.keyword word).bind fun _ => sound).many.bind fun _ => Sound.pure _).mono
  rintro e row ⟨first, taken, _, rfl, derives, others, _, _, rfl, ⟨rows, rfl, all⟩, rfl, rfl⟩
  rw [List.append_nil]
  -- by induction on the operands after the first: what is read so far is the left side of the next
  have start : Derives (.expr op.level first) taken := .tighter isNext derives
  clear derives
  induction all generalizing first taken with
  | nil =>
      rw [List.flatten_nil, List.append_nil]
      exact start
  | @cons right _ others rows head _ ih =>
      obtain ⟨_, _, rightRow, rfl, rfl, derivesRight⟩ := head
      have longer : Derives (.expr op.level (.binary op first right))
          (taken ++ op.token :: rightRow) := by
        apply Derives.binary rfl _ derivesRight
        rw [groupsLeft]
        exact start
      have whole := ih (.binary op first right) (taken ++ op.token :: rightRow) longer
      rw [isWord, List.append_assoc] at whole
      exact whole

theorem readNested_sound (depth : Nat) :
    (readNested depth).Sound fun e row => Derives (.expr .disjunction e) row := by
  induction depth with
  | zero =>
      intro tokens e rest found
      cases found
  | succ depth ih =>
      have comparison := readComparison_sound ih
      have conjunction := @readChain_sound .and .andKw _ rfl rfl rfl comparison
      exact @readChain_sound .or .orKw _ rfl rfl rfl conjunction

theorem read_sound : read.Sound fun e row => Derives (.expr .disjunction e) row :=
  fun tokens e rest found => readNested_sound _ tokens e rest found

end Expr

/-- The tokens that are read as an expression are those the grammar derives it from. -/
theorem isExpr_iff_derives {tokens : List (Spanned Token)} :
    IsExpr tokens e ↔ Derives (.expr .disjunction e) (plain tokens) := by
  constructor
  · intro whole
    obtain ⟨row, same, derives⟩ := Expr.read_sound _ _ _ whole
    rw [plain_nil, List.append_nil] at same
    rw [same]
    exact derives
  · intro derives
    have reads := Expr.readsAs_of_derives derives tokens.length (Nat.le_of_eq (length_plain tokens))
    obtain ⟨rest, found, none⟩ := reads.disjunction (stops_nil _) tokens (List.append_nil _).symm
    rw [plain_eq_nil.mp none] at found
    exact found

end ThemeRender.Template
