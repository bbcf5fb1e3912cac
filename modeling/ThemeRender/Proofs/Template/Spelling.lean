import ThemeRender.Proofs.Template.TokenTexts
import ThemeRender.Proofs.Template.Written
import ThemeRender.Template.Segment
/-!
From written expressions to their tokens and back. `Written.speltBy`: the grammar derives an
expression from the tokens of its text. `Lexes.written`: whatever the grammar derives from the
tokens of a text can be written.
-/

namespace ThemeRender.Template

variable {s rest : List Char} {row : List Token} {e : Expr} {level : Level}

/-- The text is made of tokens that the grammar derives the phrase from, whatever delimited text
comes after it. -/
def Phrase.SpeltBy (phrase : Phrase) (text : List Char) : Prop :=
  ∃ row, Derives phrase row ∧
    ∀ rest more, Delimited rest → Spells rest more → Spells (text ++ rest) (row ++ more)

theorem delimited_cons {c : Char} (ends : c = ' ' ∨ c = ')' ∨ c = ',') (rest : List Char) :
    Delimited (c :: rest) := by
  rintro _ ⟨⟩
  exact ends

theorem delimited_moreText (args : List WrittenArg) (delimited : Delimited rest) :
    Delimited (WrittenArg.moreText args ++ rest) := by
  cases args with
  | nil => exact delimited
  | cons => exact delimited_cons (by decide) _

theorem Spells.fields {more : List Token} (fields : List Name) (delimited : Delimited rest)
    (spells : Spells rest more) :
    Spells ((fields.flatMap fun field => '.' :: field.text) ++ rest)
        (((fields.map Name.string).flatMap fun field => [.mark .dot, .ident field]) ++ more) ∧
      ∀ c, ((fields.flatMap fun field => '.' :: field.text) ++ rest).head? = some c →
        isNameChar c = false := by
  induction fields with
  | nil => exact ⟨spells, delimited.no_name⟩
  | cons field fields ih =>
      obtain ⟨after, ends⟩ := ih
      refine ⟨?_, ?_⟩
      · have spelt := (after.name field ends).dot
        simpa using spelt
      · rintro _ ⟨⟩
        rfl

namespace Phrase.SpeltBy

theorem literal (literal : Literal) :
    (Phrase.expr .operand (.literal literal.value)).SpeltBy literal.text := by
  refine ⟨[literal.token], .literal literal.literalOf?_token, ?_⟩
  intro rest more delimited spells
  exact literal.spells delimited spells

theorem path (name : Name) (fields : List Name) :
    (Phrase.expr .operand (.path (name.string :: fields.map Name.string))).SpeltBy
      (name.text ++ fields.flatMap fun field => '.' :: field.text) := by
  refine ⟨_, .path name.string (fields.map Name.string), ?_⟩
  intro rest more delimited spells
  obtain ⟨spelt, ends⟩ := Spells.fields fields delimited spells
  rw [List.append_assoc]
  exact spelt.name name ends

theorem enclosed {found : Level} {text : List Char} (spelt : (Phrase.expr found e).SpeltBy text)
    (asked : Level) : (Phrase.expr asked e).SpeltBy (Template.enclosed found asked text) := by
  obtain ⟨row, derives, spells⟩ := spelt
  unfold Template.enclosed
  split
  · rename_i looser
    have parens := Derives.parens (derives.loosen (Nat.zero_le _))
    refine ⟨_, parens.loosen (by cases asked <;> decide), ?_⟩
    intro rest more delimited after
    have inner := (spells _ _ (delimited_cons (by decide) rest) after.rightParen).leftParen
    simpa using inner
  · rename_i tight
    exact ⟨row, derives.loosen (Nat.le_of_not_lt tight), spells⟩

theorem not {text : List Char} (spelt : (Phrase.expr .negation e).SpeltBy text) :
    (Phrase.expr .negation (.not e)).SpeltBy ("not ".toList ++ text) := by
  obtain ⟨row, derives, spells⟩ := spelt
  refine ⟨_, .not derives, ?_⟩
  intro rest more delimited after
  have operand := (spells rest more delimited after).blank
  exact @Spells.word _ _ 'n' ['o', 't'] rfl (List.all_eq_true.mp rfl) (by rintro _ ⟨⟩; rfl) operand

theorem binary {op : BinaryOp} {left right : Expr} {text rightText : List Char}
    (first : (Phrase.expr op.leftLevel left).SpeltBy text)
    (second : (Phrase.expr op.rightLevel right).SpeltBy rightText) :
    (Phrase.expr op.level (.binary op left right)).SpeltBy
      (text ++ ' ' :: op.text ++ ' ' :: rightText) := by
  obtain ⟨leftRow, derives, spells⟩ := first
  obtain ⟨rightRow, derivesRight, spellsRight⟩ := second
  refine ⟨_, .binary rfl derives derivesRight, ?_⟩
  intro rest more delimited after
  have whole := spells _ _ (delimited_cons (by decide) _)
    (op.spells (spellsRight rest more delimited after))
  simpa using whole

theorem emptyCall (function : Name) :
    (Phrase.expr .operand (.call function.string [])).SpeltBy (function.text ++ ['(', ')']) := by
  refine ⟨_, .emptyCall function.string, ?_⟩
  intro rest more delimited after
  rw [List.append_assoc]
  exact after.rightParen.leftParen.name function (by rintro _ ⟨⟩; rfl)

theorem call (function : Name) {arg : Arg} {args : List WrittenArg} {text : List Char}
    (first : (Phrase.arg arg).SpeltBy text)
    (others : (Phrase.moreArgs (WrittenArg.args args)).SpeltBy (WrittenArg.moreText args)) :
    (Phrase.expr .operand (.call function.string (arg :: WrittenArg.args args))).SpeltBy
      (function.text ++ '(' :: text ++ WrittenArg.moreText args ++ [')']) := by
  obtain ⟨row, derives, spells⟩ := first
  obtain ⟨moreRow, derivesMore, spellsMore⟩ := others
  refine ⟨_, .call function.string derives derivesMore (.inl rfl), ?_⟩
  intro rest more delimited after
  have closing := @delimited_cons ')' (by decide) rest
  have inner := spells _ _ (delimited_moreText args closing)
    (spellsMore _ _ closing after.rightParen)
  have whole := inner.leftParen.name function (by rintro _ ⟨⟩; rfl)
  simpa using whole

theorem positional {text : List Char} (spelt : (Phrase.expr level e).SpeltBy text) :
    (Phrase.arg (.positional e)).SpeltBy text := by
  obtain ⟨row, derives, spells⟩ := spelt
  exact ⟨row, .positional (derives.loosen (Nat.zero_le _)), spells⟩

theorem named (name : Name) {text : List Char} (spelt : (Phrase.expr level e).SpeltBy text) :
    (Phrase.arg (.named name.string e)).SpeltBy (name.text ++ ':' :: ' ' :: text) := by
  obtain ⟨row, derives, spells⟩ := spelt
  refine ⟨_, .named name.string (derives.loosen (Nat.zero_le _)), ?_⟩
  intro rest more delimited after
  rw [List.append_assoc]
  exact (spells rest more delimited after).colon.name name (by rintro _ ⟨⟩; rfl)

theorem noMore : (Phrase.moreArgs []).SpeltBy [] :=
  ⟨[], .noMore, fun _ _ _ after => after⟩

theorem more {arg : Arg} {args : List WrittenArg} {text : List Char}
    (next : (Phrase.arg arg).SpeltBy text)
    (others : (Phrase.moreArgs (WrittenArg.args args)).SpeltBy (WrittenArg.moreText args)) :
    (Phrase.moreArgs (arg :: WrittenArg.args args)).SpeltBy
      (',' :: ' ' :: text ++ WrittenArg.moreText args) := by
  obtain ⟨row, derives, spells⟩ := next
  obtain ⟨moreRow, derivesMore, spellsMore⟩ := others
  refine ⟨_, .more derives derivesMore, ?_⟩
  intro rest more delimited after
  have inner := spells _ _ (delimited_moreText args delimited)
    (spellsMore rest more delimited after)
  simpa using inner.comma

end Phrase.SpeltBy

mutual

theorem Written.speltBy : ∀ w : Written, (Phrase.expr w.level w.expr).SpeltBy w.text
  | .literal literal => .literal literal
  | .path name fields => .path name fields
  | .not operand => (operand.speltBy.enclosed .negation).not
  | .binary op left right =>
      .binary (left.speltBy.enclosed op.leftLevel) (right.speltBy.enclosed op.rightLevel)
  | .call function [] => .emptyCall function
  | .call function (arg :: args) => .call function arg.speltBy (WrittenArg.speltBy_more args)

theorem WrittenArg.speltBy : ∀ arg : WrittenArg, (Phrase.arg arg.arg).SpeltBy arg.text
  | .positional value => value.speltBy.positional
  | .named name value => value.speltBy.named name

theorem WrittenArg.speltBy_more : ∀ args : List WrittenArg,
    (Phrase.moreArgs (WrittenArg.args args)).SpeltBy (WrittenArg.moreText args)
  | [] => .noMore
  | arg :: rest => .more arg.speltBy (WrittenArg.speltBy_more rest)

end

/-! No end of a tag -/

/-- The end of a tag stands nowhere in the text and does not arise from what comes before it. -/
def Closed (s : List Char) : Prop :=
  Text.Lacks tagClose s ∧ s.head? ≠ some '>'

theorem Closed.append {t : List Char} (closed : Closed s) (closedToo : Closed t) :
    Closed (s ++ t) := by
  refine ⟨closed.1.append closedToo.1 (.inr closedToo.2), ?_⟩
  cases s with
  | nil => exact closedToo.2
  | cons => exact closed.2

theorem Closed.cons {c : Char} (closed : Closed s) (other : c ≠ '>') : Closed (c :: s) := by
  refine ⟨Text.lacks_cons.mpr ⟨?_, closed.1⟩, by simpa using other⟩
  rintro ⟨-, starts⟩
  exact closed.2 starts

theorem closed_of_not_mem (absent : '>' ∉ s) : Closed s := by
  refine ⟨Text.lacks_of_not_mem_right absent, ?_⟩
  intro starts
  exact absent (List.mem_of_head? starts)

theorem Name.closed (name : Name) : Closed name.text := by
  apply closed_of_not_mem
  intro member
  rcases List.mem_cons.mp member with first | rest
  · have starts := name.starts
    rw [← first] at starts
    cases starts
  · cases name.letters '>' rest

theorem Numeral.closed (numeral : Numeral) : Closed numeral.text := by
  have noEnd : ∀ c, c.isDigit = true → c ≠ '>' := by
    rintro _ digit rfl
    cases digit
  apply closed_of_not_mem
  intro member
  have digit := numeral.digits '>'
  unfold Numeral.text at member
  split at member
  · simp only [List.append_nil] at member
    exact noEnd _ (digit (List.mem_append_left _ member)) rfl
  · rcases List.mem_append.mp member with whole | fraction
    · exact noEnd _ (digit (List.mem_append_left _ whole)) rfl
    · rcases List.mem_cons.mp fraction with point | fraction
      · cases point
      · exact noEnd _ (digit (List.mem_append_right _ fraction)) rfl

theorem escapeWith_closed {quote : Char} (isQuote : IsQuote quote) (contents : List Char) :
    Closed (quote :: escapeWith quote contents) := by
  suffices inner : Text.Lacks tagClose (escapeWith quote contents) ∧
      ((escapeWith quote contents).head? = some '>' → contents.head? = some '>') by
    have noEnd : quote ≠ '%' ∧ quote ≠ '>' := by
      rcases isQuote with rfl | rfl
      · decide
      · decide
    exact ⟨inner.1.cons noEnd.1, by simpa using noEnd.2⟩
  induction contents using escapeWith.induct quote with
  | case1 => exact ⟨Text.lacks_nil, by simp [escapeWith]⟩
  | case2 after ih =>
      rw [escapeWith]
      refine ⟨?_, by simp⟩
      have afterEscape : Text.Lacks tagClose ('\\' :: '>' :: escapeWith quote after) :=
        (ih.1.cons (by decide)).cons (by decide)
      exact Text.lacks_cons.mpr ⟨by simp, afterEscape⟩
  | case3 c after noEnd special ih =>
      rw [escapeWith, if_pos special]
      · refine ⟨?_, by simp⟩
        apply Text.Lacks.cons _ (by decide)
        apply ih.1.cons
        rintro rfl
        rcases special with same | same
        · rcases isQuote with rfl | rfl
          · cases same
          · cases same
        · cases same
      · exact noEnd
  | case4 c after noEnd plain ih =>
      rw [escapeWith, if_neg plain]
      · refine ⟨Text.lacks_cons.mpr ⟨?_, ih.1⟩, by simp⟩
        rintro ⟨rfl, starts⟩
        cases after with
        | nil => cases starts
        | cons d rest =>
            have same := ih.2 starts
            exact noEnd rest rfl (by simpa using same)
      · exact noEnd

theorem escape_closed (contents : List Char) : Closed ('"' :: escape contents) := by
  rw [escape_eq_escapeWith]
  exact escapeWith_closed (.inl rfl) contents

theorem Literal.closed (literal : Literal) : Closed literal.text := by
  cases literal with
  | null => exact closed_of_not_mem (by decide)
  | bool b => cases b <;> exact closed_of_not_mem (by decide)
  | string contents => exact (escape_closed contents).append (closed_of_not_mem (by decide))
  | number numeral => exact numeral.closed

theorem BinaryOp.closed (op : BinaryOp) : Closed op.text := by
  cases op <;> exact closed_of_not_mem (by decide)

theorem Closed.enclosed {found : Level} (closed : Closed s) (asked : Level) :
    Closed (enclosed found asked s) := by
  unfold Template.enclosed
  split
  · exact (closed.append (closed_of_not_mem (by decide))).cons (by decide)
  · exact closed

theorem fields_closed (fields : List Name) :
    Closed (fields.flatMap fun field => '.' :: field.text) := by
  induction fields with
  | nil => exact closed_of_not_mem (by decide)
  | cons field fields ih => exact (field.closed.append ih).cons (by decide)

mutual

theorem Written.closed : ∀ w : Written, Closed w.text
  | .literal literal => literal.closed
  | .path name fields => name.closed.append (fields_closed fields)
  | .not operand => (closed_of_not_mem (by decide)).append (operand.closed.enclosed .negation)
  | .binary op left right =>
      ((left.closed.enclosed op.leftLevel).append (op.closed.cons (by decide))).append
        ((right.closed.enclosed op.rightLevel).cons (by decide))
  | .call function [] => function.closed.append (closed_of_not_mem (by decide))
  | .call function (arg :: args) =>
      ((function.closed.append (arg.closed.cons (by decide))).append
        (WrittenArg.closed_more args)).append (closed_of_not_mem (by decide))

theorem WrittenArg.closed : ∀ arg : WrittenArg, Closed arg.text
  | .positional value => value.closed
  | .named name value =>
      name.closed.append ((value.closed.cons (by decide)).cons (by decide))

theorem WrittenArg.closed_more : ∀ args : List WrittenArg, Closed (WrittenArg.moreText args)
  | [] => closed_of_not_mem (by decide)
  | arg :: rest =>
      ((arg.closed.cons (by decide)).cons (by decide)).append (WrittenArg.closed_more rest)

end

/-! What is read can be written -/

def Token.IsWritten : Token → Prop
  | .ident name => ∃ written : Name, written.string = name
  | .number x => ∃ numeral : Numeral, numeral.value = x
  | _ => True

theorem wordToken_isWritten {c : Char} {word : List Char} (starts : isNameStart c = true)
    (letters : ∀ d ∈ word, isNameChar d = true) : (wordToken (c :: word)).IsWritten := by
  unfold wordToken
  split
  · trivial
  · rename_i noKeyword
    exact ⟨⟨c, word, starts, letters, noKeyword⟩, rfl⟩

theorem numberToken_isWritten {c : Char} {whole fraction : List Char}
    (digits : ∀ d ∈ c :: whole ++ fraction, d.isDigit = true) :
    (numberToken (c :: whole) fraction).IsWritten :=
  ⟨⟨c, whole, fraction, digits⟩, rfl⟩

theorem TokenText.isWritten {token : Token} {text : List Char} (tokenText : TokenText token text) :
    token.IsWritten := by
  cases tokenText with
  | word starts letters => exact wordToken_isWritten starts letters
  | mark | string => trivial
  | number digits => exact numberToken_isWritten (by simpa using digits)
  | decimal digits fractionDigits =>
      exact numberToken_isWritten (List.forall_mem_append.mpr ⟨digits, fractionDigits⟩)

theorem Lexes.isWritten {offset : Nat} {tokens : List (Spanned Token)}
    (lexes : Lexes offset s tokens) : ∀ token ∈ plain tokens, token.IsWritten := by
  induction lexes with
  | nil => simp
  | gap _ _ ih => exact ih
  | token _ found _ ih =>
      rw [plain_cons, List.forall_mem_cons]
      exact ⟨(tokenText_of_lexeme found).isWritten, ih⟩

def Phrase.IsWritten : Phrase → Prop
  | .expr _ e => ∃ w : Written, w.expr = e
  | .arg a => ∃ w : WrittenArg, w.arg = a
  | .moreArgs args => ∃ list, WrittenArg.args list = args

theorem literal_isWritten {token : Token} {value : Value}
    (isLiteral : Expr.literalOf? token = some value) (isWritten : token.IsWritten) :
    ∃ literal : Literal, literal.value = value := by
  unfold Expr.literalOf? at isLiteral
  split at isLiteral
  all_goals cases isLiteral
  · rename_i contents
    exact ⟨.string contents.toList, by simp [Literal.value]⟩
  · obtain ⟨numeral, rfl⟩ := isWritten
    exact ⟨.number numeral, rfl⟩
  · exact ⟨.bool true, rfl⟩
  · exact ⟨.bool false, rfl⟩
  · exact ⟨.null, rfl⟩

theorem fields_isWritten {fields : List String}
    (spelt : ∀ token ∈ fields.flatMap fun field => [Token.mark .dot, .ident field],
      token.IsWritten) : ∃ names : List Name, names.map Name.string = fields := by
  induction fields with
  | nil => exact ⟨[], rfl⟩
  | cons field fields ih =>
      simp only [List.flatMap_cons, List.forall_mem_append, List.forall_mem_cons] at spelt
      obtain ⟨⟨-, ⟨name, rfl⟩, -⟩, more⟩ := spelt
      obtain ⟨names, rfl⟩ := ih more
      exact ⟨name :: names, rfl⟩

theorem Derives.isWritten {phrase : Phrase} (derives : Derives phrase row)
    (spelt : ∀ token ∈ row, token.IsWritten) : phrase.IsWritten := by
  induction derives with
  | literal isLiteral =>
      obtain ⟨literal, rfl⟩ := literal_isWritten isLiteral (spelt _ List.mem_cons_self)
      exact ⟨.literal literal, rfl⟩
  | path name fields =>
      obtain ⟨⟨name, rfl⟩, more⟩ := List.forall_mem_cons.mp spelt
      obtain ⟨fields, rfl⟩ := fields_isWritten more
      exact ⟨.path name fields, rfl⟩
  | emptyCall function =>
      obtain ⟨name, rfl⟩ := spelt _ List.mem_cons_self
      exact ⟨.call name [], rfl⟩
  | call function first others trailing ihFirst ihOthers =>
      simp only [List.forall_mem_cons, List.forall_mem_append] at spelt
      obtain ⟨⟨name, rfl⟩, -, row, more, -⟩ := spelt
      obtain ⟨arg, rfl⟩ := ihFirst row
      obtain ⟨args, rfl⟩ := ihOthers more
      exact ⟨.call name (arg :: args), rfl⟩
  | parens inner ih =>
      simp only [List.forall_mem_cons, List.forall_mem_append] at spelt
      exact ih spelt.2.1
  | not operand ih =>
      obtain ⟨w, rfl⟩ := ih (List.forall_mem_cons.mp spelt).2
      exact ⟨.not w, rfl⟩
  | @binary op _ _ _ _ _ _ first second ihFirst ihSecond =>
      rw [List.forall_mem_append, List.forall_mem_cons] at spelt
      obtain ⟨left, rfl⟩ := ihFirst spelt.1
      obtain ⟨right, rfl⟩ := ihSecond spelt.2.2
      exact ⟨.binary op left right, rfl⟩
  | tighter isNext derives ih => exact ih spelt
  | positional value ih =>
      obtain ⟨w, rfl⟩ := ih spelt
      exact ⟨.positional w, rfl⟩
  | named name value ih =>
      simp only [List.forall_mem_cons] at spelt
      obtain ⟨⟨written, rfl⟩, -, row⟩ := spelt
      obtain ⟨w, rfl⟩ := ih row
      exact ⟨.named written w, rfl⟩
  | noMore => exact ⟨[], rfl⟩
  | more next others ihNext ihOthers =>
      simp only [List.forall_mem_cons, List.forall_mem_append] at spelt
      obtain ⟨arg, rfl⟩ := ihNext spelt.2.1
      obtain ⟨args, rfl⟩ := ihOthers spelt.2.2
      exact ⟨arg :: args, rfl⟩

end ThemeRender.Template
