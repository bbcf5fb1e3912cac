import ThemeRender.Proofs.Template.Grammar
import ThemeRender.Proofs.Template.Lexing
import ThemeRender.Proofs.Template.QuotedText
import ThemeRender.Proofs.Template.Yielding
import ThemeRender.Proofs.Text.Marks
/-!
Expressions as they are written: the digits of their numbers are kept, and parentheses stand where
the levels of the operators ask for them and nowhere else. `Spells` says which tokens a text is made
of, with one lemma for each kind of token.
-/

namespace ThemeRender.Template

structure Name where
  first : Char
  rest : List Char
  starts : isNameStart first = true
  letters : ∀ c ∈ rest, isNameChar c = true
  noKeyword : Keyword.ofText? (first :: rest) = none

def Name.text (name : Name) : List Char :=
  name.first :: name.rest

def Name.string (name : Name) : String :=
  String.ofList name.text

/-- The digits of a number; one without a fraction has no point either. -/
structure Numeral where
  first : Char
  whole : List Char
  fraction : List Char
  digits : ∀ c ∈ first :: whole ++ fraction, c.isDigit = true

def Numeral.text (numeral : Numeral) : List Char :=
  numeral.first :: numeral.whole ++
    if numeral.fraction = [] then [] else '.' :: numeral.fraction

def Numeral.value (numeral : Numeral) : Float :=
  Decimal.ofScientific false
    (Nat.ofDigitChars 10 (numeral.first :: numeral.whole ++ numeral.fraction) 0)
    (-numeral.fraction.length)

inductive Literal where
  | null
  | bool (b : Bool)
  | string (contents : List Char)
  | number (numeral : Numeral)

def Literal.value : Literal → Value
  | .null => .null
  | .bool b => .bool b
  | .string contents => .string (String.ofList contents)
  | .number numeral => .number numeral.value

def Literal.token : Literal → Token
  | .null => .keyword .nullKw
  | .bool true => .keyword .trueKw
  | .bool false => .keyword .falseKw
  | .string contents => .string (String.ofList contents)
  | .number numeral => .number numeral.value

theorem Literal.literalOf?_token (literal : Literal) :
    Expr.literalOf? literal.token = some literal.value := by
  cases literal with
  | bool b => cases b <;> rfl
  | _ => rfl

/-- The contents of a string between quotes. The end of a tag is broken by a backslash. -/
def escape : List Char → List Char
  | [] => []
  | '%' :: '>' :: rest => '%' :: '\\' :: '>' :: escape rest
  | c :: rest => if c = '"' ∨ c = '\\' then '\\' :: c :: escape rest else c :: escape rest

def Literal.text : Literal → List Char
  | .null => "null".toList
  | .bool true => "true".toList
  | .bool false => "false".toList
  | .string contents => '"' :: escape contents ++ ['"']
  | .number numeral => numeral.text

mutual

inductive Written where
  | literal (literal : Literal)
  | path (name : Name) (fields : List Name)
  | not (operand : Written)
  | binary (op : BinaryOp) (left right : Written)
  | call (function : Name) (args : List WrittenArg)

inductive WrittenArg where
  | positional (value : Written)
  | named (name : Name) (value : Written)

end

mutual

def Written.expr : Written → Expr
  | .literal literal => .literal literal.value
  | .path name fields => .path (name.string :: fields.map Name.string)
  | .not operand => .not operand.expr
  | .binary op left right => .binary op left.expr right.expr
  | .call function args => .call function.string (WrittenArg.args args)

def WrittenArg.arg : WrittenArg → Arg
  | .positional value => .positional value.expr
  | .named name value => .named name.string value.expr

def WrittenArg.args : List WrittenArg → List Arg
  | [] => []
  | arg :: rest => arg.arg :: WrittenArg.args rest

end

def Written.level : Written → Level
  | .literal _ | .path _ _ | .call _ _ => .operand
  | .not _ => .negation
  | .binary op _ _ => op.level

def BinaryOp.text : BinaryOp → List Char
  | .or => "or".toList
  | .and => "and".toList
  | .equal => "==".toList
  | .unequal => "!=".toList

/-- An expression of the level `found`, in parentheses where one of the level `asked` has to
stand and it is looser than that. -/
def enclosed (found asked : Level) (text : List Char) : List Char :=
  if found.rank < asked.rank then '(' :: text ++ [')'] else text

mutual

def Written.text : Written → List Char
  | .literal literal => literal.text
  | .path name fields => name.text ++ fields.flatMap fun field => '.' :: field.text
  | .not operand => "not ".toList ++ enclosed operand.level .negation operand.text
  | .binary op left right =>
      enclosed left.level op.leftLevel left.text ++ ' ' :: op.text ++ ' ' ::
        enclosed right.level op.rightLevel right.text
  | .call function [] => function.text ++ ['(', ')']
  | .call function (arg :: args) =>
      function.text ++ '(' :: arg.text ++ WrittenArg.moreText args ++ [')']

def WrittenArg.text : WrittenArg → List Char
  | .positional value => value.text
  | .named name value => name.text ++ ':' :: ' ' :: value.text

def WrittenArg.moreText : List WrittenArg → List Char
  | [] => []
  | arg :: rest => ',' :: ' ' :: arg.text ++ WrittenArg.moreText rest

end

variable {rest : List Char} {row more : List Token} {e : Expr} {level : Level}

/-! The tokens of a text -/

/-- The text is made of the tokens of the row, wherever it starts. -/
def Spells (s : List Char) (row : List Token) : Prop :=
  ∀ offset, ∃ tokens, Lexes offset s tokens ∧ plain tokens = row

theorem Spells.nil : Spells [] [] :=
  fun offset => ⟨[], .nil offset, rfl⟩

theorem Spells.blank (spells : Spells rest row) : Spells (' ' :: rest) row := by
  intro offset
  obtain ⟨tokens, lexes, same⟩ := spells (offset + Char.utf8Size ' ')
  exact ⟨tokens, .gap rfl lexes, same⟩

theorem Spells.token {c : Char} {s text : List Char} {token : Token} (noGap : isGap c = false)
    (found : lexeme c s = ⟨some token, text, rest⟩) (spells : Spells rest row) :
    Spells (c :: s) (token :: row) := by
  intro offset
  obtain ⟨tokens, lexes, rfl⟩ := spells (offset + Text.byteLength text)
  have whole := @Lexes.token offset c s token tokens noGap (congrArg Lexeme.token? found)
  rw [found] at whole
  exact ⟨_, whole lexes, rfl⟩

theorem Spells.word {c : Char} {word : List Char} (start : isNameStart c = true)
    (letters : ∀ d ∈ word, isNameChar d = true)
    (ends : ∀ d, rest.head? = some d → isNameChar d = false) (spells : Spells rest row) :
    Spells (c :: word ++ rest) (wordToken (c :: word) :: row) :=
  spells.token (not_isGap_of_isNameStart start) (lexeme_word start letters ends)

theorem Spells.name (name : Name) (ends : ∀ d, rest.head? = some d → isNameChar d = false)
    (spells : Spells rest row) : Spells (name.text ++ rest) (.ident name.string :: row) := by
  have word := spells.word name.starts name.letters ends
  rw [wordToken, name.noKeyword] at word
  exact word

theorem Spells.leftParen (spells : Spells rest row) :
    Spells ('(' :: rest) (.mark .leftParen :: row) := spells.token rfl rfl

theorem Spells.rightParen (spells : Spells rest row) :
    Spells (')' :: rest) (.mark .rightParen :: row) := spells.token rfl rfl

theorem Spells.comma (spells : Spells rest row) :
    Spells (',' :: ' ' :: rest) (.mark .comma :: row) := spells.blank.token rfl rfl

theorem Spells.colon (spells : Spells rest row) :
    Spells (':' :: ' ' :: rest) (.mark .colon :: row) := spells.blank.token rfl rfl

theorem Spells.dot (spells : Spells rest row) : Spells ('.' :: rest) (.mark .dot :: row) :=
  spells.token rfl rfl

/-- What comes after an expression, so that it goes on no further. -/
def Delimited (s : List Char) : Prop :=
  ∀ c, s.head? = some c → c = ' ' ∨ c = ')' ∨ c = ','

theorem Delimited.no_name (delimited : Delimited rest) (c : Char) (first : rest.head? = some c) :
    isNameChar c = false := by
  rcases delimited c first with rfl | rfl | rfl
  all_goals rfl

theorem Delimited.no_digit (delimited : Delimited rest) (c : Char) (first : rest.head? = some c) :
    c.isDigit = false ∧ c ≠ '.' := by
  rcases delimited c first with rfl | rfl | rfl
  all_goals decide

theorem BinaryOp.spells (op : BinaryOp) (spells : Spells rest row) :
    Spells (' ' :: op.text ++ ' ' :: rest) (op.token :: row) := by
  have ends : ∀ d, (' ' :: rest).head? = some d → isNameChar d = false := by
    rintro _ ⟨⟩
    rfl
  cases op with
  | or => exact (spells.blank.word rfl (List.all_eq_true.mp rfl) ends).blank
  | and => exact (spells.blank.word rfl (List.all_eq_true.mp rfl) ends).blank
  | equal => exact (spells.blank.token rfl rfl).blank
  | unequal => exact (spells.blank.token rfl rfl).blank

/-! Numbers -/

theorem Numeral.spells (numeral : Numeral) (delimited : Delimited rest) (spells : Spells rest row) :
    Spells (numeral.text ++ rest) (.number numeral.value :: row) := by
  obtain ⟨first, whole, fraction, digits⟩ := numeral
  have wholeDigits : ∀ c ∈ whole, c.isDigit = true := fun c member =>
    digits c (List.mem_append_left fraction (List.mem_cons_of_mem first member))
  have fractionDigits : ∀ c ∈ fraction, c.isDigit = true := fun c member =>
    digits c (List.mem_append_right _ member)
  by_cases none : fraction = []
  · subst none
    have noDigit : ∀ c, rest.head? = some c → c.isDigit = false := fun c first =>
      (delimited.no_digit c first).1
    obtain ⟨noGap, found⟩ := lexeme_digit (digits first List.mem_cons_self) (whole ++ rest)
    rw [Text.takeWhile_exact wholeDigits noDigit, Text.dropWhile_exact wholeDigits noDigit,
      numberLexeme_whole _ fun c first => (delimited.no_digit c first).2] at found
    have spelt := spells.token noGap found
    simpa [Numeral.text, Numeral.value, numberToken] using spelt
  · have point : ∀ c, ('.' :: (fraction ++ rest)).head? = some c → c.isDigit = false := by
      rintro _ ⟨⟩
      rfl
    obtain ⟨noGap, found⟩ := lexeme_digit (digits first List.mem_cons_self)
      (whole ++ '.' :: (fraction ++ rest))
    rw [Text.takeWhile_exact wholeDigits point, Text.dropWhile_exact wholeDigits point,
      numberLexeme_fraction _ none fractionDigits fun c first => (delimited.no_digit c first).1]
      at found
    have spelt := spells.token noGap found
    simpa [Numeral.text, Numeral.value, numberToken, none] using spelt

/-! Strings -/

theorem escape_eq_escapeWith (contents : List Char) :
    escape contents = escapeWith '"' contents := by
  induction contents using escape.induct with
  | case1 => rfl
  | case2 after ih => rw [escape, escapeWith, ih]
  | case3 c after noEnd special ih =>
      rw [escape, escapeWith, if_pos special, if_pos special, ih]
      · exact noEnd
      · exact noEnd
  | case4 c after noEnd plain ih =>
      rw [escape, escapeWith, if_neg plain, if_neg plain, ih]
      · exact noEnd
      · exact noEnd

theorem readQuoted_escape (contents rest : List Char) :
    readQuoted '"' (escape contents ++ '"' :: rest) =
      ⟨some contents, escape contents ++ ['"'], rest⟩ := by
  rw [escape_eq_escapeWith]
  exact (quotedBody_escapeWith (.inl rfl) contents).readQuoted (by decide) rest

theorem Literal.spells (literal : Literal) (delimited : Delimited rest) (spells : Spells rest row) :
    Spells (literal.text ++ rest) (literal.token :: row) := by
  have word {c : Char} {word : List Char} (start : isNameStart c = true)
      (letters : ∀ d ∈ word, isNameChar d = true) :
      Spells (c :: word ++ rest) (wordToken (c :: word) :: row) :=
    spells.word start letters delimited.no_name
  cases literal with
  | null => exact word rfl (List.all_eq_true.mp rfl)
  | bool b => cases b with
    | true => exact word rfl (List.all_eq_true.mp rfl)
    | false => exact word rfl (List.all_eq_true.mp rfl)
  | string contents =>
      have found : lexeme '"' (escape contents ++ '"' :: rest) =
          ⟨some (.string (String.ofList contents)), '"' :: (escape contents ++ ['"']), rest⟩ := by
        simp [lexeme, readQuoted_escape, isNameStart]
      have spelt := spells.token rfl found
      simpa [Literal.text, Literal.token] using spelt
  | number numeral => exact numeral.spells delimited spells

end ThemeRender.Template
