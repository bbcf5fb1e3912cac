import ThemeRender.Template.Token
import ThemeRender.Text.Span

namespace ThemeRender.Template

def isGap (c : Char) : Bool :=
  c == ' ' || c == '\t' || c == '\n' || c == '\r'

def isNameStart (c : Char) : Bool :=
  c.isAlpha || c == '_'

def isNameChar (c : Char) : Bool :=
  c.isAlphanum || c == '_'

def unescape (c : Char) : Char :=
  match c with
  | 'n' => '\n'
  | 't' => '\t'
  | _ => c

/-- The part of a text up to the quote that closes a string, or as far as a string could go on. -/
structure Quoted where
  contents? : Option (List Char)
  text : List Char
  rest : List Char

def Quoted.prepend (text : List Char) (c : Char) (quoted : Quoted) : Quoted :=
  ⟨quoted.contents?.map (c :: ·), text ++ quoted.text, quoted.rest⟩

/-- Reads on after an opening quote. A backslash takes any character after it but a line feed. -/
def readQuoted (quote : Char) : List Char → Quoted
  | [] => ⟨none, [], []⟩
  | c :: rest =>
      if c = quote then ⟨some [], [c], rest⟩
      else if c = '\\' then
        match rest with
        | [] => ⟨none, [], [c]⟩
        | d :: rest =>
            if d = '\n' then ⟨none, [], c :: d :: rest⟩
            else (readQuoted quote rest).prepend [c, d] (unescape d)
      else (readQuoted quote rest).prepend [c] c

theorem readQuoted_text_append_rest (quote : Char) (s : List Char) :
    (readQuoted quote s).text ++ (readQuoted quote s).rest = s := by
  fun_induction readQuoted quote s <;> simp_all [Quoted.prepend]

/-- The first token of a text that starts with no gap, or what is there in place of one. -/
structure Lexeme where
  token? : Option Token
  text : List Char
  rest : List Char

def wordToken (word : List Char) : Token :=
  match Keyword.ofText? word with
  | some keyword => .keyword keyword
  | none => .ident (String.ofList word)

def numberToken (whole fraction : List Char) : Token :=
  .number (Decimal.ofScientific false (Nat.ofDigitChars 10 (whole ++ fraction) 0) (-fraction.length))

/-- A fraction is a point with digits after it; without digits the point is left alone. -/
def numberLexeme (whole rest : List Char) : Lexeme :=
  match rest with
  | '.' :: tail =>
      let fraction := tail.takeWhile Char.isDigit
      if fraction.isEmpty then ⟨some (numberToken whole []), whole, rest⟩
      else
        ⟨some (numberToken whole fraction), whole ++ '.' :: fraction, tail.dropWhile Char.isDigit⟩
  | _ => ⟨some (numberToken whole []), whole, rest⟩

def mark? (c : Char) : Option Mark :=
  match c with
  | '(' => some .leftParen
  | ')' => some .rightParen
  | ',' => some .comma
  | ':' => some .colon
  | '.' => some .dot
  | _ => none

def equalsLexeme (mark : Mark) (c : Char) (rest : List Char) : Lexeme :=
  match rest with
  | '=' :: tail => ⟨some (.mark mark), [c, '='], tail⟩
  | _ => ⟨none, [c], rest⟩

def lexeme (c : Char) (rest : List Char) : Lexeme :=
  if isNameStart c then
    let word := c :: rest.takeWhile isNameChar
    ⟨some (wordToken word), word, rest.dropWhile isNameChar⟩
  else if c.isDigit then
    numberLexeme (c :: rest.takeWhile Char.isDigit) (rest.dropWhile Char.isDigit)
  else if c = '"' ∨ c = '\'' then
    let quoted := readQuoted c rest
    ⟨quoted.contents?.map (.string <| String.ofList ·), c :: quoted.text, quoted.rest⟩
  else if c = '=' then equalsLexeme .equal c rest
  else if c = '!' then equalsLexeme .unequal c rest
  else ⟨(mark? c).map .mark, [c], rest⟩

theorem numberLexeme_text_append_rest (whole rest : List Char) :
    (numberLexeme whole rest).text ++ (numberLexeme whole rest).rest = whole ++ rest := by
  unfold numberLexeme
  split
  · dsimp only
    split <;> simp
  · rfl

theorem equalsLexeme_text_append_rest (mark : Mark) (c : Char) (rest : List Char) :
    (equalsLexeme mark c rest).text ++ (equalsLexeme mark c rest).rest = c :: rest := by
  unfold equalsLexeme
  split <;> rfl

theorem lexeme_text_append_rest (c : Char) (rest : List Char) :
    (lexeme c rest).text ++ (lexeme c rest).rest = c :: rest := by
  unfold lexeme
  split
  · simp
  · split
    · simp [numberLexeme_text_append_rest]
    · split
      · simp [readQuoted_text_append_rest]
      · split
        · exact equalsLexeme_text_append_rest _ _ _
        · split
          · exact equalsLexeme_text_append_rest _ _ _
          · rfl

theorem text_numberLexeme_ne_nil (c : Char) (whole rest : List Char) :
    (numberLexeme (c :: whole) rest).text ≠ [] := by
  unfold numberLexeme
  split
  · dsimp only
    split <;> simp
  · simp

theorem text_lexeme_ne_nil (c : Char) (rest : List Char) : (lexeme c rest).text ≠ [] := by
  unfold lexeme
  split
  · simp
  · split
    · exact text_numberLexeme_ne_nil _ _ _
    · unfold equalsLexeme
      repeat' split
      all_goals simp

theorem rest_lexeme_length_le (c : Char) (rest : List Char) :
    (lexeme c rest).rest.length ≤ rest.length := by
  have whole := congrArg List.length (lexeme_text_append_rest c rest)
  have positive := List.length_pos_iff.2 (text_lexeme_ne_nil c rest)
  simp only [List.length_append, List.length_cons] at whole
  omega

/-- The tokens of a text whose first byte is at `offset`, or the span of what is not a token. -/
def lexFrom (offset : Nat) (s : List Char) : Except Span (List (Spanned Token)) :=
  match s with
  | [] => .ok []
  | c :: rest =>
      if isGap c then lexFrom (offset + c.utf8Size) rest
      else
        let found := lexeme c rest
        let stop := offset + Text.byteLength found.text
        match found.token? with
        | none => .error ⟨offset, stop⟩
        | some token => (lexFrom stop found.rest).map (⟨token, ⟨offset, stop⟩⟩ :: ·)
termination_by s.length
decreasing_by
  · simp
  · have := rest_lexeme_length_le c rest
    simp only [List.length_cons]
    omega

def lex (code : List Char) : Except Span (List (Spanned Token)) :=
  lexFrom 0 code

end ThemeRender.Template
