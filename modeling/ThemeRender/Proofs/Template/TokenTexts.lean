import ThemeRender.Proofs.Template.Lexing
import ThemeRender.Proofs.Template.QuotedText
/-!
The texts of tokens, class by class. What the code of a tag starts with is the longest such text, and
there is none where no token is found. A token is therefore the same wherever its text stands, as long
as what comes after does not make it longer; blanks never do.
-/

namespace ThemeRender.Template

/-- The texts that are one token, and which token they are. -/
inductive TokenText : Token → List Char → Prop
  | word {c : Char} {word : List Char} (starts : isNameStart c = true)
      (letters : ∀ d ∈ word, isNameChar d = true) : TokenText (wordToken (c :: word)) (c :: word)
  | mark (sign : Mark) : TokenText (.mark sign) sign.text.toList
  | string {quote : Char} {text contents : List Char} (isQuote : IsQuote quote)
      (body : QuotedBody quote text contents) :
      TokenText (.string (String.ofList contents)) (quote :: (text ++ [quote]))
  | number {c : Char} {whole : List Char} (digits : ∀ d ∈ c :: whole, d.isDigit = true) :
      TokenText (numberToken (c :: whole) []) (c :: whole)
  | decimal {c d : Char} {whole fraction : List Char}
      (digits : ∀ e ∈ c :: whole, e.isDigit = true)
      (fractionDigits : ∀ e ∈ d :: fraction, e.isDigit = true) :
      TokenText (numberToken (c :: whole) (d :: fraction)) (c :: (whole ++ '.' :: d :: fraction))

variable {c : Char} {s text rest after more : List Char} {token other : Token}

theorem IsQuote.classes (isQuote : IsQuote c) :
    isNameStart c = false ∧ c.isDigit = false ∧ isGap c = false := by
  rcases isQuote with rfl | rfl
  · decide
  · decide

theorem Mark.text_classes (sign : Mark) :
    ∃ c s, sign.text.toList = c :: s ∧ isNameStart c = false ∧ c.isDigit = false ∧ ¬ IsQuote c := by
  unfold IsQuote
  cases sign <;> exact ⟨_, _, rfl, by decide, by decide, by decide⟩

/-! The class of a text from its first character -/

theorem TokenText.ne_nil (tokenText : TokenText token text) : text ≠ [] := by
  cases tokenText with
  | mark sign =>
      obtain ⟨c, s, same, -⟩ := sign.text_classes
      rw [same]
      exact List.cons_ne_nil c s
  | _ => exact List.cons_ne_nil _ _

namespace TokenText

theorem of_nameStart (tokenText : TokenText token (c :: s)) (starts : isNameStart c = true) :
    ∀ d ∈ s, isNameChar d = true := by
  generalize same : c :: s = text at tokenText
  cases tokenText with
  | word _ letters =>
      cases same
      exact letters
  | mark sign =>
      obtain ⟨d, t, isText, noName, -⟩ := sign.text_classes
      rw [isText] at same
      cases same
      rw [starts] at noName
      cases noName
  | string isQuote =>
      cases same
      rw [isQuote.classes.1] at starts
      cases starts
  | number digits | decimal digits =>
      cases same
      rw [not_isNameStart_of_isDigit (digits c List.mem_cons_self)] at starts
      cases starts

theorem of_digit (tokenText : TokenText token (c :: s)) (digit : c.isDigit = true) :
    (∀ d ∈ s, d.isDigit = true) ∨ ∃ whole d fraction, s = whole ++ '.' :: d :: fraction ∧
      (∀ e ∈ whole, e.isDigit = true) ∧ ∀ e ∈ d :: fraction, e.isDigit = true := by
  generalize same : c :: s = text at tokenText
  cases tokenText with
  | word starts =>
      cases same
      rw [not_isNameStart_of_isDigit digit] at starts
      cases starts
  | mark sign =>
      obtain ⟨d, t, isText, -, noDigit, -⟩ := sign.text_classes
      rw [isText] at same
      cases same
      rw [digit] at noDigit
      cases noDigit
  | string isQuote =>
      cases same
      rw [isQuote.classes.2.1] at digit
      cases digit
  | number digits =>
      cases same
      exact .inl (List.forall_mem_cons.mp digits).2
  | decimal digits fractionDigits =>
      cases same
      exact .inr ⟨_, _, _, rfl, (List.forall_mem_cons.mp digits).2, fractionDigits⟩

theorem of_quote (tokenText : TokenText token (c :: s)) (isQuote : IsQuote c) :
    ∃ text contents, s = text ++ [c] ∧ QuotedBody c text contents := by
  obtain ⟨noName, noDigit, -⟩ := isQuote.classes
  generalize same : c :: s = text at tokenText
  cases tokenText with
  | word starts =>
      cases same
      rw [noName] at starts
      cases starts
  | mark sign =>
      obtain ⟨d, t, isText, -, -, noQuote⟩ := sign.text_classes
      rw [isText] at same
      cases same
      exact absurd isQuote noQuote
  | string _ body =>
      cases same
      exact ⟨_, _, rfl, body⟩
  | number digits | decimal digits =>
      cases same
      rw [digits c List.mem_cons_self] at noDigit
      cases noDigit

theorem of_other (tokenText : TokenText token (c :: s)) (noName : isNameStart c = false)
    (noDigit : c.isDigit = false) (noQuote : ¬ IsQuote c) :
    ∃ sign : Mark, sign.text.toList = c :: s := by
  generalize same : c :: s = text at tokenText
  cases tokenText with
  | word starts =>
      cases same
      rw [noName] at starts
      cases starts
  | mark sign => exact ⟨sign, rfl⟩
  | string isQuote =>
      cases same
      exact absurd isQuote noQuote
  | number digits | decimal digits =>
      cases same
      rw [digits c List.mem_cons_self] at noDigit
      cases noDigit

end TokenText

/-! The characters of tokens -/

/-- Whether a token that is no string can have the character. -/
def isTokenChar (c : Char) : Bool :=
  isNameChar c || c ∈ ['=', '!', '(', ')', ',', ':', '.']

theorem isTokenChar_of_isDigit (digit : c.isDigit = true) : isTokenChar c = true := by
  rw [isTokenChar, isNameChar_of_isDigit digit, Bool.true_or]

theorem not_isGap_of_isTokenChar (tokenChar : isTokenChar c = true) : isGap c = false := by
  rcases Bool.or_eq_true_iff.mp tokenChar with letter | sign
  · exact not_isGap_of_isNameChar letter
  · have signs : ∀ d ∈ ['=', '!', '(', ')', ',', ':', '.'], (!isGap d) = true :=
      List.all_eq_true.mp rfl
    simpa using signs c (of_decide_eq_true sign)

def IsBorder (c : Char) : Prop :=
  isTokenChar c = true ∨ IsQuote c

theorem IsBorder.not_isGap (border : IsBorder c) : isGap c = false := by
  rcases border with tokenChar | isQuote
  · exact not_isGap_of_isTokenChar tokenChar
  · exact isQuote.classes.2.2

namespace TokenText

theorem isTokenChar (tokenText : TokenText token (c :: s)) (noQuote : ¬ IsQuote c) :
    ∀ d ∈ c :: s, isTokenChar d = true := by
  have ofLetter {d : Char} (letter : isNameChar d = true) : Template.isTokenChar d = true := by
    rw [Template.isTokenChar, letter, Bool.true_or]
  generalize same : c :: s = text at tokenText
  cases tokenText with
  | word starts letters =>
      refine List.forall_mem_cons.mpr ⟨ofLetter (isNameChar_of_isNameStart starts), ?_⟩
      exact fun d member => ofLetter (letters d member)
  | mark sign => cases sign <;> exact List.all_eq_true.mp rfl
  | string isQuote =>
      cases same
      exact absurd isQuote noQuote
  | number digits => exact fun d member => isTokenChar_of_isDigit (digits d member)
  | decimal digits fractionDigits =>
      rw [← List.cons_append]
      have ofDigits {s : List Char} (digits : ∀ d ∈ s, d.isDigit = true) :
          ∀ d ∈ s, Template.isTokenChar d = true :=
        fun d member => isTokenChar_of_isDigit (digits d member)
      refine List.forall_mem_append.mpr ⟨ofDigits digits, ?_⟩
      exact List.forall_mem_cons.mpr ⟨rfl, ofDigits fractionDigits⟩

theorem head_isBorder (tokenText : TokenText token (c :: s)) : IsBorder c := by
  by_cases isQuote : IsQuote c
  · exact .inr isQuote
  · exact .inl (tokenText.isTokenChar isQuote c List.mem_cons_self)

theorem last_isBorder (tokenText : TokenText token text) {d : Char}
    (isLast : text.getLast? = some d) : IsBorder d := by
  obtain ⟨c, s, rfl⟩ := List.exists_cons_of_ne_nil tokenText.ne_nil
  by_cases isQuote : IsQuote c
  · obtain ⟨inner, contents, rfl, -⟩ := tokenText.of_quote isQuote
    rw [← List.cons_append, List.getLast?_concat] at isLast
    cases isLast
    exact .inr isQuote
  · exact .inl (tokenText.isTokenChar isQuote d (List.mem_of_getLast? isLast))

end TokenText

/-! What is read at the start of a text -/

theorem lexeme_quote (isQuote : IsQuote c) (rest : List Char) :
    lexeme c rest =
      ⟨(readQuoted c rest).contents?.map (.string <| String.ofList ·), c :: (readQuoted c rest).text,
        (readQuoted c rest).rest⟩ := by
  obtain ⟨noName, noDigit, -⟩ := isQuote.classes
  unfold lexeme
  have quoted : c = '"' ∨ c = '\'' := isQuote
  rw [if_neg (by simp [noName]), if_neg (by simp [noDigit]), if_pos quoted]

theorem lexeme_mark (sign : Mark) (rest : List Char) :
    ∃ c s, sign.text.toList = c :: s ∧
      lexeme c (s ++ rest) = ⟨some (.mark sign), sign.text.toList, rest⟩ := by
  cases sign <;> exact ⟨_, _, rfl, rfl⟩

theorem whole_prefix_numberLexeme (whole rest : List Char) :
    (∃ found, (numberLexeme whole rest).token? = some found) ∧
      whole <+: (numberLexeme whole rest).text := by
  unfold numberLexeme
  split
  · dsimp only
    split
    · exact ⟨⟨_, rfl⟩, List.prefix_rfl⟩
    · exact ⟨⟨_, rfl⟩, List.prefix_append _ _⟩
  · exact ⟨⟨_, rfl⟩, List.prefix_rfl⟩

theorem prefix_takeWhile {p : Char → Bool} (all : ∀ d ∈ s, p d = true) (front : s <+: rest) :
    s <+: rest.takeWhile p := by
  obtain ⟨t, rfl⟩ := front
  rw [List.takeWhile_append_of_pos all]
  exact List.prefix_append _ _

theorem number_le_lexeme (tokenText : TokenText token (c :: s)) (digit : c.isDigit = true)
    (front : s <+: rest) :
    (∃ found, (lexeme c rest).token? = some found) ∧
      (c :: s).length ≤ (lexeme c rest).text.length := by
  rw [(lexeme_digit digit rest).2]
  obtain ⟨isToken, whole⟩ :=
    whole_prefix_numberLexeme (c :: rest.takeWhile Char.isDigit) (rest.dropWhile Char.isDigit)
  refine ⟨isToken, ?_⟩
  rcases tokenText.of_digit digit with digits | ⟨whole, d, fraction, rfl, digits, fractionDigits⟩
  · have within := (prefix_takeWhile digits front).length_le
    exact Nat.le_trans (Nat.succ_le_succ within) whole.length_le
  · -- the digits end at the point, and the digits after it are a fraction
    obtain ⟨t, rfl⟩ := front
    have point : ∀ e, ('.' :: d :: fraction ++ t).head? = some e → e.isDigit = false := by
      rintro _ ⟨⟩
      rfl
    have taken : (d :: (fraction ++ t)).takeWhile Char.isDigit =
        d :: fraction ++ t.takeWhile Char.isDigit := by
      rw [← List.cons_append, List.takeWhile_append_of_pos fractionDigits]
    rw [List.append_assoc, Text.takeWhile_exact digits point, Text.dropWhile_exact digits point]
    simp only [List.cons_append, numberLexeme, taken, List.isEmpty_cons, Bool.false_eq_true, if_false]
    simp

theorem quoted_le_lexeme (tokenText : TokenText token (c :: s)) (isQuote : IsQuote c)
    (front : s <+: rest) :
    (∃ found, (lexeme c rest).token? = some found) ∧
      (c :: s).length ≤ (lexeme c rest).text.length := by
  obtain ⟨text, contents, rfl, body⟩ := tokenText.of_quote isQuote
  obtain ⟨t, rfl⟩ := front
  rw [lexeme_quote isQuote, List.append_assoc, List.singleton_append,
    body.readQuoted isQuote.not_escape]
  exact ⟨⟨_, rfl⟩, Nat.le_refl _⟩

theorem TokenText.le_lexeme (tokenText : TokenText token text) (front : text <+: c :: rest) :
    (∃ found, (lexeme c rest).token? = some found) ∧
      text.length ≤ (lexeme c rest).text.length := by
  obtain ⟨d, s, rfl⟩ := List.exists_cons_of_ne_nil tokenText.ne_nil
  obtain ⟨rfl, within⟩ := List.cons_prefix_cons.mp front
  by_cases starts : isNameStart d = true
  · have shorter := (prefix_takeWhile (tokenText.of_nameStart starts) within).length_le
    unfold lexeme
    rw [if_pos starts]
    exact ⟨⟨_, rfl⟩, Nat.succ_le_succ shorter⟩
  · by_cases digit : d.isDigit = true
    · exact number_le_lexeme tokenText digit within
    · by_cases isQuote : IsQuote d
      · exact quoted_le_lexeme tokenText isQuote within
      · obtain ⟨sign, same⟩ := tokenText.of_other (Bool.eq_false_iff.mpr starts)
          (Bool.eq_false_iff.mpr digit) isQuote
        obtain ⟨t, rfl⟩ := within
        obtain ⟨e, u, sameToo, found⟩ := lexeme_mark sign t
        rw [same] at sameToo
        cases sameToo
        rw [found, ← same]
        exact ⟨⟨_, rfl⟩, Nat.le_refl _⟩

/-! The tokens that are read -/

theorem tokenText_of_numberLexeme {whole : List Char} (digits : ∀ d ∈ c :: whole, d.isDigit = true)
    (found : (numberLexeme (c :: whole) rest).token? = some token) :
    TokenText token (numberLexeme (c :: whole) rest).text := by
  unfold numberLexeme at found ⊢
  split at found
  · rename_i tail
    dsimp only at found ⊢
    have fractionDigits : ∀ e ∈ tail.takeWhile Char.isDigit, e.isDigit = true :=
      List.all_eq_true.mp List.all_takeWhile
    cases isFraction : tail.takeWhile Char.isDigit with
    | nil =>
        rw [isFraction] at found
        cases found
        exact .number digits
    | cons d fraction =>
        rw [isFraction] at found fractionDigits
        cases found
        exact .decimal digits fractionDigits
  · cases found
    exact .number digits

theorem tokenText_of_equalsLexeme {sign : Mark} (isSign : sign.text.toList = [c, '='])
    (found : (equalsLexeme sign c rest).token? = some token) :
    TokenText token (equalsLexeme sign c rest).text := by
  unfold equalsLexeme at found ⊢
  split at found
  · cases found
    have whole := TokenText.mark sign
    rw [isSign] at whole
    exact whole
  · cases found

theorem text_of_mark? {sign : Mark} (isMark : mark? c = some sign) : sign.text.toList = [c] := by
  unfold mark? at isMark
  split at isMark
  all_goals
    cases isMark
    try rfl

theorem tokenText_of_lexeme (found : (lexeme c rest).token? = some token) :
    TokenText token (lexeme c rest).text := by
  have all {p : Char → Bool} : ∀ d ∈ rest.takeWhile p, p d = true :=
    List.all_eq_true.mp List.all_takeWhile
  unfold lexeme at found ⊢
  split at found
  · rename_i starts
    cases found
    rw [if_pos starts]
    exact .word starts all
  · rename_i noName
    rw [if_neg noName]
    split at found
    · rename_i digit
      rw [if_pos digit]
      apply tokenText_of_numberLexeme _ found
      exact List.forall_mem_cons.mpr ⟨digit, all⟩
    · rename_i noDigit
      rw [if_neg noDigit]
      split at found
      · rename_i isQuote
        rw [if_pos isQuote]
        obtain ⟨contents, closed, rfl⟩ := Option.map_eq_some_iff.mp found
        obtain ⟨text, same, body⟩ := body_of_readQuoted closed
        dsimp only
        rw [same]
        exact .string isQuote body
      · rename_i noQuote
        rw [if_neg noQuote]
        split at found
        · rename_i isEqual
          rw [if_pos isEqual]
          exact tokenText_of_equalsLexeme (by rw [isEqual]; rfl) found
        · rename_i notEqual
          rw [if_neg notEqual]
          split at found
          · rename_i isBang
            rw [if_pos isBang]
            exact tokenText_of_equalsLexeme (by rw [isBang]; rfl) found
          · rename_i notBang
            rw [if_neg notBang]
            obtain ⟨sign, isMark, rfl⟩ := Option.map_eq_some_iff.mp found
            have whole := TokenText.mark sign
            rw [text_of_mark? isMark] at whole
            exact whole

theorem TokenText.lexeme_alone (tokenText : TokenText token (c :: s)) :
    lexeme c s = ⟨some token, c :: s, []⟩ := by
  generalize same : c :: s = text at tokenText
  cases tokenText with
  | word starts letters =>
      cases same
      have found := @lexeme_word c s [] starts letters (by rintro _ ⟨⟩)
      rwa [List.append_nil] at found
  | mark sign =>
      obtain ⟨d, t, isText, found⟩ := lexeme_mark sign []
      rw [isText] at same
      cases same
      rwa [List.append_nil] at found
  | string isQuote body =>
      cases same
      rw [lexeme_quote isQuote, body.readQuoted isQuote.not_escape]
      rfl
  | number digits =>
      cases same
      obtain ⟨digit, more⟩ := List.forall_mem_cons.mp digits
      have ends : ∀ e, ([] : List Char).head? = some e → e.isDigit = false := by rintro _ ⟨⟩
      have taken := Text.takeWhile_exact more ends
      have left := Text.dropWhile_exact more ends
      rw [List.append_nil] at taken left
      rw [(lexeme_digit digit s).2, taken, left]
      rfl
  | @decimal _ d whole fraction digits fractionDigits =>
      cases same
      obtain ⟨digit, more⟩ := List.forall_mem_cons.mp digits
      have point : ∀ e, ('.' :: d :: fraction).head? = some e → e.isDigit = false := by
        rintro _ ⟨⟩
        rfl
      have fractionOnly := @numberLexeme_fraction [] (c :: whole) (d :: fraction)
        (List.cons_ne_nil _ _) fractionDigits (by rintro _ ⟨⟩)
      rw [List.append_nil] at fractionOnly
      rw [(lexeme_digit digit _).2, Text.takeWhile_exact more point, Text.dropWhile_exact more point,
        fractionOnly]
      rfl

theorem TokenText.unique (tokenText : TokenText token text) (tokenToo : TokenText other text) :
    token = other := by
  obtain ⟨c, s, rfl⟩ := List.exists_cons_of_ne_nil tokenText.ne_nil
  have same := tokenText.lexeme_alone.symm.trans tokenToo.lexeme_alone
  exact Option.some.inj (congrArg Lexeme.token? same)

/-- No part of what is `after` the text makes a longer token of it. -/
def EndsBefore (text after : List Char) : Prop :=
  ∀ more, more ≠ [] → more <+: after → ∀ token, ¬ TokenText token (text ++ more)

theorem EndsBefore.front {front : List Char} (ends : EndsBefore text after)
    (isFront : front <+: after) : EndsBefore text front :=
  fun more some within => ends more some (within.trans isFront)

/-- A token is read just where its text stands and nothing after it makes it longer. -/
theorem lexeme_eq_iff :
    lexeme c (s ++ after) = ⟨some token, c :: s, after⟩ ↔
      TokenText token (c :: s) ∧ EndsBefore (c :: s) after := by
  constructor
  · intro found
    have tokenText := tokenText_of_lexeme (congrArg Lexeme.token? found)
    rw [found] at tokenText
    refine ⟨tokenText, ?_⟩
    intro more some within other longer
    have front : (c :: s) ++ more <+: c :: (s ++ after) :=
      List.prefix_append_right_inj (c :: s) |>.mpr within
    have shorter : (c :: s ++ more).length ≤ (c :: s).length := by
      have le := (longer.le_lexeme front).2
      rwa [found] at le
    rw [List.length_append] at shorter
    have positive := List.length_pos_iff.mpr some
    omega
  · rintro ⟨tokenText, ends⟩
    have front : c :: s <+: c :: (s ++ after) := List.prefix_append (c :: s) after
    obtain ⟨⟨found, isFound⟩, shorter⟩ := tokenText.le_lexeme front
    have whole := lexeme_text_append_rest c (s ++ after)
    have foundText := tokenText_of_lexeme isFound
    -- what is read starts with the text, and nothing can be left of it
    obtain ⟨more, isMore⟩ := List.prefix_of_prefix_length_le front ⟨_, whole⟩ shorter
    have split : more ++ (lexeme c (s ++ after)).rest = after := by
      rw [← isMore, List.append_assoc] at whole
      exact List.append_cancel_left whole
    have none : more = [] := by
      apply Classical.byContradiction
      intro some
      refine ends more some ⟨_, split⟩ found ?_
      rw [isMore]
      exact foundText
    subst none
    rw [List.append_nil] at isMore
    rw [← isMore] at foundText
    have same := foundText.unique tokenText
    generalize lexeme c (s ++ after) = read at *
    cases read
    simp_all

/-! Blanks after a token -/

theorem TokenText.more_not_gap (tokenText : TokenText token text)
    (longer : TokenText other (text ++ more)) : ∀ d ∈ more, isGap d = false := by
  obtain ⟨c, s, rfl⟩ := List.exists_cons_of_ne_nil tokenText.ne_nil
  by_cases isQuote : IsQuote c
  · -- a string ends at its quote
    obtain ⟨inner, contents, rfl, body⟩ := tokenText.of_quote isQuote
    have found : lexeme c (inner ++ [c] ++ more) =
        ⟨some (.string (String.ofList contents)), c :: (inner ++ [c]), more⟩ := by
      rw [lexeme_quote isQuote, List.append_assoc, List.singleton_append,
        body.readQuoted isQuote.not_escape]
      rfl
    have alone : lexeme c (inner ++ [c] ++ more) = _ := longer.lexeme_alone
    rw [found] at alone
    have none : more = [] := congrArg Lexeme.rest alone
    rw [none]
    exact fun d member => absurd member List.not_mem_nil
  · have solid := longer.isTokenChar isQuote
    intro d member
    apply not_isGap_of_isTokenChar
    exact solid d (List.mem_cons_of_mem c (List.mem_append_right s member))

theorem TokenText.endsBefore_gap {front gap : List Char} (tokenText : TokenText token text)
    (ends : EndsBefore text front) (gaps : ∀ d ∈ gap, isGap d = true) (some : gap ≠ [])
    (after : List Char) : EndsBefore text (front ++ gap ++ after) := by
  intro more someMore within other longer
  have solid := tokenText.more_not_gap longer
  obtain ⟨d, gap, rfl⟩ := List.exists_cons_of_ne_nil some
  obtain ⟨left, split⟩ := within
  rw [List.append_assoc] at split
  rcases List.append_eq_append_iff.mp split with ⟨between, isFront, -⟩ | ⟨beyond, isMore, isGapped⟩
  · exact ends more someMore ⟨between, isFront.symm⟩ other longer
  · cases beyond with
    | nil =>
        rw [List.append_nil] at isMore
        exact ends more someMore (isMore ▸ List.prefix_rfl) other longer
    | cons e beyond =>
        obtain ⟨rfl, -⟩ := List.cons.inj isGapped
        have noGap := solid d (isMore ▸ List.mem_append_right _ List.mem_cons_self)
        rw [gaps d List.mem_cons_self] at noGap
        cases noGap

end ThemeRender.Template
