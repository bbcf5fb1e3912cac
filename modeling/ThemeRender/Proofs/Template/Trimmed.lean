import ThemeRender.Proofs.Template.Parts
import ThemeRender.Proofs.Template.Written
import ThemeRender.Proofs.Text.Lines
/-!
The tokens of a code without the blanks around it, and how the code starts. There are more blank
characters than those between tokens, but the others stand in strings only.
-/

namespace ThemeRender.Template

variable {c blank : Char} {s rest : List Char} {row : List Token} {token : Token}

/-! Blank characters -/

theorem not_blank_of_nameChar (letter : isNameChar c = true) : Text.isBlank c = false := by
  rcases Bool.or_eq_true_iff.mp letter with alphanum | bar
  · exact Text.not_blank_of_isAlphanum alphanum
  · rw [beq_iff_eq.mp bar]
    decide

theorem not_nameChar_of_blank (isBlank : Text.isBlank c = true) : isNameChar c = false := by
  rw [Bool.eq_false_iff]
  intro letter
  rw [not_blank_of_nameChar letter] at isBlank
  cases isBlank

theorem IsBorder.not_blank (border : IsBorder c) : Text.isBlank c = false := by
  rcases border with tokenChar | isQuote
  · rcases Bool.or_eq_true_iff.mp tokenChar with letter | sign
    · exact not_blank_of_nameChar letter
    · have signs : ∀ d ∈ ['=', '!', '(', ')', ',', ':', '.'], (!Text.isBlank d) = true :=
        List.all_eq_true.mp rfl
      simpa using signs c (of_decide_eq_true sign)
  · rcases isQuote with rfl | rfl
    · rfl
    · rfl

theorem lexeme_of_blank (isBlank : Text.isBlank c = true) (rest : List Char) :
    (lexeme c rest).token? = none := by
  cases found : (lexeme c rest).token? with
  | none => rfl
  | some token =>
      have tokenText := tokenText_of_lexeme found
      obtain ⟨t, isText⟩ := exists_text_lexeme c rest
      rw [isText] at tokenText
      rw [tokenText.head_isBorder.not_blank] at isBlank
      cases isBlank

theorem isBlank_of_gap (gap : isGap c = true) : Text.isBlank c = true := by
  simp only [isGap, Bool.or_eq_true, beq_iff_eq, or_assoc] at gap
  rcases gap with rfl | rfl | rfl | rfl <;> rfl

/-! A blank at the end -/

theorem rest_of_append_blank (isBlank : Text.isBlank blank = true)
    (found : (lexeme c rest).token? = some token) (split : c :: rest = s ++ [blank]) :
    ∃ front, (lexeme c rest).rest = front ++ [blank] ∧ s = (lexeme c rest).text ++ front := by
  have whole := (lexeme_text_append_rest c rest).trans split
  rcases List.eq_nil_or_concat (lexeme c rest).rest with none | ⟨front, last, isRest⟩
  · rw [none, List.append_nil] at whole
    have isLast : (lexeme c rest).text.getLast? = some blank := by
      rw [whole, List.getLast?_concat]
    rw [((tokenText_of_lexeme found).last_isBorder isLast).not_blank] at isBlank
    cases isBlank
  · rw [List.concat_eq_append] at isRest
    rw [isRest, ← List.append_assoc] at whole
    obtain ⟨same, sameLast⟩ := List.append_inj' whole rfl
    cases sameLast
    exact ⟨front, isRest, same.symm⟩

theorem Lexes.of_append_blank (isBlank : Text.isBlank blank = true) {offset : Nat}
    {tokens : List (Spanned Token)} (lexes : Lexes offset (s ++ [blank]) tokens) :
    Lexes offset s tokens := by
  generalize whole : s ++ [blank] = text at lexes
  induction lexes generalizing s with
  | nil => simp at whole
  | @gap offset c rest tokens gap after ih =>
      cases s with
      | nil =>
          cases whole
          cases after
          exact .nil _
      | cons d s =>
          cases whole
          exact .gap gap (ih rfl)
  | @token offset c rest token tokens noGap found after ih =>
      obtain ⟨front, isRest, rfl⟩ := rest_of_append_blank isBlank found whole.symm
      have ends := (endsBefore_lexeme found).front ⟨[blank], isRest.symm⟩
      exact .ofToken (tokenText_of_lexeme found) ends (ih isRest.symm)

/-! The tokens of a text, wherever it starts -/

theorem Spells.gap (isGap : isGap c = true) (spells : Spells rest row) :
    Spells (c :: rest) row := by
  intro offset
  obtain ⟨tokens, lexes, same⟩ := spells (offset + c.utf8Size)
  exact ⟨tokens, .gap isGap lexes, same⟩

theorem Lexes.spells {offset : Nat} {tokens : List (Spanned Token)}
    (lexes : Lexes offset s tokens) : Spells s (plain tokens) := by
  induction lexes with
  | nil => exact .nil
  | gap gap _ ih => exact ih.gap gap
  | @token _ c rest token _ noGap found _ ih =>
      have same : lexeme c rest =
          ⟨some token, (lexeme c rest).text, (lexeme c rest).rest⟩ := by rw [← found]
      exact Spells.token noGap same ih

namespace Spells

theorem append_blank (spells : Spells s row) : Spells (s ++ [' ']) row := by
  obtain ⟨tokens, lexes, rfl⟩ := spells 0
  exact lexes.append_blank.spells

theorem padded (spells : Spells s row) : Spells (' ' :: s ++ [' ']) row :=
  spells.append_blank.blank

theorem of_append_blank (isBlank : Text.isBlank blank = true) (spells : Spells (s ++ [blank]) row) :
    Spells s row := by
  obtain ⟨tokens, lexes, rfl⟩ := spells 0
  exact (lexes.of_append_blank isBlank).spells

theorem of_blank (isBlank : Text.isBlank c = true) (spells : Spells (c :: rest) row) :
    Spells rest row := by
  obtain ⟨tokens, lexes, rfl⟩ := spells 0
  cases lexes with
  | gap _ after => exact after.spells
  | token _ found _ =>
      rw [lexeme_of_blank isBlank] at found
      cases found

theorem first (busy : Text.isBlank c = false) (spells : Spells (c :: rest) row) :
    ∃ token more, (lexeme c rest).token? = some token ∧ row = token :: more ∧
      Spells (lexeme c rest).rest more := by
  obtain ⟨tokens, lexes, rfl⟩ := spells 0
  cases lexes with
  | gap gap _ =>
      rw [isBlank_of_gap gap] at busy
      cases busy
  | @token _ _ _ token later noGap found after =>
      exact ⟨token, plain later, found, rfl, after.spells⟩

theorem trimStart (spells : Spells s row) : Spells (Text.trimStart s) row := by
  induction s with
  | nil => exact spells
  | cons c rest ih =>
      cases isBlank : Text.isBlank c with
      | true =>
          rw [Text.trimStart, List.dropWhile_cons_of_pos isBlank]
          exact ih (spells.of_blank isBlank)
      | false =>
          rw [Text.trimStart_cons_of_not_blank isBlank]
          exact spells

theorem trimEnd (spells : Spells s row) : Spells (Text.trimEnd s) row := by
  induction s using List.reverseRecOn with
  | nil => exact spells
  | append_singleton s c ih =>
      cases isBlank : Text.isBlank c with
      | true =>
          rw [Text.trimEnd_append_blank isBlank]
          exact ih (spells.of_append_blank isBlank)
      | false =>
          have kept : Text.trimEnd [c] = [c] := by rw [Text.trimEnd, Text.trimEnd_nil, isBlank]; rfl
          rw [Text.trimEnd_append_of_busy (by simp [kept]), kept]
          exact spells

theorem trim (spells : Spells s row) : Spells (Text.trim s) row :=
  spells.trimStart.trimEnd

theorem blank_of_nil (spells : Spells s []) : Text.trim s = [] := by
  cases same : Text.trim s with
  | nil => rfl
  | cons c rest =>
      have trimmed := spells.trim
      rw [same] at trimmed
      obtain ⟨token, more, -, same, -⟩ := trimmed.first (Text.not_blank_of_trim same)
      cases same

end Spells

/-! How a code starts -/

theorem numberLexeme_isNumber {whole : List Char}
    (found : (numberLexeme whole rest).token? = some token) : ∃ x, token = .number x := by
  unfold numberLexeme at found
  split at found
  · dsimp only at found
    split at found <;> cases found <;> exact ⟨_, rfl⟩
  · cases found
    exact ⟨_, rfl⟩

theorem equalsLexeme_isMark {sign : Mark} (found : (equalsLexeme sign c rest).token? = some token) :
    token = .mark sign := by
  unfold equalsLexeme at found
  split at found <;> cases found
  rfl

theorem lexeme_cases (found : (lexeme c rest).token? = some token) :
    (isNameStart c = true ∧ token = wordToken (c :: rest.takeWhile isNameChar)) ∨
      (c.isDigit = true ∧ ∃ x, token = .number x) ∨
      ((c = '"' ∨ c = '\'') ∧ ∃ contents, token = .string contents) ∨
      ∃ sign, token = .mark sign ∧ (sign = .leftParen → c = '(') := by
  unfold lexeme at found
  split at found
  · rename_i start
    cases found
    exact .inl ⟨start, rfl⟩
  · split at found
    · rename_i digit
      exact .inr (.inl ⟨digit, numberLexeme_isNumber found⟩)
    · split at found
      · rename_i quote
        obtain ⟨contents, -, same⟩ := Option.map_eq_some_iff.mp found
        exact .inr (.inr (.inl ⟨quote, _, same.symm⟩))
      · refine .inr (.inr (.inr ?_))
        split at found
        · exact ⟨_, equalsLexeme_isMark found, Mark.noConfusion⟩
        · split at found
          · exact ⟨_, equalsLexeme_isMark found, Mark.noConfusion⟩
          · obtain ⟨sign, isMark, same⟩ := Option.map_eq_some_iff.mp found
            refine ⟨sign, same.symm, ?_⟩
            rintro rfl
            unfold mark? at isMark
            split at isMark <;> cases isMark
            rfl

theorem keyword_of_lexeme {word : Keyword}
    (found : (lexeme c rest).token? = some (.keyword word)) :
    c :: rest = word.text.toList ++ (lexeme c rest).rest ∧
      ∀ d, (lexeme c rest).rest.head? = some d → isNameChar d = false := by
  rcases lexeme_cases found with ⟨start, same⟩ | ⟨-, _, same⟩ | ⟨-, _, same⟩ | ⟨_, same, -⟩
  · have isWord : Keyword.ofText? (c :: rest.takeWhile isNameChar) = some word := by
      unfold wordToken at same
      split at same
      · rename_i isWord
        cases same
        exact isWord
      · cases same
    have text : word.text.toList = c :: rest.takeWhile isNameChar := by
      unfold Keyword.ofText? at isWord
      have same := List.find?_some isWord
      exact of_decide_eq_true same
    have after : (lexeme c rest).rest = rest.dropWhile isNameChar := by
      unfold lexeme
      rw [if_pos start]
    rw [after, text]
    refine ⟨?_, ?_⟩
    · rw [List.cons_append, List.takeWhile_append_dropWhile]
    · intro d head
      have stops := List.head?_dropWhile_not isNameChar rest
      rw [head] at stops
      exact stops
  all_goals cases same

theorem lexeme_startsExpr (found : (lexeme c rest).token? = some token)
    (starts : Expr.startsExpr token = true) : isNameChar c = true ∨ c ∈ ['(', '"', '\''] := by
  rcases lexeme_cases found with ⟨start, -⟩ | ⟨digit, -⟩ | ⟨quote, -⟩ | ⟨sign, rfl, paren⟩
  · exact .inl (isNameChar_of_isNameStart start)
  · exact .inl (by rw [isNameChar, Char.isAlphanum, digit, Bool.or_true, Bool.true_or])
  · exact .inr (List.mem_cons_of_mem _ (by simpa using quote))
  · cases sign with
    | leftParen => exact .inr (by rw [paren rfl]; exact List.mem_cons_self)
    | _ => cases starts

theorem Spells.of_keyword {word : Keyword} (busy : Text.isBlank c = false)
    (spells : Spells (c :: rest) (.keyword word :: row)) :
    ∃ after, c :: rest = word.text.toList ++ after ∧ Spells after row ∧
      ∀ d, after.head? = some d → isNameChar d = false := by
  obtain ⟨token, more, found, same, spells⟩ := spells.first busy
  cases same
  obtain ⟨whole, ends⟩ := keyword_of_lexeme found
  exact ⟨_, whole, spells, ends⟩

theorem Spells.keyword_first {word : Keyword} (text : s = word.text.toList ++ rest)
    (ends : ∀ d, rest.head? = some d → isNameChar d = false) (spells : Spells s row) :
    row.head? = some (.keyword word) := by
  have letters : ∀ c ∈ word.text.toList, isNameChar c = true := by
    cases word <;> exact List.all_eq_true.mp rfl
  have starts : ∃ c more, word.text.toList = c :: more ∧ isNameStart c = true := by
    cases word <;> exact ⟨_, _, rfl, rfl⟩
  obtain ⟨c, more, spelt, start⟩ := starts
  rw [spelt] at letters
  rw [spelt, List.cons_append] at text
  subst text
  have busy := not_blank_of_nameChar (isNameChar_of_isNameStart start)
  obtain ⟨token, others, found, rfl, -⟩ := spells.first busy
  have lettersMore : ∀ d ∈ more, isNameChar d = true := fun d member =>
    letters d (List.mem_cons_of_mem _ member)
  rw [lexeme_word start lettersMore ends, ← spelt] at found
  cases found
  cases word <;> rfl

theorem Spells.ne_nil (spells : Spells s (token :: row)) : s ≠ [] := by
  rintro rfl
  obtain ⟨tokens, lexes, same⟩ := spells 0
  cases lexes
  cases same

theorem Spells.after_keyword {word : Keyword} (spells : Spells s (.keyword word :: row)) :
    ∃ after, Text.trim s = word.text.toList ++ after ∧ Spells after row ∧
      ∀ d, after.head? = some d → isNameChar d = false := by
  have trimmed := spells.trim
  cases same : Text.trim s with
  | nil => exact absurd same trimmed.ne_nil
  | cons c rest =>
      rw [same] at trimmed
      exact trimmed.of_keyword (Text.not_blank_of_trim same)

theorem Spells.trim_of_keyword {word : Keyword} (spells : Spells s [.keyword word]) :
    Text.trim s = word.text.toList := by
  obtain ⟨after, trimmed, spellsAfter, -⟩ := spells.after_keyword
  have kept : Text.trimEnd (Text.trim s) = Text.trim s := Text.trimEnd_trimEnd _
  rw [trimmed] at kept ⊢
  by_cases none : after = []
  · rw [none, List.append_nil]
  · exact absurd spellsAfter.blank_of_nil (Text.trim_ne_nil_of_kept kept none)

theorem Spells.startsExpr {e : Expr} (spells : Spells s row)
    (derives : Derives (.expr .disjunction e) row) :
    ∃ head more, row = head :: more ∧ Expr.startsExpr head = true := by
  obtain ⟨tokens, -, rfl⟩ := spells 0
  obtain ⟨head, more, rfl, starts⟩ := (isExpr_iff_derives.mpr derives).head
  exact ⟨head.node, plain more, rfl, starts⟩

end ThemeRender.Template
