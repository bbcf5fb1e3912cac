import ThemeRender.Proofs.Outcome
import ThemeRender.Proofs.Text.Splitting
import ThemeRender.Template.Lexeme
/-!
The tokens of a code, and how words and numbers are read. `Lexes` is what the reader of tokens does;
the tokens move with the place where the code starts.
-/

namespace ThemeRender.Template

def shiftAll (offset : Nat) (tokens : List (Spanned Token)) : List (Spanned Token) :=
  tokens.map (·.shift offset)

@[simp] theorem shiftAll_cons (offset : Nat) (token : Spanned Token)
    (tokens : List (Spanned Token)) :
    shiftAll offset (token :: tokens) = token.shift offset :: shiftAll offset tokens := rfl

@[simp] theorem length_shiftAll (offset : Nat) (tokens : List (Spanned Token)) :
    (shiftAll offset tokens).length = tokens.length := List.length_map _

variable {c : Char} {rest s : List Char} {token : Token} {tokens : List (Spanned Token)}

theorem lexFrom_gap (gap : isGap c = true) (offset : Nat) (rest : List Char) :
    lexFrom offset (c :: rest) = lexFrom (offset + c.utf8Size) rest := by
  rw [lexFrom, if_pos gap]

theorem lexFrom_token (noGap : isGap c = false) (found : (lexeme c rest).token? = some token)
    (offset : Nat) :
    lexFrom offset (c :: rest) =
      (lexFrom (offset + Text.byteLength (lexeme c rest).text) (lexeme c rest).rest).map
        (⟨token, ⟨offset, offset + Text.byteLength (lexeme c rest).text⟩⟩ :: ·) := by
  rw [lexFrom]
  simp only [noGap, Bool.false_eq_true, if_false]
  split
  · rename_i none
    rw [found] at none
    cases none
  · rename_i other same
    rw [found] at same
    cases same
    rfl

theorem lexFrom_none (noGap : isGap c = false) (none : (lexeme c rest).token? = none)
    (offset : Nat) :
    lexFrom offset (c :: rest) =
      .error ⟨offset, offset + Text.byteLength (lexeme c rest).text⟩ := by
  rw [lexFrom]
  simp only [noGap, Bool.false_eq_true, if_false]
  split
  · rfl
  · rename_i token found
    rw [none] at found
    cases found

inductive Lexes : Nat → List Char → List (Spanned Token) → Prop
  | nil (offset : Nat) : Lexes offset [] []
  | gap {offset : Nat} {c : Char} {rest : List Char} {tokens : List (Spanned Token)}
      (gap : isGap c = true) (after : Lexes (offset + c.utf8Size) rest tokens) :
      Lexes offset (c :: rest) tokens
  | token {offset : Nat} {c : Char} {rest : List Char} {token : Token}
      {tokens : List (Spanned Token)} (noGap : isGap c = false)
      (found : (lexeme c rest).token? = some token)
      (after : Lexes (offset + Text.byteLength (lexeme c rest).text) (lexeme c rest).rest tokens) :
      Lexes offset (c :: rest)
        (⟨token, ⟨offset, offset + Text.byteLength (lexeme c rest).text⟩⟩ :: tokens)

theorem Lexes.eq_ok {offset : Nat} (lexes : Lexes offset s tokens) :
    lexFrom offset s = .ok tokens := by
  induction lexes with
  | nil => rw [lexFrom]
  | gap gap _ ih => rw [lexFrom_gap gap, ih]
  | token noGap found _ ih =>
      rw [lexFrom_token noGap found, ih]
      rfl

theorem lexes_of_eq_ok {offset : Nat} (lexed : lexFrom offset s = .ok tokens) :
    Lexes offset s tokens := by
  fun_induction lexFrom offset s generalizing tokens with
  | case1 =>
      cases lexed
      exact .nil _
  | case2 offset c rest gap ih => exact .gap gap (ih lexed)
  | case3 => cases lexed
  | case4 offset c rest noGap found stop token isToken =>
      rename_i ih
      obtain ⟨later, lexedAfter, rfl⟩ := Outcome.of_map_ok lexed
      exact .token (Bool.eq_false_iff.mpr noGap) isToken (ih lexedAfter)

theorem Lexes.shift {offset : Nat} (lexes : Lexes offset s tokens) (more : Nat) :
    Lexes (offset + more) s (shiftAll more tokens) := by
  induction lexes with
  | nil => exact .nil _
  | gap gap _ ih =>
      apply Lexes.gap gap
      rw [Nat.add_right_comm]
      exact ih
  | token noGap found _ ih =>
      rw [Nat.add_right_comm] at ih
      have shifted := Lexes.token noGap found ih
      rw [Nat.add_right_comm] at shifted
      exact shifted

/-! Words -/

theorem lexeme_word {word more : List Char} (start : isNameStart c = true)
    (letters : ∀ d ∈ word, isNameChar d = true)
    (ends : ∀ d, more.head? = some d → isNameChar d = false) :
    lexeme c (word ++ more) = ⟨some (wordToken (c :: word)), c :: word, more⟩ := by
  unfold lexeme
  rw [if_pos start, Text.takeWhile_exact letters ends, Text.dropWhile_exact letters ends]

theorem not_isGap_of_isNameChar (letter : isNameChar c = true) : isGap c = false := by
  cases gap : isGap c with
  | false => rfl
  | true =>
      simp only [isGap, Bool.or_eq_true, beq_iff_eq, or_assoc] at gap
      rcases gap with rfl | rfl | rfl | rfl
      all_goals exact absurd letter (by decide)

theorem isNameChar_of_isNameStart (start : isNameStart c = true) : isNameChar c = true := by
  unfold isNameStart at start
  unfold isNameChar Char.isAlphanum
  cases letter : c.isAlpha with
  | true => rfl
  | false =>
      rw [letter, Bool.false_or] at start
      rw [start, Bool.or_true]

theorem not_isGap_of_isNameStart (start : isNameStart c = true) : isGap c = false :=
  not_isGap_of_isNameChar (isNameChar_of_isNameStart start)

theorem Lexes.word {word more : List Char} {offset : Nat} (start : isNameStart c = true)
    (letters : ∀ d ∈ word, isNameChar d = true)
    (lexes : Lexes (offset + Text.byteLength (c :: word) + 1) more tokens) :
    Lexes offset (c :: (word ++ ' ' :: more))
      (⟨wordToken (c :: word), ⟨offset, offset + Text.byteLength (c :: word)⟩⟩ :: tokens) := by
  have found := @lexeme_word c word (' ' :: more) start letters (by rintro _ ⟨⟩; rfl)
  have whole := @Lexes.token offset c (word ++ ' ' :: more) (wordToken (c :: word)) tokens
    (not_isGap_of_isNameStart start) (congrArg Lexeme.token? found)
  rw [found] at whole
  exact whole (.gap (by decide) lexes)

theorem lex_word {word : List Char} (start : isNameStart c = true)
    (letters : ∀ d ∈ word, isNameChar d = true) :
    lex (' ' :: c :: word ++ [' ']) =
      .ok [⟨wordToken (c :: word), ⟨1, 1 + Text.byteLength (c :: word)⟩⟩] :=
  Lexes.eq_ok (.gap (by decide) (.word start letters (.nil _)))

/-! Numbers -/

theorem isNameChar_of_isDigit (digit : c.isDigit = true) : isNameChar c = true := by
  simp [isNameChar, Char.isAlphanum, digit]

theorem code_of_isDigit (digit : c.isDigit = true) : 48 ≤ c.toNat ∧ c.toNat ≤ 57 := by
  simpa [Char.isDigit, UInt32.le_iff_toNat_le] using digit

theorem not_isNameStart_of_isDigit (digit : c.isDigit = true) :
    isNameStart c = false := by
  have bounds := code_of_isDigit digit
  rw [Bool.eq_false_iff]
  intro starts
  simp only [isNameStart, Bool.or_eq_true, beq_iff_eq] at starts
  rcases starts with letter | rfl
  · have range := Text.code_of_isAlpha letter
    omega
  · exact absurd bounds (by decide)

theorem lexeme_digit (digit : c.isDigit = true) (rest : List Char) :
    isGap c = false ∧ lexeme c rest =
      numberLexeme (c :: rest.takeWhile Char.isDigit) (rest.dropWhile Char.isDigit) := by
  refine ⟨not_isGap_of_isNameChar (isNameChar_of_isDigit digit), ?_⟩
  unfold lexeme
  rw [not_isNameStart_of_isDigit digit, if_neg Bool.false_ne_true, if_pos digit]

theorem numberLexeme_whole (whole : List Char) (ends : ∀ c, rest.head? = some c → c ≠ '.') :
    numberLexeme whole rest = ⟨some (numberToken whole []), whole, rest⟩ := by
  unfold numberLexeme
  split
  · exact absurd rfl (ends '.' rfl)
  · rfl

theorem numberLexeme_fraction (whole : List Char) {fraction : List Char} (nonempty : fraction ≠ [])
    (digits : ∀ c ∈ fraction, c.isDigit = true)
    (ends : ∀ c, rest.head? = some c → c.isDigit = false) :
    numberLexeme whole ('.' :: (fraction ++ rest)) =
      ⟨some (numberToken whole fraction), whole ++ '.' :: fraction, rest⟩ := by
  unfold numberLexeme
  simp only [Text.takeWhile_exact digits ends, Text.dropWhile_exact digits ends]
  rw [if_neg (by simpa using nonempty)]

/-! Where tokens are -/

theorem Lexes.start_of_mem {offset : Nat} (lexes : Lexes offset s tokens)
    {token : Spanned Token} (member : token ∈ tokens) :
    token.span.start ≤ offset + Text.byteLength s := by
  induction lexes with
  | nil => cases member
  | gap gap _ ih =>
      have := ih member
      rw [Text.byteLength_cons]
      omega
  | @token offset c rest _ _ _ _ _ ih =>
      have whole := congrArg Text.byteLength (lexeme_text_append_rest c rest)
      rw [Text.byteLength_append] at whole
      rcases List.mem_cons.mp member with rfl | member
      · exact Nat.le_add_right _ _
      · have := ih member
        omega

end ThemeRender.Template
