import ThemeRender.Proofs.Template.TokenTexts
import ThemeRender.Proofs.Template.Yielding
import ThemeRender.Proofs.Text.Positions

namespace ThemeRender.Template

open Text (byteLength)

variable {offset : Nat} {c : Char} {s text rest before after gap code : List Char} {token : Token}
  {tokens : List (Spanned Token)}

/-! One token -/

theorem exists_text_lexeme (c : Char) (rest : List Char) : ∃ t, (lexeme c rest).text = c :: t := by
  have whole := lexeme_text_append_rest c rest
  obtain ⟨d, t, isText⟩ := List.exists_cons_of_ne_nil (text_lexeme_ne_nil c rest)
  rw [isText] at whole
  obtain ⟨rfl, -⟩ := List.cons.inj whole
  exact ⟨t, isText⟩

theorem endsBefore_lexeme (found : (lexeme c rest).token? = some token) :
    EndsBefore (lexeme c rest).text (lexeme c rest).rest := by
  obtain ⟨t, isText⟩ := exists_text_lexeme c rest
  have whole := lexeme_text_append_rest c rest
  rw [isText] at whole ⊢
  have split : t ++ (lexeme c rest).rest = rest := (List.cons.inj whole).2
  refine (@lexeme_eq_iff c t _ token).mp ?_ |>.2
  rw [split]
  generalize lexeme c rest = read at *
  cases read
  cases found
  cases isText
  rfl

theorem Lexes.ofToken (tokenText : TokenText token text) (ends : EndsBefore text after)
    (lexes : Lexes (offset + byteLength text) after tokens) :
    Lexes offset (text ++ after) (⟨token, ⟨offset, offset + byteLength text⟩⟩ :: tokens) := by
  obtain ⟨c, s, rfl⟩ := List.exists_cons_of_ne_nil tokenText.ne_nil
  have found := lexeme_eq_iff.mpr ⟨tokenText, ends⟩
  have whole := @Lexes.token offset c (s ++ after) token tokens tokenText.head_isBorder.not_isGap
    (congrArg Lexeme.token? found)
  rw [found] at whole
  exact whole lexes

theorem endsBefore_nil (text : List Char) : EndsBefore text [] :=
  fun _ some within => absurd (List.prefix_nil.mp within) some

theorem TokenText.lex (tokenText : TokenText token text) :
    lex text = .ok [⟨token, ⟨0, byteLength text⟩⟩] := by
  have alone := Lexes.ofToken tokenText (endsBefore_nil text) (.nil (0 + byteLength text))
  rw [List.append_nil, Nat.zero_add] at alone
  exact alone.eq_ok

theorem split_of_le {t : List Char} (same : text ++ t = before ++ after)
    (le : byteLength text ≤ byteLength before) :
    ∃ between, before = text ++ between ∧ t = between ++ after := by
  rcases List.append_eq_append_iff.mp same with ⟨between, first, second⟩ | ⟨beyond, first, second⟩
  · exact ⟨between, first, second⟩
  · cases beyond with
    | nil => exact ⟨[], by simpa using first.symm, by simpa using second.symm⟩
    | cons d beyond =>
        have longer := Text.byteLength_pos (List.cons_ne_nil d beyond)
        rw [first, Text.byteLength_append] at le
        omega

/-! Places of tokens -/

theorem Lexes.offset_le (lexes : Lexes offset s tokens) :
    ∀ token ∈ tokens, offset ≤ token.span.start := by
  induction lexes with
  | nil => simp
  | gap _ _ ih => exact fun token member => Nat.le_trans (Nat.le_add_right _ _) (ih token member)
  | token _ _ _ ih =>
      refine List.forall_mem_cons.mpr ⟨Nat.le_refl _, ?_⟩
      exact fun token member => Nat.le_trans (Nat.le_add_right _ _) (ih token member)

theorem Lexes.in_order (lexes : Lexes offset s tokens) :
    tokens.Pairwise fun first second => first.span.stop ≤ second.span.start := by
  induction lexes with
  | nil => exact .nil
  | gap _ _ ih => exact ih
  | token _ _ after ih => exact .cons after.offset_le ih

theorem Lexes.texts (lexes : Lexes offset s tokens) :
    ∀ token ∈ tokens, ∃ before text after, s = before ++ (text ++ after) ∧
      token.span = ⟨offset + byteLength before, offset + byteLength before + byteLength text⟩ ∧
      TokenText token.node text ∧ EndsBefore text after := by
  induction lexes with
  | nil => simp
  | @gap offset c rest tokens _ _ ih =>
      intro token member
      obtain ⟨before, text, after, rfl, span, found⟩ := ih token member
      refine ⟨c :: before, text, after, rfl, ?_, found⟩
      rw [span, Text.byteLength_cons, Nat.add_assoc]
  | @token offset c rest token tokens _ found _ ih =>
      refine List.forall_mem_cons.mpr ⟨?_, ?_⟩
      · exact ⟨[], _, _, (lexeme_text_append_rest c rest).symm, rfl, tokenText_of_lexeme found,
          endsBefore_lexeme found⟩
      · intro later member
        obtain ⟨before, text, after, isRest, span, isText⟩ := ih later member
        refine ⟨(lexeme c rest).text ++ before, text, after, ?_, ?_, isText⟩
        · rw [List.append_assoc, ← isRest, lexeme_text_append_rest]
        · rw [span, Text.byteLength_append, Nat.add_assoc]

theorem Lexes.gap_outside (lexes : Lexes offset s tokens) (split : s = before ++ c :: after)
    (outside : ∀ token ∈ tokens, offset + byteLength before < token.span.start ∨
      token.span.stop ≤ offset + byteLength before) : isGap c = true := by
  induction lexes generalizing before with
  | nil => simp at split
  | gap gap _ ih =>
      cases before with
      | nil =>
          cases split
          exact gap
      | cons d before =>
          cases split
          rw [Text.byteLength_cons, ← Nat.add_assoc] at outside
          exact ih rfl outside
  | @token offset d rest token tokens _ _ _ ih =>
      obtain ⟨here, later⟩ := List.forall_mem_cons.mp outside
      have beyond : byteLength (lexeme d rest).text ≤ byteLength before := by
        simp only at here
        omega
      rw [← lexeme_text_append_rest d rest] at split
      obtain ⟨between, rfl, isRest⟩ := split_of_le split beyond
      rw [Text.byteLength_append, ← Nat.add_assoc] at later
      exact ih isRest later

/-! More blanks -/

theorem Lexes.gaps (gaps : ∀ c ∈ gap, isGap c = true)
    (lexes : Lexes (offset + byteLength gap) s tokens) : Lexes offset (gap ++ s) tokens := by
  induction gap generalizing offset with
  | nil => exact lexes
  | cons c gap ih =>
      obtain ⟨here, more⟩ := List.forall_mem_cons.mp gaps
      rw [Text.byteLength_cons, ← Nat.add_assoc] at lexes
      exact .gap here (ih more lexes)

theorem plain_shiftAll (offset : Nat) (tokens : List (Spanned Token)) :
    plain (shiftAll offset tokens) = plain tokens := by
  unfold plain shiftAll
  rw [List.map_map]
  rfl

theorem Lexes.after_gaps (lexes : Lexes offset s tokens) (gaps : ∀ c ∈ gap, isGap c = true) :
    ∃ spaced, Lexes offset (gap ++ s) spaced ∧ plain spaced = plain tokens :=
  ⟨_, .gaps gaps (lexes.shift (byteLength gap)), plain_shiftAll _ tokens⟩

theorem EndsBefore.spaced {front : List Char} (tokenText : TokenText token text)
    (ends : EndsBefore text (front ++ after)) (gaps : ∀ c ∈ gap, isGap c = true) :
    EndsBefore text (front ++ (gap ++ after)) := by
  by_cases none : gap = []
  · rw [none]
    exact ends
  · rw [← List.append_assoc]
    exact tokenText.endsBefore_gap (ends.front (List.prefix_append front after)) gaps none after

theorem Lexes.spaced (lexes : Lexes offset s tokens) (split : s = before ++ after)
    (outside : ∀ token ∈ tokens, offset + byteLength before ≤ token.span.start ∨
      token.span.stop ≤ offset + byteLength before) (gaps : ∀ c ∈ gap, isGap c = true) :
    ∃ spaced, Lexes offset (before ++ (gap ++ after)) spaced ∧ plain spaced = plain tokens := by
  induction lexes generalizing before with
  | nil offset =>
      obtain ⟨rfl, rfl⟩ := List.append_eq_nil_iff.mp split.symm
      exact (Lexes.nil offset).after_gaps gaps
  | @gap offset c rest tokens gap lexes ih =>
      cases before with
      | nil =>
          cases split
          exact (Lexes.gap gap lexes).after_gaps gaps
      | cons d before =>
          cases split
          rw [Text.byteLength_cons, ← Nat.add_assoc] at outside
          obtain ⟨spaced, lexesSpaced, same⟩ := ih rfl outside
          exact ⟨spaced, .gap gap lexesSpaced, same⟩
  | @token offset c rest token tokens noGap found lexes ih =>
      by_cases first : before = []
      · subst first
        rw [List.nil_append] at split
        subst split
        exact (Lexes.token noGap found lexes).after_gaps gaps
      · -- the place is not before the token, so it is after its text
        obtain ⟨here, later⟩ := List.forall_mem_cons.mp outside
        have positive := Text.byteLength_pos first
        have beyond : byteLength (lexeme c rest).text ≤ byteLength before := by
          simp only at here
          omega
        rw [← lexeme_text_append_rest c rest] at split
        obtain ⟨between, rfl, isRest⟩ := split_of_le split beyond
        rw [Text.byteLength_append, ← Nat.add_assoc] at later
        obtain ⟨spaced, lexesSpaced, same⟩ := ih isRest later
        have tokenText := tokenText_of_lexeme found
        have ends := endsBefore_lexeme found
        rw [isRest] at ends
        have whole := Lexes.ofToken tokenText (ends.spaced tokenText gaps) lexesSpaced
        rw [← List.append_assoc] at whole
        exact ⟨_, whole, congrArg (token :: ·) same⟩

theorem Lexes.append_blank (lexes : Lexes offset s tokens) : Lexes offset (s ++ [' ']) tokens := by
  induction lexes with
  | nil => exact .gap (by decide) (.nil _)
  | gap gap _ ih => exact .gap gap ih
  | @token offset c rest token later _ found _ ih =>
      have tokenText := tokenText_of_lexeme found
      have ends := tokenText.endsBefore_gap (endsBefore_lexeme found)
        (List.forall_mem_singleton.mpr rfl) (List.cons_ne_nil ' ' []) []
      rw [List.append_nil] at ends
      have whole := Lexes.ofToken tokenText ends ih
      rw [← List.append_assoc, lexeme_text_append_rest] at whole
      exact whole

theorem lex_padded (lexed : lex code = .ok tokens) :
    lex (' ' :: code ++ [' ']) = .ok (shiftAll 1 tokens) := by
  apply Lexes.eq_ok
  exact .gap (by decide) ((lexes_of_eq_ok lexed).append_blank.shift 1)

theorem lex_after_word {word : List Char} (start : isNameStart c = true)
    (letters : ∀ d ∈ word, isNameChar d = true) (lexed : lex code = .ok tokens) :
    lex (' ' :: c :: word ++ ' ' :: code ++ [' ']) =
      .ok (⟨wordToken (c :: word), ⟨1, 1 + byteLength (c :: word)⟩⟩ ::
        shiftAll (byteLength (c :: word) + 2) tokens) := by
  have spaced := (lexes_of_eq_ok lexed).append_blank.shift (byteLength (c :: word) + 2)
  have same : ' ' :: c :: word ++ ' ' :: code ++ [' '] =
      ' ' :: c :: (word ++ ' ' :: (code ++ [' '])) := by simp
  have place : 0 + (byteLength (c :: word) + 2) =
      0 + Char.utf8Size ' ' + byteLength (c :: word) + 1 := by
    rw [show Char.utf8Size ' ' = 1 from rfl]
    omega
  rw [place] at spaced
  rw [same]
  exact Lexes.eq_ok (.gap (by decide) (.word start letters spaced))

theorem Lexes.hash_not_mem (lexes : Lexes offset s tokens)
    (unquoted : ∀ c ∈ s, c ≠ '"' ∧ c ≠ '\'') : '#' ∉ s := by
  induction lexes with
  | nil => exact List.not_mem_nil
  | gap gap _ ih =>
      obtain ⟨-, unquoted⟩ := List.forall_mem_cons.mp unquoted
      refine List.not_mem_cons_of_ne_of_not_mem ?_ (ih unquoted)
      rintro rfl
      cases gap
  | @token offset c rest _ _ _ found _ ih =>
      have whole := lexeme_text_append_rest c rest
      have tokenText := tokenText_of_lexeme found
      rw [← whole] at unquoted ⊢
      obtain ⟨inToken, later⟩ := List.forall_mem_append.mp unquoted
      refine List.not_mem_append ?_ (ih later)
      intro member
      obtain ⟨d, t, isText⟩ := List.exists_cons_of_ne_nil tokenText.ne_nil
      rw [isText] at tokenText inToken member
      have noQuote : ¬ IsQuote d := not_or.mpr (inToken d List.mem_cons_self)
      cases tokenText.isTokenChar noQuote '#' member

/-! Where no token is found -/

theorem lexes_before_error {span : Span} (fails : lexFrom offset s = .error span) :
    ∃ before c rest tokens, s = before ++ c :: rest ∧ Lexes offset before tokens ∧
      (lexeme c rest).token? = none ∧
      span = ⟨offset + byteLength before,
        offset + byteLength before + byteLength (lexeme c rest).text⟩ := by
  fun_induction lexFrom offset s with
  | case1 => cases fails
  | case2 offset c rest gap ih =>
      obtain ⟨before, d, after, tokens, rfl, lexes, none, rfl⟩ := ih fails
      refine ⟨c :: before, d, after, tokens, rfl, .gap gap lexes, none, ?_⟩
      rw [Text.byteLength_cons, Nat.add_assoc]
  | case3 offset c rest _ found stop none =>
      cases fails
      exact ⟨[], c, rest, [], rfl, .nil offset, none, rfl⟩
  | case4 offset c rest _ found stop token isToken =>
      rename_i ih
      obtain ⟨before, d, after, tokens, isRest, lexes, none, rfl⟩ :=
        ih (Outcome.of_map_error fails)
      have ends := endsBefore_lexeme isToken
      have front : before <+: (lexeme c rest).rest := ⟨d :: after, isRest.symm⟩
      refine ⟨(lexeme c rest).text ++ before, d, after, _, ?_,
        .ofToken (tokenText_of_lexeme isToken) (ends.front front) lexes, none, ?_⟩
      · rw [List.append_assoc, ← isRest, lexeme_text_append_rest]
      · rw [Text.byteLength_append, Nat.add_assoc]

/-! The whole code -/

def Blank (s : List Char) : Prop :=
  ∀ c ∈ s, c ∈ [' ', '\t', '\n', '\r']

def Between (tokens : List (Spanned Token)) (place : Nat) : Prop :=
  ∀ token ∈ tokens, place ≤ token.span.start ∨ token.span.stop ≤ place

structure Divides (code : List Char) (tokens : List (Spanned Token)) : Prop where
  in_order : tokens.Pairwise fun first second => first.span.stop ≤ second.span.start
  /-- A token has its place and its text, it is what is read of this text alone, and what comes after
  makes no longer token of it. -/
  texts : ∀ token ∈ tokens, ∃ before text after, code = before ++ (text ++ after) ∧
    token.span = ⟨byteLength before, byteLength (before ++ text)⟩ ∧
    token.span.start < token.span.stop ∧ token.span.stop ≤ byteLength code ∧
    TokenText token.node text ∧ lex text = .ok [⟨token.node, ⟨0, byteLength text⟩⟩] ∧
    EndsBefore text after
  blank_outside : ∀ before c after, code = before ++ c :: after →
    (∀ token ∈ tokens, byteLength before < token.span.start ∨
      token.span.stop ≤ byteLength before) → Blank [c]
  spaced : ∀ before gap after, code = before ++ after → Blank gap →
    Between tokens (byteLength before) →
    ∃ spaced, lex (before ++ (gap ++ after)) = .ok spaced ∧ plain spaced = plain tokens

/-- No token starts at the span, and the code before it is accepted. -/
def RefusedAt (code : List Char) (span : Span) : Prop :=
  ∃ before piece after, code = before ++ (piece ++ after) ∧
    span = ⟨byteLength before, byteLength (before ++ piece)⟩ ∧ span.start < span.stop ∧
    span.stop ≤ byteLength code ∧ (∃ tokens, lex before = .ok tokens) ∧
    ∀ text, text <+: piece ++ after → ∀ token, ¬ TokenText token text

theorem isGap_of_blank (blank : Blank s) : ∀ c ∈ s, isGap c = true := by
  intro c member
  simpa [isGap, or_assoc] using blank c member

theorem blank_of_isGap (gap : isGap c = true) : Blank [c] := by
  simpa [Blank, isGap, or_assoc] using gap

theorem Lexes.divides (lexes : Lexes 0 code tokens) : Divides code tokens := by
  constructor
  case in_order => exact lexes.in_order
  case texts =>
    intro token member
    obtain ⟨before, text, after, rfl, span, tokenText, ends⟩ := lexes.texts token member
    have positive := Text.byteLength_pos tokenText.ne_nil
    rw [Nat.zero_add, ← Text.byteLength_append] at span
    refine ⟨before, text, after, rfl, span, ?_, ?_, tokenText, tokenText.lex, ends⟩
    · rw [span, Text.byteLength_append]
      exact Nat.lt_add_of_pos_right positive
    · rw [span, ← List.append_assoc, Text.byteLength_append (before ++ text)]
      exact Nat.le_add_right _ _
  case blank_outside =>
    intro before c after split outside
    apply blank_of_isGap
    apply lexes.gap_outside split
    simpa only [Nat.zero_add] using outside
  case spaced =>
    intro before gap after split blank between
    have outside : Between tokens (0 + byteLength before) := by rwa [Nat.zero_add]
    obtain ⟨spaced, lexesSpaced, same⟩ := lexes.spaced split outside (isGap_of_blank blank)
    exact ⟨spaced, lexesSpaced.eq_ok, same⟩

theorem refusedAt_of_lex {span : Span} (fails : lex code = .error span) : RefusedAt code span := by
  obtain ⟨before, c, rest, tokens, rfl, lexes, none, rfl⟩ := lexes_before_error fails
  have whole := lexeme_text_append_rest c rest
  have positive := Text.byteLength_pos (text_lexeme_ne_nil c rest)
  refine ⟨before, (lexeme c rest).text, (lexeme c rest).rest, by rw [whole], ?_, ?_, ?_,
    ⟨tokens, lexes.eq_ok⟩, ?_⟩
  · rw [Nat.zero_add, Text.byteLength_append]
  · exact Nat.lt_add_of_pos_right positive
  · rw [← whole, Text.byteLength_append, Text.byteLength_append]
    simp only
    omega
  · intro text front token tokenText
    rw [whole] at front
    obtain ⟨⟨found, isFound⟩, -⟩ := tokenText.le_lexeme front
    rw [none] at isFound
    cases isFound

/-- The tokens of a code come in the order of their places and do not overlap. Each is the text of its
token, alone as well, and what comes after makes no longer token of it; all else in the code is
blank, and blanks put in at a place inside no token change no token. A code that is refused has a
place where no token starts, and its text before that place is accepted. -/
theorem tokens_divide_code (code : List Char) :
    (∀ tokens, lex code = .ok tokens → Divides code tokens) ∧
      ∀ span, lex code = .error span → RefusedAt code span := by
  constructor
  · intro tokens lexed
    exact (lexes_of_eq_ok lexed).divides
  · intro span fails
    exact refusedAt_of_lex fails

theorem comparison_divided :
    (∃ tokens, lex "page ==home".toList = .ok tokens ∧
      plain tokens = [.ident "page", .mark .equal, .ident "home"] ∧
      Divides "page ==home".toList tokens) ∧
    lex "page = 1".toList = .error ⟨5, 6⟩ ∧ RefusedAt "page = 1".toList ⟨5, 6⟩ := by
  have lexed : lex "page ==home".toList =
      .ok [⟨.ident "page", ⟨0, 4⟩⟩, ⟨.mark .equal, ⟨5, 7⟩⟩, ⟨.ident "home", ⟨7, 11⟩⟩] :=
    Lexes.eq_ok (.token rfl rfl (.gap rfl (.token rfl rfl (.token rfl rfl (.nil 11)))))
  have refused : lex "page = 1".toList = .error ⟨5, 6⟩ := by
    have afterWord : lexFrom 4 " = 1".toList = .error ⟨5, 6⟩ :=
      (lexFrom_gap rfl 4 _).trans (lexFrom_none rfl rfl 5)
    exact (lexFrom_token rfl rfl 0).trans (congrArg _ afterWord)
  refine ⟨⟨_, lexed, rfl, ?_⟩, refused, ?_⟩
  · exact (tokens_divide_code _).1 _ lexed
  · exact (tokens_divide_code _).2 _ refused

end ThemeRender.Template
