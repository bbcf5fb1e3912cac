import ThemeRender.Template.Lexeme
/-!
Texts between quotes. `QuotedBody` says what such a text stands for; the reader of strings takes just
these texts. `escapeWith` writes any contents between quotes of a kind, so that they are read back.
-/

namespace ThemeRender.Template

/-- A text that may stand between two quotes, and what it stands for. A backslash takes any character
after it but a line feed. -/
inductive QuotedBody (quote : Char) : List Char → List Char → Prop
  | nil : QuotedBody quote [] []
  | plain {c : Char} {text contents : List Char} (notQuote : c ≠ quote) (notEscape : c ≠ '\\')
      (rest : QuotedBody quote text contents) : QuotedBody quote (c :: text) (c :: contents)
  | escaped {c : Char} {text contents : List Char} (sameLine : c ≠ '\n')
      (rest : QuotedBody quote text contents) :
      QuotedBody quote ('\\' :: c :: text) (unescape c :: contents)

variable {quote : Char} {s text contents rest : List Char}

theorem QuotedBody.readQuoted (body : QuotedBody quote text contents) (noEscape : quote ≠ '\\')
    (rest : List Char) :
    readQuoted quote (text ++ quote :: rest) = ⟨some contents, text ++ [quote], rest⟩ := by
  induction body with
  | nil =>
      rw [List.nil_append, Template.readQuoted.eq_def]
      simp only [if_pos, List.nil_append]
  | plain notQuote notEscape _ ih =>
      rw [List.cons_append, Template.readQuoted.eq_def]
      simp [notQuote, notEscape, ih, Quoted.prepend]
  | escaped sameLine _ ih =>
      rw [List.cons_append, List.cons_append, Template.readQuoted.eq_def]
      simp [Ne.symm noEscape, sameLine, ih, Quoted.prepend]

theorem body_of_readQuoted (closed : (readQuoted quote s).contents? = some contents) :
    ∃ text, (readQuoted quote s).text = text ++ [quote] ∧ QuotedBody quote text contents := by
  fun_induction readQuoted quote s generalizing contents with
  | case1 => cases closed
  | case2 rest =>
      cases closed
      exact ⟨[], rfl, .nil⟩
  | case3 => cases closed
  | case4 => cases closed
  | case5 d rest sameLine _ ih =>
      obtain ⟨inner, closed', rfl⟩ := Option.map_eq_some_iff.mp closed
      obtain ⟨text, same, body⟩ := ih closed'
      refine ⟨'\\' :: d :: text, ?_, .escaped sameLine body⟩
      simp [Quoted.prepend, same]
  | case6 c rest notQuote notEscape ih =>
      obtain ⟨inner, closed', rfl⟩ := Option.map_eq_some_iff.mp closed
      obtain ⟨text, same, body⟩ := ih closed'
      refine ⟨c :: text, ?_, .plain notQuote notEscape body⟩
      simp [Quoted.prepend, same]

theorem QuotedBody.unique {other : List Char} (body : QuotedBody quote text contents)
    (bodyToo : QuotedBody quote text other) (noEscape : quote ≠ '\\') : contents = other := by
  have same := (body.readQuoted noEscape []).symm.trans (bodyToo.readQuoted noEscape [])
  exact Option.some.inj (congrArg Quoted.contents? same)

/-! Writing contents between quotes -/

/-- Contents as they are written between quotes: a backslash before each backslash and each quote, and
the end of a tag broken by one. -/
def escapeWith (quote : Char) : List Char → List Char
  | [] => []
  | '%' :: '>' :: rest => '%' :: '\\' :: '>' :: escapeWith quote rest
  | c :: rest =>
      if c = quote ∨ c = '\\' then '\\' :: c :: escapeWith quote rest else c :: escapeWith quote rest

def IsQuote (c : Char) : Prop :=
  c = '"' ∨ c = '\''

theorem IsQuote.not_escape (isQuote : IsQuote quote) : quote ≠ '\\' := by
  rcases isQuote with rfl | rfl
  · decide
  · decide

theorem quotedBody_escapeWith (isQuote : IsQuote quote) (contents : List Char) :
    QuotedBody quote (escapeWith quote contents) contents := by
  induction contents using escapeWith.induct quote with
  | case1 => exact .nil
  | case2 rest ih =>
      rw [escapeWith]
      have percent : '%' ≠ quote := by
        rcases isQuote with rfl | rfl
        · decide
        · decide
      exact .plain percent (by decide) (.escaped (by decide) ih)
  | case3 c rest noEnd special ih =>
      rw [escapeWith, if_pos special]
      · have itself : unescape c = c ∧ c ≠ '\n' := by
          rcases special with rfl | rfl
          · rcases isQuote with rfl | rfl
            · decide
            · decide
          · decide
        have escaped := QuotedBody.escaped itself.2 ih
        rw [itself.1] at escaped
        exact escaped
      · exact noEnd
  | case4 c rest noEnd plain ih =>
      rw [escapeWith, if_neg plain]
      · obtain ⟨notQuote, notEscape⟩ := not_or.mp plain
        exact .plain notQuote notEscape ih
      · exact noEnd

theorem escapeWith_injective (isQuote : IsQuote quote) : Function.Injective (escapeWith quote) := by
  intro first second same
  have body := quotedBody_escapeWith isQuote first
  rw [same] at body
  exact body.unique (quotedBody_escapeWith isQuote second) isQuote.not_escape

end ThemeRender.Template
