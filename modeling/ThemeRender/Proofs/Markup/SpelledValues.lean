import Mathlib.Logic.Basic
import ThemeRender.Markup.Attribute
/-!
The values of attributes as they are written: strings, and expressions in which brackets and quotes
are closed. A reader takes just that much from what starts with one.
-/

namespace ThemeRender.Markup

/-- What may stand between quotes: a backslash takes the character after it. -/
inductive QuotedBody (quote : Char) : List Char → Prop
  | nil : QuotedBody quote []
  | char {c : Char} {rest : List Char} (plain : c ≠ '\\') (other : c ≠ quote)
      (body : QuotedBody quote rest) : QuotedBody quote (c :: rest)
  | escape (c : Char) {rest : List Char} (body : QuotedBody quote rest) :
      QuotedBody quote ('\\' :: c :: rest)

def openers : List Char :=
  ['(', '[', '\x7b']

def closers : List Char :=
  [')', ']', '\x7d']

def quotes : List Char :=
  ['"', '\'']

/-- An expression in which brackets and quotes are closed, and which has none of the characters
`stops` outside of them. -/
inductive Balanced : List Char → List Char → Prop
  | nil {stops : List Char} : Balanced stops []
  | char {stops : List Char} {c : Char} {rest : List Char}
      (plain : c ∉ quotes ∧ c ∉ openers ∧ c ∉ closers) (goesOn : c ∉ stops)
      (after : Balanced stops rest) : Balanced stops (c :: rest)
  | quoted {stops : List Char} {quote : Char} {body rest : List Char} (isQuote : quote ∈ quotes)
      (closes : QuotedBody quote body) (after : Balanced stops rest) :
      Balanced stops (quote :: body ++ quote :: rest)
  | bracketed {stops : List Char} {opener closer : Char} {inner rest : List Char}
      (opens : opener ∈ openers) (closes : closer ∈ closers) (inside : Balanced [] inner)
      (after : Balanced stops rest) : Balanced stops (opener :: inner ++ closer :: rest)

def unescape : List Char → List Char
  | '\\' :: c :: rest => c :: unescape rest
  | c :: rest => c :: unescape rest
  | [] => []

variable {quote c : Char} {body rest : List Char}

theorem readString_body (noEscape : quote ≠ '\\') (closes : QuotedBody quote body)
    (rest : List Char) : readString quote (body ++ quote :: rest) = .ok (unescape body, rest) := by
  induction closes with
  | nil =>
      rw [List.nil_append, readString.eq_def]
      dsimp only
      rw [if_neg noEscape, if_pos rfl]
      rfl
  | @char c tail plain other _ ih =>
      have same : unescape (c :: tail) = c :: unescape tail := by
        rw [unescape.eq_2]
        intro d more escape
        exact absurd escape plain
      rw [List.cons_append, readString.eq_def]
      dsimp only
      rw [if_neg plain, if_neg other, ih, same]
      rfl
  | escape c _ ih =>
      rw [List.cons_append, List.cons_append, readString.eq_def]
      dsimp only
      rw [if_pos rfl, ih]
      rfl

def prependAll (part : List Char) (found : List Char × List Char) : List Char × List Char :=
  (part ++ found.1, found.2)

variable {terminators stops : List Char} {depth : Nat}

theorem spanExpr_body (noEscape : quote ≠ '\\') (closes : QuotedBody quote body)
    (rest : List Char) :
    spanExpr terminators depth (some quote) (body ++ quote :: rest) =
      prependAll (body ++ [quote]) (spanExpr terminators depth none rest) := by
  induction closes with
  | nil =>
      rw [List.nil_append, spanExpr.eq_def]
      dsimp only
      rw [if_neg noEscape, if_pos rfl]
      rfl
  | char plain other _ ih =>
      rw [List.cons_append, spanExpr.eq_def]
      dsimp only
      rw [if_neg plain, if_neg other, ih]
      rfl
  | escape c _ ih =>
      rw [List.cons_append, List.cons_append, spanExpr.eq_def]
      dsimp only
      rw [if_pos rfl, ih]
      rfl

section

variable {c : Char}

theorem spanExpr_outside : spanExpr terminators depth none (c :: rest) =
    if c ∈ quotes then prepend c (spanExpr terminators depth (some c) rest)
    else if c ∈ openers then prepend c (spanExpr terminators (depth + 1) none rest)
    else if c ∈ closers ∧ 0 < depth then prepend c (spanExpr terminators (depth - 1) none rest)
    else if depth = 0 ∧ c ∈ terminators then ([], c :: rest)
    else prepend c (spanExpr terminators depth none rest) := by
  rw [spanExpr.eq_def]
  exact if_congr (by simp [quotes]) rfl rfl

theorem spanExpr_plain (plain : c ∉ quotes ∧ c ∉ openers ∧ c ∉ closers)
    (goesOn : depth = 0 → c ∉ terminators) :
    spanExpr terminators depth none (c :: rest) =
      prepend c (spanExpr terminators depth none rest) := by
  obtain ⟨noQuote, noOpener, noCloser⟩ := plain
  rw [spanExpr_outside, if_neg noQuote, if_neg noOpener, if_neg fun closes => noCloser closes.1,
    if_neg fun stops => goesOn stops.1 stops.2]

theorem spanExpr_quote (isQuote : c ∈ quotes) :
    spanExpr terminators depth none (c :: rest) =
      prepend c (spanExpr terminators depth (some c) rest) := by
  rw [spanExpr_outside, if_pos isQuote]

theorem spanExpr_opener (opens : c ∈ openers) :
    spanExpr terminators depth none (c :: rest) =
      prepend c (spanExpr terminators (depth + 1) none rest) := by
  have noQuote : ∀ opener ∈ openers, opener ∉ quotes := by simp [openers, quotes]
  rw [spanExpr_outside, if_neg (noQuote c opens), if_pos opens]

theorem not_of_closer (closes : c ∈ closers) : c ∉ quotes ∧ c ∉ openers := by
  have different : ∀ closer ∈ closers, closer ∉ quotes ∧ closer ∉ openers := by
    simp [openers, closers, quotes]
  exact different c closes

theorem spanExpr_closer (closes : c ∈ closers) :
    spanExpr terminators (depth + 1) none (c :: rest) =
      prepend c (spanExpr terminators depth none rest) := by
  obtain ⟨noQuote, noOpener⟩ := not_of_closer closes
  rw [spanExpr_outside, if_neg noQuote, if_neg noOpener, if_pos ⟨closes, Nat.succ_pos depth⟩]
  rfl

theorem spanExpr_terminator (stops : c ∈ terminators) (noQuote : c ∉ quotes)
    (noOpener : c ∉ openers) : spanExpr terminators 0 none (c :: rest) = ([], c :: rest) := by
  rw [spanExpr_outside, if_neg noQuote, if_neg noOpener,
    if_neg fun closes => absurd closes.2 (Nat.lt_irrefl 0), if_pos ⟨rfl, stops⟩]

end

theorem noEscape_of_quote (isQuote : quote ∈ quotes) : quote ≠ '\\' := by
  rintro rfl
  exact absurd isQuote (by decide)

theorem spanExpr_balanced {code : List Char} (balanced : Balanced stops code)
    (ends : depth = 0 → ∀ c ∈ terminators, c ∈ stops ∨ c ∈ closers) (rest : List Char) :
    spanExpr terminators depth none (code ++ rest) =
      prependAll code (spanExpr terminators depth none rest) := by
  induction balanced generalizing depth rest with
  | nil => rfl
  | @char stops c tail plain goesOn _ ih =>
      have notTerminator (top : depth = 0) : c ∉ terminators := fun member =>
        (ends top c member).elim goesOn plain.2.2
      rw [List.cons_append, spanExpr_plain plain notTerminator, ih ends]
      rfl
  | @quoted stops quote body tail isQuote closes _ ih =>
      have whole : quote :: body ++ quote :: tail ++ rest =
          quote :: (body ++ quote :: (tail ++ rest)) := by simp
      rw [whole, spanExpr_quote isQuote, spanExpr_body (noEscape_of_quote isQuote) closes, ih ends]
      simp [prepend, prependAll]
  | @bracketed stops opener closer inner tail opens closes _ _ ihInside ihAfter =>
      have whole : opener :: inner ++ closer :: tail ++ rest =
          opener :: (inner ++ closer :: (tail ++ rest)) := by simp
      have inBrackets : depth + 1 = 0 → ∀ c ∈ terminators, c ∈ [] ∨ c ∈ closers :=
        fun none => absurd none (Nat.succ_ne_zero depth)
      rw [whole, spanExpr_opener opens, ihInside inBrackets, spanExpr_closer closes, ihAfter ends]
      simp [prepend, prependAll]

def valueStops : List Char :=
  [' ', '\t', ',']

/-- A value as it is written: a string, or an expression that does not start like one. -/
inductive SpelledValue where
  | quoted (quote : Char) (body : List Char) (isQuote : quote ∈ quotes)
      (closes : QuotedBody quote body)
  | bare (code : List Char) (balanced : Balanced valueStops code)
      (unquoted : ∀ c, code.head? = some c → c ∉ quotes)

namespace SpelledValue

def text : SpelledValue → List Char
  | quoted quote body _ _ => quote :: body ++ [quote]
  | bare code _ _ => code

def read : SpelledValue → Except CompileFault AttrValue
  | quoted _ body _ _ => (interpolate (unescape body)).map .literal
  | bare code _ _ =>
      if (Text.trim code).isEmpty then .error .missingAttributeValue
      else .ok (.expr (Text.trim code))

end SpelledValue

theorem Balanced.head {code : List Char} (balanced : Balanced valueStops code) :
    ∀ c, code.head? = some c → c ∉ valueStops ∧ c ∉ closers := by
  intro c first
  cases balanced with
  | nil => cases first
  | char plain goesOn after =>
      cases first
      exact ⟨goesOn, plain.2.2⟩
  | quoted isQuote closes after =>
      cases first
      have apart : ∀ quote ∈ quotes, quote ∉ valueStops ∧ quote ∉ closers := by
        simp [quotes, valueStops, closers]
      exact apart c isQuote
  | bracketed opens closes inside after =>
      cases first
      have apart : ∀ opener ∈ openers, opener ∉ valueStops ∧ opener ∉ closers := by
        simp [openers, valueStops, closers]
      exact apart c opens

/-- A reader stops at the terminators, and the values here hold none outside of brackets and
quotes. -/
structure Terminates (terminators : List Char) (c : Char) : Prop where
  outside : ∀ stop ∈ terminators, stop ∈ valueStops ∨ stop ∈ closers
  ends : c ∈ terminators

theorem Terminates.plain (terminates : Terminates terminators c) : c ∉ quotes ∧ c ∉ openers := by
  rcases terminates.outside c terminates.ends with stop | closes
  · have apart : ∀ stop ∈ valueStops, stop ∉ quotes ∧ stop ∉ openers := by
      simp [valueStops, quotes, openers]
    exact apart c stop
  · exact not_of_closer closes

theorem SpelledValue.readValue_text (value : SpelledValue) (terminates : Terminates terminators c)
    (more : List Char) :
    readValue terminators (value.text ++ c :: more) = value.read.map (·, c :: more) := by
  cases value with
  | quoted quote body isQuote closes =>
      have whole : quote :: body ++ [quote] ++ c :: more =
          quote :: (body ++ quote :: c :: more) := by
        simp
      rw [text, whole, readValue.eq_def]
      dsimp only
      rw [if_pos (by simpa [quotes] using isQuote),
        readString_body (noEscape_of_quote isQuote) closes, read]
      dsimp only
      cases interpolate (unescape body) <;> rfl
  | bare code balanced unquoted =>
      have found : spanExpr terminators 0 none (code ++ c :: more) = (code, c :: more) := by
        rw [spanExpr_balanced balanced fun _ => terminates.outside,
          spanExpr_terminator terminates.ends terminates.plain.1 terminates.plain.2]
        simp [prependAll]
      obtain ⟨d, tail, whole, noQuote⟩ : ∃ d tail, code ++ c :: more = d :: tail ∧ d ∉ quotes := by
        cases code with
        | nil => exact ⟨c, more, rfl, terminates.plain.1⟩
        | cons d code => exact ⟨d, code ++ c :: more, rfl, unquoted d rfl⟩
      rw [text, read, whole, readValue.eq_def]
      dsimp only
      rw [if_neg (by simpa [quotes] using noQuote), ← whole, found]
      dsimp only
      split <;> rfl

theorem SpelledValue.skipSpaces_text (value : SpelledValue) (noSpace : c ≠ ' ' ∧ c ≠ '\t')
    (more : List Char) : skipSpaces (value.text ++ c :: more) = value.text ++ c :: more := by
  obtain ⟨d, tail, whole, noSpace⟩ :
      ∃ d tail, value.text ++ c :: more = d :: tail ∧ d ≠ ' ' ∧ d ≠ '\t' := by
    cases value with
    | quoted quote body isQuote closes =>
        have apart : ∀ quote ∈ quotes, quote ≠ ' ' ∧ quote ≠ '\t' := by simp [quotes]
        exact ⟨quote, body ++ [quote] ++ c :: more, rfl, apart quote isQuote⟩
    | bare code balanced unquoted =>
        cases code with
        | nil => exact ⟨c, more, rfl, noSpace⟩
        | cons d code =>
            have goesOn := (balanced.head d rfl).1
            exact ⟨d, code ++ c :: more, rfl, by simp_all [valueStops]⟩
  rw [whole]
  exact List.dropWhile_cons_of_neg (by simp [noSpace])

end ThemeRender.Markup
