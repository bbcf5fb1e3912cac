import ThemeRender.Proofs.Template.Partition
import ThemeRender.Proofs.Template.Stuck
import ThemeRender.Proofs.Text.Positions
import ThemeRender.Template.Tag
/-!
Where the errors in the code of a tag are. Each is at a piece of the code, but for errors at its end:
those run back to the last token, over the blanks after it.
-/

namespace ThemeRender.Template

open Text (StandsAt byteLength)

variable {c : Char} {s rest code text : List Char} {token : Token} {tokens : List (Spanned Token)}

/-! The last character of a token -/

def EndsSolid (text : List Char) : Prop :=
  ∃ last, text.getLast? = some last ∧ isGap last = false

theorem EndsSolid.append (front : List Char) (ends : EndsSolid s) : EndsSolid (front ++ s) := by
  obtain ⟨last, isLast, noGap⟩ := ends
  exact ⟨last, by rw [List.getLast?_append, isLast, Option.some_or], noGap⟩

theorem EndsSolid.not_blank (ends : EndsSolid s) : ¬ ∀ c ∈ s, isGap c = true := by
  obtain ⟨last, isLast, noGap⟩ := ends
  intro blank
  rw [blank last (List.mem_of_getLast? isLast)] at noGap
  cases noGap

theorem EndsSolid.of_append {gap : List Char} (ends : EndsSolid (s ++ gap)) (more : gap ≠ []) :
    EndsSolid gap := by
  obtain ⟨last, isLast, noGap⟩ := ends
  rw [List.getLast?_append, List.getLast?_eq_some_getLast more, Option.some_or] at isLast
  exact ⟨last, (List.getLast?_eq_some_getLast more).trans isLast, noGap⟩

theorem TokenText.endsSolid (tokenText : TokenText token text) : EndsSolid text := by
  have isLast := List.getLast?_eq_some_getLast tokenText.ne_nil
  exact ⟨_, isLast, (tokenText.last_isBorder isLast).not_isGap⟩

/-! Where tokens are -/

theorem Lexes.blank {offset : Nat} (lexes : Lexes offset s []) : ∀ d ∈ s, isGap d = true := by
  generalize none : ([] : List (Spanned Token)) = tokens at lexes
  induction lexes with
  | nil => simp
  | gap gap _ ih =>
      intro d member
      rcases List.mem_cons.mp member with rfl | member
      · exact gap
      · exact ih none d member
  | token => cases none

theorem Lexes.covers {offset : Nat} (lexes : Lexes offset s tokens)
    (stands : StandsAt text s offset) :
    ∀ token ∈ tokens, ∃ piece, token.span.Covers text piece := by
  intro token member
  obtain ⟨before, piece, after, rfl, span, -⟩ := lexes.texts token member
  rw [span]
  exact ⟨piece, stands.right.left, rfl⟩

theorem Lexes.last {offset : Nat} {last : Spanned Token} (lexes : Lexes offset s tokens)
    (isLast : tokens.getLast? = some last) :
    ∃ solid gap, s = solid ++ gap ∧ Lexes offset solid tokens ∧ EndsSolid solid ∧
      (∀ d ∈ gap, isGap d = true) ∧ last.span.stop = offset + byteLength solid := by
  induction lexes with
  | nil => cases isLast
  | @gap offset c rest tokens gap _ ih =>
      obtain ⟨solid, after, rfl, lexes, ends, blank, stop⟩ := ih isLast
      refine ⟨c :: solid, after, rfl, .gap gap lexes, ends.append [c], blank, ?_⟩
      rw [stop, Text.byteLength_cons, Nat.add_assoc]
  | @token offset c rest token tokens noGap found after ih =>
      have whole := lexeme_text_append_rest c rest
      have tokenText := tokenText_of_lexeme found
      cases tokens with
      | nil =>
          cases isLast
          have alone := Lexes.ofToken tokenText (endsBefore_nil _)
            (.nil (offset + byteLength (lexeme c rest).text))
          rw [List.append_nil] at alone
          exact ⟨_, _, whole.symm, alone, tokenText.endsSolid, after.blank, rfl⟩
      | cons next more =>
          obtain ⟨solid, gap, same, lexes, ends, blank, stop⟩ := ih isLast
          have endsBefore := (endsBefore_lexeme found).front ⟨gap, same.symm⟩
          refine ⟨(lexeme c rest).text ++ solid, gap, ?_, .ofToken tokenText endsBefore lexes,
            ends.append _, blank, ?_⟩
          · rw [List.append_assoc, ← same, whole]
          · rw [stop, Text.byteLength_append, Nat.add_assoc]

theorem covers_of_lexFrom_error {offset : Nat} {span : Span}
    (fails : lexFrom offset s = .error span) (stands : StandsAt text s offset) :
    ∃ piece, span.Covers text piece := by
  obtain ⟨before, c, rest, tokens, rfl, -, -, rfl⟩ := lexes_before_error fails
  rw [← lexeme_text_append_rest c rest] at stands
  exact ⟨_, stands.right.left, rfl⟩

/-! The error in a code -/

inductive CodeError (code : List Char) : SyntaxError → Prop
  | inside {span : Span} {piece : List Char} (fault : SyntaxFault) (covers : span.Covers code piece)
      (notAtEnd : ∀ expected, fault ≠ .unexpected none expected) : CodeError code ⟨span, fault⟩
  | blank (expected : List Expected) (gaps : ∀ c ∈ code, isGap c = true) :
      CodeError code ⟨⟨byteLength code, byteLength code⟩, .unexpected none expected⟩
  | short {solid gap : List Char} (expected : List Expected) (split : code = solid ++ gap)
      (ends : EndsSolid solid) (gaps : ∀ c ∈ gap, isGap c = true) :
      CodeError code ⟨⟨byteLength code, byteLength solid⟩, .unexpected none expected⟩

theorem codeError_of_readCode {α : Type} {reader : Reader α} {error : SyntaxError}
    (stays : reader.StaysWithin) (fails : readCode reader code = .error error) :
    CodeError code error := by
  unfold readCode at fails
  cases lexed : lex code with
  | error span =>
      rw [lexed] at fails
      cases fails
      obtain ⟨piece, covers⟩ := covers_of_lexFrom_error lexed (.whole code)
      exact .inside _ covers (by simp)
  | ok tokens =>
      have lexes := lexes_of_eq_ok lexed
      have within := (stays tokens).stuck
      rw [lexed] at fails
      dsimp only at fails
      split at fails
      · cases fails
      · cases fails
        generalize stuckHere : (reader tokens).stuck?.getD ⟨tokens, []⟩ = stuck
        have ends : stuck.rest <:+ tokens := by
          subst stuckHere
          cases reported : (reader tokens).stuck? with
          | none => exact List.suffix_refl _
          | some found => exact within found reported
        unfold stuckError
        rw [stuckHere]
        unfold stuckSpan
        dsimp only
        cases left : stuck.rest with
        | cons token more =>
            rw [left] at ends
            obtain ⟨piece, covers⟩ :=
              lexes.covers (.whole code) token (ends.mem List.mem_cons_self)
            exact .inside _ covers (by simp)
        | nil =>
            cases isLast : tokens.getLast? with
            | none =>
                rw [List.getLast?_eq_none_iff.mp isLast] at lexes
                exact .blank _ lexes.blank
            | some last =>
                obtain ⟨solid, gap, split, -, solidEnds, gaps, stop⟩ := lexes.last isLast
                rw [Nat.zero_add] at stop
                simp only [Option.map_some, Option.getD_some, stop]
                exact .short _ split solidEnds gaps

/-- Whether there are blanks after the last character of a code that is none. -/
def EndsInGap (code : List Char) : Prop :=
  ∃ solid gap, code = solid ++ gap ∧ EndsSolid solid ∧ gap ≠ [] ∧ ∀ c ∈ gap, isGap c = true

namespace CodeError

variable {error : SyntaxError} {offset : Nat}

theorem start_boundary (found : CodeError code error) (stands : StandsAt text code offset) :
    Text.IsBoundary text (error.shift offset).span.start := by
  cases found with
  | inside fault covers _ => exact (covers.shift stands).start_boundary
  | blank => exact stands.stop
  | short => exact stands.stop

theorem stop_boundary (found : CodeError code error) (stands : StandsAt text code offset) :
    Text.IsBoundary text (error.shift offset).span.stop := by
  cases found with
  | inside fault covers _ => exact (covers.shift stands).stop_boundary
  | blank => exact stands.stop
  | short expected split =>
      subst split
      exact stands.left.stop

/-- The error runs backward just when it is at the end of a code that ends in blanks. -/
theorem stop_lt_start_iff (found : CodeError code error) :
    error.span.stop < error.span.start ↔
      (∃ expected, error.fault = .unexpected none expected) ∧ EndsInGap code := by
  cases found with
  | inside fault covers notAtEnd =>
      constructor
      · intro backward
        exact absurd covers.start_le_stop (Nat.not_le.mpr backward)
      · rintro ⟨⟨expected, atEnd⟩, -⟩
        exact absurd atEnd (notAtEnd expected)
  | blank expected gaps =>
      constructor
      · intro backward
        exact absurd backward (Nat.lt_irrefl _)
      · rintro ⟨-, _, gap, rfl, ends, -, -⟩
        exact absurd (fun c member => gaps c (List.mem_append_left gap member)) ends.not_blank
  | @short solid gap expected split ends gaps =>
      subst split
      dsimp only
      rw [Text.byteLength_append]
      constructor
      · intro backward
        refine ⟨⟨expected, rfl⟩, solid, gap, rfl, ends, ?_, gaps⟩
        rintro rfl
        exact Nat.lt_irrefl _ backward
      · rintro ⟨-, other, after, same, -, more, blank⟩
        have longer : gap ≠ [] := by
          rintro rfl
          rw [List.append_nil] at same
          rw [same] at ends
          exact (ends.of_append more).not_blank blank
        have positive := Text.byteLength_pos longer
        omega

end CodeError

end ThemeRender.Template
