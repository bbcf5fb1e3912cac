import ThemeRender.Proofs.Template.Partition
import ThemeRender.Proofs.Template.Reading
import ThemeRender.Template.Tag
/-!
Code that is written into a tag: an expression alone or after `if`, the binding of a loop after
`for`, and the words `else` and `end`. The tag says what the code says, further on in the text.
-/

namespace ThemeRender.Template

variable {code : List Char} {value : Spanned Expr} {name : String}

theorem tokens_of_readCode {α : Type} {reader : Reader α} {a : α}
    (reads : readCode reader code = .ok a) :
    ∃ tokens rest, lex code = .ok tokens ∧ (reader tokens).found? = some (a, rest) := by
  unfold readCode at reads
  cases lexed : lex code with
  | error span =>
      rw [lexed] at reads
      cases reads
  | ok tokens =>
      rw [lexed] at reads
      simp only at reads
      cases found : (reader tokens).found? with
      | none =>
          rw [found] at reads
          cases reads
      | some pair =>
          rw [found] at reads
          cases reads
          exact ⟨tokens, pair.2, rfl, found⟩

theorem readCode_of_tokens {α : Type} {reader : Reader α} {a : α} {tokens : List (Spanned Token)}
    {rest : List (Spanned Token)} (lexed : lex code = .ok tokens)
    (found : (reader tokens).found? = some (a, rest)) : readCode reader code = .ok a := by
  unfold readCode
  rw [lexed]
  simp only [found]

theorem expr_of_readCode (reads : readCode readOutput code = .ok value) :
    ∃ tokens, lex code = .ok tokens ∧ IsExpr tokens value.node ∧
      value = ⟨value.node, spanOf tokens⟩ := by
  obtain ⟨tokens, rest, lexed, found⟩ := tokens_of_readCode reads
  obtain ⟨whole, span⟩ := isExpr_of_readOutput found
  exact ⟨tokens, lexed, whole, span ▸ rfl⟩

theorem shift_spanOf {tokens : List (Spanned Token)} {e : Expr} (whole : IsExpr tokens e)
    (offset : Nat) :
    (⟨e, spanOf (shiftAll offset tokens)⟩ : Spanned Expr) =
      Spanned.shift offset ⟨e, spanOf tokens⟩ := by
  rw [spanOf_shiftAll offset whole.ne_nil]
  rfl

theorem readOutput_padded (reads : readCode readOutput code = .ok value) :
    readCode readOutput (' ' :: code ++ [' ']) = .ok (value.shift 1) := by
  obtain ⟨tokens, lexed, whole, same⟩ := expr_of_readCode reads
  rw [same, ← shift_spanOf whole]
  exact readCode_of_tokens (lex_padded lexed) (whole.shiftAll 1).readOutput

theorem readDirective_padded (reads : readCode readOutput code = .ok value) :
    readCode readDirective (' ' :: code ++ [' ']) = .ok (.eval (value.shift 1)) := by
  obtain ⟨tokens, lexed, whole, same⟩ := expr_of_readCode reads
  rw [same, ← shift_spanOf whole]
  exact readCode_of_tokens (lex_padded lexed) (whole.shiftAll 1).readDirective

theorem readDirective_if (reads : readCode readOutput code = .ok value) :
    readCode readDirective (' ' :: ("if ".toList ++ code) ++ [' ']) =
      .ok (.ifBegin (value.shift 4)) := by
  obtain ⟨tokens, lexed, whole, same⟩ := expr_of_readCode reads
  rw [same, ← shift_spanOf whole]
  have spaced := @lex_after_word 'i' code tokens ['f'] (by decide) (List.all_eq_true.mp rfl) lexed
  exact readCode_of_tokens spaced ((whole.shiftAll 4).readDirective_if _)

theorem readDirective_for (reads : readCode readBinding code = .ok (name, value)) :
    readCode readDirective (' ' :: ("for ".toList ++ code) ++ [' ']) =
      .ok (.forBegin name (value.shift 5)) := by
  obtain ⟨tokens, rest, lexed, found⟩ := tokens_of_readCode reads
  obtain ⟨nameSpan, inSpan, exprTokens, rfl, whole, span⟩ := tokens_of_readBinding found
  have same : value = ⟨value.node, spanOf exprTokens⟩ := span ▸ rfl
  rw [same, ← shift_spanOf whole]
  have spaced := @lex_after_word 'f' code _ ['o', 'r'] (by decide) (List.all_eq_true.mp rfl)
    lexed
  exact readCode_of_tokens spaced ((whole.shiftAll 5).readDirective_for name _ _ _)

theorem readDirective_else :
    readCode readDirective (' ' :: "else".toList ++ [' ']) = .ok .elseBegin := by
  have lexed := @lex_word 'e' ['l', 's', 'e'] (by decide) (List.all_eq_true.mp rfl)
  exact readCode_of_tokens lexed (found?_readDirective_else _)

theorem readDirective_end :
    readCode readDirective (' ' :: "end".toList ++ [' ']) = .ok .blockEnd := by
  have lexed := @lex_word 'e' ['n', 'd'] (by decide) (List.all_eq_true.mp rfl)
  exact readCode_of_tokens lexed (found?_readDirective_end _)

/-! Where an expression starts -/

theorem start_spanOf_le {tokens exprTokens : List (Spanned Token)} {e : Expr}
    (lexed : lex code = .ok tokens) (whole : IsExpr exprTokens e) (within : exprTokens ⊆ tokens) :
    (spanOf exprTokens).start ≤ Text.byteLength code := by
  obtain ⟨head, rest, rfl, _⟩ := whole.head
  have starts := (lexes_of_eq_ok lexed).start_of_mem (within List.mem_cons_self)
  rwa [Nat.zero_add] at starts

theorem start_of_readOutput (reads : readCode readOutput code = .ok value) :
    value.span.start ≤ Text.byteLength code := by
  obtain ⟨tokens, lexed, whole, same⟩ := expr_of_readCode reads
  rw [same]
  exact start_spanOf_le lexed whole (List.Subset.refl _)

theorem start_of_readBinding (reads : readCode readBinding code = .ok (name, value)) :
    value.span.start ≤ Text.byteLength code := by
  obtain ⟨tokens, rest, lexed, found⟩ := tokens_of_readCode reads
  obtain ⟨nameSpan, inSpan, exprTokens, rfl, whole, span⟩ := tokens_of_readBinding found
  rw [span]
  apply start_spanOf_le lexed whole
  intro token member
  exact List.mem_cons_of_mem _ (List.mem_cons_of_mem _ member)

end ThemeRender.Template
