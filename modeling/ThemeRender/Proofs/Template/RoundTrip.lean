import ThemeRender.Proofs.Template.Nesting
import ThemeRender.Proofs.Template.Partition
import ThemeRender.Proofs.Template.Spelling
import ThemeRender.Template.Recorder
import ThemeRender.Template.Run

namespace ThemeRender.Template

def Written.template (w : Written) : String :=
  String.ofList ("<%= ".toList ++ w.text ++ " %>".toList)

theorem Written.readOutput (w : Written) :
    ∃ span, readCode readOutput (' ' :: w.text ++ [' ']) = .ok ⟨w.expr, span⟩ := by
  obtain ⟨row, derives, spells⟩ := w.speltBy
  obtain ⟨tokens, lexes, same⟩ :=
    (spells [' '] [] (delimited_cons (.inl rfl) []) Spells.nil.blank).blank 0
  rw [List.append_nil] at same
  have whole : IsExpr tokens w.expr :=
    isExpr_iff_derives.mpr (same ▸ derives.loosen (Nat.zero_le _))
  exact ⟨_, readCode_of_tokens lexes.eq_ok whole.readOutput⟩

theorem parse_outputTag {code : List Char} {value : Spanned Expr}
    (closed : Text.Lacks tagClose code) (read : readCode readOutput code = .ok value) :
    parse (String.ofList ("<%=".toList ++ (code ++ "%>".toList))) =
      .ok [.output (value.shift 3)] := by
  have opens : Text.cut? tagOpen ("<%=".toList ++ (code ++ "%>".toList)) =
      some ([], '=' :: (code ++ "%>".toList)) :=
    Text.cut?_mark (by decide) Text.lacks_nil _
  have closes : Text.cut? tagClose (TagKind.ofText ('=' :: (code ++ "%>".toList))).2 =
      some (code, []) :=
    Text.cut?_mark (by decide) closed []
  have place : 0 + Text.byteLength ("<%=".toList ++ (code ++ "%>".toList)) -
      Text.byteLength (code ++ "%>".toList) = 3 := by
    rw [Nat.zero_add, Text.byteLength_append, Nat.add_sub_cancel]
    rfl
  have split := segmentsFrom_cut opens closes 0 true
  simp only [wholeLine?, TagKind.ofText, if_true, segmentsFrom_last Text.lacks_nil, place] at split
  apply parse_eq_ok_iff.mpr
  rw [String.toList_ofList]
  exact ⟨_, _, split, .output 3 _ read .nil, rfl⟩

theorem Written.parse_template (w : Written) :
    ∃ span, parse w.template = .ok [.output ⟨w.expr, span⟩] := by
  obtain ⟨span, read⟩ := w.readOutput
  have closed : Closed (' ' :: w.text ++ [' ']) :=
    (w.closed.cons (by decide)).append (closed_of_not_mem (by decide))
  have template : "<%= ".toList ++ w.text ++ " %>".toList =
      "<%=".toList ++ ((' ' :: w.text ++ [' ']) ++ "%>".toList) := by
    simp
  have parsed := parse_outputTag closed.1 read
  exact ⟨_, (congrArg (parse <| String.ofList ·) template).trans parsed⟩

/-! Expressions of a template -/

mutual

def Node.exprs : Node → List Expr
  | .text _ => []
  | .output value => [value.node]
  | .eval code => [code.node]
  | .branch condition yes no => condition.node :: (Node.allExprs yes ++ Node.allExprs no)
  | .each _ items body => items.node :: Node.allExprs body

def Node.allExprs : List Node → List Expr
  | [] => []
  | node :: rest => node.exprs ++ Node.allExprs rest

end

def Part.exprs : Part → List Expr
  | .output e | .eval e | .ifBegin e | .forBegin _ e => [e]
  | .text _ | .elseBegin | .blockEnd => []

variable {nodes : List Node} {parts : List Part} {e : Expr}

theorem Unfolds.allExprs (unfolds : Unfolds nodes parts) :
    Node.allExprs nodes = parts.flatMap Part.exprs := by
  induction unfolds with
  | nil => rfl
  | text contents _ ih | output value _ ih | eval code _ ih =>
      simp [Node.allExprs, Node.exprs, Part.exprs, ih]
  | branch condition _ _ ihFirst ih => simp [Node.allExprs, Node.exprs, Part.exprs, ihFirst, ih]
  | branchElse condition _ _ _ ihFirst ihSecond ih =>
      simp [Node.allExprs, Node.exprs, Part.exprs, ihFirst, ihSecond, ih]
  | each name items _ _ ihInside ih =>
      simp [Node.allExprs, Node.exprs, Part.exprs, ihInside, ih]

theorem Directs.isWritten {row : List Token} {part : Part} (directs : Directs row part)
    (spelt : ∀ token ∈ row, token.IsWritten) (member : e ∈ part.exprs) :
    ∃ w : Written, w.expr = e := by
  cases directs with
  | eval code =>
      rw [List.mem_singleton.mp member]
      exact code.isWritten spelt
  | ifBegin condition =>
      rw [List.mem_singleton.mp member]
      exact condition.isWritten (List.forall_mem_cons.mp spelt).2
  | forBegin name items =>
      rw [List.mem_singleton.mp member]
      simp only [List.forall_mem_cons] at spelt
      exact items.isWritten spelt.2.2.2
  | elseBegin | blockEnd => cases member

theorem Reads.isWritten {pieces : List Layout.Piece} (reads : Reads pieces parts)
    (member : e ∈ parts.flatMap Part.exprs) : ∃ w : Written, w.expr = e := by
  induction reads with
  | nil => cases member
  | text contents _ ih => exact ih member
  | comment code _ ih => exact ih member
  | output lexed value _ ih =>
      rcases List.mem_append.mp member with here | later
      · rw [List.mem_singleton.mp here]
        exact value.isWritten (lexes_of_eq_ok lexed).isWritten
      · exact ih later
  | code lexed directs _ ih =>
      rcases List.mem_append.mp member with here | later
      · exact directs.isWritten (lexes_of_eq_ok lexed).isWritten here
      · exact ih later

/-- An expression is read back from the text it is written as. Every expression of an accepted
template can be written, and is read back from there. -/
theorem written_reads_back :
    (∀ w : Written, ∃ span, parse w.template = .ok [.output ⟨w.expr, span⟩]) ∧
      ∀ source nodes, parse source = .ok nodes → ∀ e ∈ Node.allExprs nodes,
        ∃ w : Written, w.expr = e ∧ ∃ span, parse w.template = .ok [.output ⟨e, span⟩] := by
  refine ⟨Written.parse_template, ?_⟩
  intro source nodes parsed e member
  obtain ⟨⟨layout, laidOut⟩, unfolded⟩ := unfolds_of_parse parsed
  obtain ⟨parts, reads, unfolds⟩ := unfolded layout laidOut
  rw [unfolds.allExprs] at member
  obtain ⟨w, rfl⟩ := reads.isWritten member
  exact ⟨w, rfl, w.parse_template⟩

/-! Templates that output a string -/

open Text (byteLength)

variable {quote : Char} {text contents : List Char}

theorem isExpr_literal {token : Token} {value : Value}
    (isLiteral : Expr.literalOf? token = some value) (span : Span) :
    IsExpr [⟨token, span⟩] (.literal value) := by
  have operand := Derives.literal isLiteral
  exact isExpr_iff_derives.mpr (operand.loosen (Nat.zero_le _))

theorem readOutput_quoted (isQuote : IsQuote quote) (body : QuotedBody quote text contents) :
    ∃ span, readCode readOutput (quote :: (text ++ [quote])) =
      .ok ⟨.literal (.string (String.ofList contents)), span⟩ := by
  have lexed := (TokenText.string isQuote body).lex
  have isLiteral : Expr.literalOf? (.string (String.ofList contents)) =
      some (.string (String.ofList contents)) := rfl
  exact ⟨_, readCode_of_tokens lexed (isExpr_literal isLiteral _).readOutput⟩

def quotedTemplate (quote : Char) (text : List Char) : String :=
  String.ofList ("<%= ".toList ++ (quote :: (text ++ [quote])) ++ " %>".toList)

theorem parse_quotedTemplate (isQuote : IsQuote quote) (body : QuotedBody quote text contents)
    (closed : Closed (quote :: text)) :
    ∃ span, parse (quotedTemplate quote text) =
      .ok [.output ⟨.literal (.string (String.ofList contents)), span⟩] := by
  obtain ⟨span, read⟩ := readOutput_quoted isQuote body
  have noEnd : quote ≠ '>' := by
    rcases isQuote with rfl | rfl
    · decide
    · decide
  have closing : Closed [quote] := closed_of_not_mem (by simpa using noEnd.symm)
  have padded : Closed (' ' :: (quote :: (text ++ [quote])) ++ [' ']) :=
    ((closed.append closing).cons (by decide)).append (closed_of_not_mem (by decide))
  have template : "<%= ".toList ++ (quote :: (text ++ [quote])) ++ " %>".toList =
      "<%=".toList ++ ((' ' :: (quote :: (text ++ [quote])) ++ [' ']) ++ "%>".toList) := by
    simp
  have parsed := parse_outputTag padded.1 (readOutput_padded read)
  exact ⟨_, (congrArg (parse <| String.ofList ·) template).trans parsed⟩

theorem run_string {σ : Type} (host : Host σ) (label source : String) (locals : Locals)
    (s : String) (span : Span) (stage : Stage σ) :
    run host label source locals [.output ⟨.literal (.string s), span⟩] stage =
      .ok () { stage with frames := stage.frames.write s } :=
  rfl

/-- Every string can be written in a template, between quotes of either kind: with `escapeWith` the
template is accepted and its run writes the string, whatever the locals and the host are, and does
nothing else. No two strings are written alike. -/
theorem strings_are_writable :
    (∀ quote, IsQuote quote → ∀ s : String, ∃ nodes,
      parse (quotedTemplate quote (escapeWith quote s.toList)) = .ok nodes ∧
      ∀ (σ : Type) (host : Host σ) (label : String) (locals : Locals) (stage : Stage σ),
        run host label (quotedTemplate quote (escapeWith quote s.toList)) locals nodes stage =
          .ok () { stage with frames := stage.frames.write s }) ∧
    ∀ quote, IsQuote quote → ∀ first second : String, first ≠ second →
      escapeWith quote first.toList ≠ escapeWith quote second.toList := by
  constructor
  · intro quote isQuote s
    obtain ⟨span, parsed⟩ := parse_quotedTemplate isQuote (quotedBody_escapeWith isQuote s.toList)
      (escapeWith_closed isQuote s.toList)
    rw [String.ofList_toList] at parsed
    refine ⟨_, parsed, ?_⟩
    intro σ host label locals stage
    exact run_string host label _ locals s span stage
  · intro quote isQuote first second different same
    exact different (String.toList_injective (escapeWith_injective isQuote same))

theorem discount_is_writable :
    let source := "<%= '50%\\> of \\'A\\\\B\\'' %>"
    IsQuote '\'' ∧ quotedTemplate '\'' (escapeWith '\'' "50%> of 'A\\B'".toList) = source ∧
    (∃ nodes, parse source = .ok nodes ∧
      run (recorder []) "inline" source .empty nodes ⟨.empty, []⟩ =
        .ok () ⟨⟨"50%> of 'A\\B'", []⟩, []⟩) ∧
    "%>" ≠ "%\\>" ∧ escapeWith '\'' "%>".toList ≠ escapeWith '\'' "%\\>".toList := by
  intro source
  have isQuote : IsQuote '\'' := .inr rfl
  have written : quotedTemplate '\'' (escapeWith '\'' "50%> of 'A\\B'".toList) = source := by
    decide
  have different : "%>" ≠ "%\\>" := by decide
  obtain ⟨writable, apart⟩ := strings_are_writable
  obtain ⟨nodes, parsed, runs⟩ := writable '\'' isQuote "50%> of 'A\\B'"
  rw [written] at parsed runs
  refine ⟨isQuote, written, ⟨nodes, parsed, ?_⟩, different, apart '\'' isQuote _ _ different⟩
  exact runs _ (recorder []) "inline" .empty ⟨.empty, []⟩

end ThemeRender.Template
