import ThemeRender.Proofs.Template.Layout
import ThemeRender.Proofs.Template.Recognition
import ThemeRender.Proofs.Template.TagCode
import ThemeRender.Template.Expr
/-!
What the pieces of a template say. `Directs` is the grammar of the code of a tag that is neither
output nor comment; the reader of such code takes just what it allows.
-/

namespace ThemeRender.Template

inductive Part where
  | text (contents : String)
  | output (value : Expr)
  | eval (code : Expr)
  | ifBegin (condition : Expr)
  | elseBegin
  | forBegin (name : String) (items : Expr)
  | blockEnd

def Directive.part : Directive → Part
  | .ifBegin condition => .ifBegin condition.node
  | .elseBegin => .elseBegin
  | .blockEnd => .blockEnd
  | .forBegin name items => .forBegin name items.node
  | .eval code => .eval code.node

@[simp] theorem Directive.part_shift (directive : Directive) (offset : Nat) :
    (directive.shift offset).part = directive.part := by
  cases directive <;> rfl

inductive Directs : List Token → Part → Prop
  | eval {e : Expr} {row : List Token} (code : Derives (.expr .disjunction e) row) :
      Directs row (.eval e)
  | ifBegin {e : Expr} {row : List Token} (condition : Derives (.expr .disjunction e) row) :
      Directs (.keyword .ifKw :: row) (.ifBegin e)
  | forBegin (name : String) {e : Expr} {row : List Token}
      (items : Derives (.expr .disjunction e) row) :
      Directs (.keyword .forKw :: .ident name :: .keyword .inKw :: row) (.forBegin name e)
  | elseBegin : Directs [.keyword .elseKw] .elseBegin
  | blockEnd : Directs [.keyword .endKw] .blockEnd

/-- What the pieces say one after another. A comment says nothing. -/
inductive Reads : List Layout.Piece → List Part → Prop
  | nil : Reads [] []
  | text (contents : List Char) {pieces : List Layout.Piece} {parts : List Part}
      (rest : Reads pieces parts) :
      Reads (.text contents :: pieces) (.text (String.ofList contents) :: parts)
  | output {code : List Char} {tokens : List (Spanned Token)} {e : Expr}
      {pieces : List Layout.Piece} {parts : List Part} (lexed : lex code = .ok tokens)
      (value : Derives (.expr .disjunction e) (plain tokens)) (rest : Reads pieces parts) :
      Reads (.tag .output code :: pieces) (.output e :: parts)
  | code {code : List Char} {tokens : List (Spanned Token)} {part : Part}
      {pieces : List Layout.Piece} {parts : List Part} (lexed : lex code = .ok tokens)
      (directs : Directs (plain tokens) part) (rest : Reads pieces parts) :
      Reads (.tag .code code :: pieces) (part :: parts)
  | comment (code : List Char) {pieces : List Layout.Piece} {parts : List Part}
      (rest : Reads pieces parts) : Reads (.tag .comment code :: pieces) parts

/-! The code of a tag is read as the grammar says -/

open Reader (Sound)

theorem Reader.Sound.spanned {α : Type} {reader : Reader α} {Tells : α → List Token → Prop}
    (sound : reader.Sound Tells) :
    (Reader.spanned reader).Sound fun value row => Tells value.node row := by
  intro tokens value rest found
  unfold Reader.spanned at found
  cases inner : (reader tokens).found? with
  | none =>
      simp only [inner] at found
      cases found
  | some pair =>
      simp only [inner] at found
      cases found
      exact sound tokens pair.1 pair.2 inner

theorem directs_of_readDirective {tokens rest : List (Spanned Token)} {directive : Directive}
    (found : (readDirective tokens).found? = some (directive, rest)) :
    Directs (plain tokens) directive.part := by
  have expr := (Expr.read_sound).spanned
  have begins : (do Reader.keyword .ifKw; Directive.ifBegin <$> Reader.spanned Expr.read :
      Reader Directive).Sound fun directive row => Directs row directive.part := by
    apply ((Sound.keyword .ifKw).bind fun _ => expr.map _).mono
    rintro _ row ⟨_, _, more, rfl, rfl, condition, rfl, derives⟩
    exact .ifBegin derives
  have loops : (do
        Reader.keyword .forKw
        let name ← Reader.ident
        Reader.keyword .inKw
        Directive.forBegin name <$> Reader.spanned Expr.read :
      Reader Directive).Sound fun directive row => Directs row directive.part := by
    apply ((Sound.keyword .forKw).bind fun _ => Sound.ident.bind fun _ =>
      (Sound.keyword .inKw).bind fun _ => expr.map _).mono
    rintro _ row ⟨_, _, _, rfl, rfl, name, _, _, rfl, rfl, _, _, more, rfl, rfl, items, rfl, derives⟩
    exact .forBegin name derives
  have elses : (do Reader.keyword .elseKw; return Directive.elseBegin :
      Reader Directive).Sound fun directive row => Directs row directive.part := by
    apply ((Sound.keyword .elseKw).bind fun _ => Sound.pure _).mono
    rintro _ row ⟨_, _, _, rfl, rfl, rfl, rfl⟩
    exact .elseBegin
  have ends : (do Reader.keyword .endKw; return Directive.blockEnd :
      Reader Directive).Sound fun directive row => Directs row directive.part := by
    apply ((Sound.keyword .endKw).bind fun _ => Sound.pure _).mono
    rintro _ row ⟨_, _, _, rfl, rfl, rfl, rfl⟩
    exact .blockEnd
  have evals : (Directive.eval <$> Reader.spanned Expr.read : Reader Directive).Sound
      fun directive row => Directs row directive.part := by
    apply (expr.map _).mono
    rintro _ row ⟨code, rfl, derives⟩
    exact .eval derives
  have any := begins.orElse (loops.orElse (elses.orElse (ends.orElse evals)))
  unfold readDirective at found
  rw [found?_toEnd] at found
  obtain ⟨⟨directive', rest'⟩, inner, last⟩ := Option.bind_eq_some_iff.mp found
  rw [Option.ite_none_right_eq_some] at last
  obtain ⟨noMore, same⟩ := last
  cases same
  obtain ⟨row, whole, directs⟩ := any tokens _ _ inner
  have nothing : rest' = [] := noMore
  rw [whole, nothing, plain_nil, List.append_nil]
  exact directs

theorem Directs.readDirective {tokens : List (Spanned Token)} {part : Part}
    (directs : Directs (plain tokens) part) :
    ∃ directive, (readDirective tokens).found? = some (directive, []) ∧ directive.part = part := by
  generalize same : plain tokens = row at directs
  cases directs with
  | eval code =>
      subst same
      exact ⟨_, (isExpr_iff_derives.mpr code).readDirective, rfl⟩
  | ifBegin condition =>
      obtain ⟨span, rest, rfl, rfl⟩ := of_plain_cons same
      exact ⟨_, (isExpr_iff_derives.mpr condition).readDirective_if span, rfl⟩
  | forBegin name items =>
      obtain ⟨forSpan, _, rfl, afterFor⟩ := of_plain_cons same
      obtain ⟨nameSpan, _, rfl, afterName⟩ := of_plain_cons afterFor
      obtain ⟨inSpan, rest, rfl, rfl⟩ := of_plain_cons afterName
      exact ⟨_, (isExpr_iff_derives.mpr items).readDirective_for name _ _ _, rfl⟩
  | elseBegin =>
      obtain ⟨span, rest, rfl, none⟩ := of_plain_cons same
      rw [plain_eq_nil.mp none]
      exact ⟨_, found?_readDirective_else span, rfl⟩
  | blockEnd =>
      obtain ⟨span, rest, rfl, none⟩ := of_plain_cons same
      rw [plain_eq_nil.mp none]
      exact ⟨_, found?_readDirective_end span, rfl⟩

theorem Directs.unique {tokens : List (Spanned Token)} {part other : Part}
    (directs : Directs (plain tokens) part) (directsToo : Directs (plain tokens) other) :
    part = other := by
  obtain ⟨directive, read, rfl⟩ := directs.readDirective
  obtain ⟨_, readToo, rfl⟩ := directsToo.readDirective
  rw [read] at readToo
  cases readToo
  rfl

theorem Derives.unique {tokens : List (Spanned Token)} {e other : Expr}
    (derives : Derives (.expr .disjunction e) (plain tokens))
    (derivesToo : Derives (.expr .disjunction other) (plain tokens)) : e = other := by
  have whole : IsExpr tokens e := isExpr_iff_derives.mpr derives
  have wholeToo : IsExpr tokens other := isExpr_iff_derives.mpr derivesToo
  unfold IsExpr at whole wholeToo
  rw [whole] at wholeToo
  cases wholeToo
  rfl

theorem Reads.unique {pieces : List Layout.Piece} {parts moreParts : List Part}
    (reads : Reads pieces parts) (readsToo : Reads pieces moreParts) : parts = moreParts := by
  induction reads generalizing moreParts with
  | nil =>
      cases readsToo
      rfl
  | text contents _ ih =>
      cases readsToo with
      | text _ rest => rw [ih rest]
  | output lexed value _ ih =>
      cases readsToo with
      | output lexedToo valueToo rest =>
          rw [lexed] at lexedToo
          cases lexedToo
          rw [value.unique valueToo, ih rest]
  | code lexed directs _ ih =>
      cases readsToo with
      | code lexedToo directsToo rest =>
          rw [lexed] at lexedToo
          cases lexedToo
          rw [directs.unique directsToo, ih rest]
  | comment code _ ih =>
      cases readsToo with
      | comment _ rest => exact ih rest

end ThemeRender.Template
