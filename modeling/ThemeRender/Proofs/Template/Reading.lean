import ThemeRender.Proofs.Template.Lexing
import ThemeRender.Template.ExprReader

namespace ThemeRender.Template

namespace Reader

variable {α β : Type} {tokens : List (Spanned Token)}

theorem bind_apply (first : Reader α) (next : α → Reader β) (tokens : List (Spanned Token)) :
    (first >>= next) tokens =
      match (first tokens).found? with
      | none => ⟨none, (first tokens).stuck?⟩
      | some (a, rest) => (next a rest).after (first tokens).stuck? :=
  rfl

theorem orElse_apply (first second : Reader α) (tokens : List (Spanned Token)) :
    (first <|> second) tokens =
      match (first tokens).found? with
      | some _ => first tokens
      | none => (second tokens).after (first tokens).stuck? :=
  rfl

theorem found?_bind (first : Reader α) (next : α → Reader β) (tokens : List (Spanned Token)) :
    ((first >>= next) tokens).found? =
      (first tokens).found?.bind fun found => (next found.1 found.2).found? := by
  rw [bind_apply]
  cases (first tokens).found? with
  | none => rfl
  | some found => rfl

theorem found?_map (f : α → β) (reader : Reader α) (tokens : List (Spanned Token)) :
    ((f <$> reader) tokens).found? =
      (reader tokens).found?.map fun found => (f found.1, found.2) := by
  change ((reader >>= fun a => pure (f a)) tokens).found? = _
  rw [found?_bind]
  cases (reader tokens).found? with
  | none => rfl
  | some found => rfl

theorem found?_orElse (first second : Reader α) (tokens : List (Spanned Token)) :
    ((first <|> second) tokens).found? = (first tokens).found?.or (second tokens).found? := by
  rw [orElse_apply]
  cases found : (first tokens).found? with
  | none => rfl
  | some _ => exact found

theorem found?_many (reader : Reader α) (tokens : List (Spanned Token)) :
    (many reader tokens).found? =
      match (reader tokens).found? with
      | none => some ([], tokens)
      | some (a, rest) =>
          if rest.length < tokens.length then
            (many reader rest).found?.map fun found => (a :: found.1, found.2)
          else some ([a], rest) := by
  rw [many]
  cases (reader tokens).found? with
  | none => rfl
  | some found =>
      obtain ⟨a, rest⟩ := found
      simp only
      split
      · rfl
      · rfl

theorem found?_token_cons (expected : List Expected) (pick? : Token → Option α)
    (head : Spanned Token) (rest : List (Spanned Token)) :
    (token expected pick? (head :: rest)).found? = (pick? head.node).map (·, rest) := by
  unfold token
  simp only
  cases pick? head.node with
  | none => rfl
  | some a => rfl

theorem found?_atEnd (tokens : List (Spanned Token)) :
    (atEnd tokens).found? = if tokens = [] then some ((), []) else none := by
  cases tokens with
  | nil => rfl
  | cons head rest => rfl

theorem of_found_bind {first : Reader α} {next : α → Reader β} {found : β × List (Spanned Token)}
    (reads : ((first >>= next) tokens).found? = some found) :
    ∃ a rest, (first tokens).found? = some (a, rest) ∧ (next a rest).found? = some found := by
  rw [found?_bind] at reads
  obtain ⟨⟨a, rest⟩, firstReads, nextReads⟩ := Option.bind_eq_some_iff.mp reads
  exact ⟨a, rest, firstReads, nextReads⟩

/-! What holds of readers however they are put together -/

/-- A property of readers that is kept by the ways of putting them together. -/
structure Closed (P : {α : Type} → Reader α → Prop) : Prop where
  pure : ∀ {α : Type} (a : α), P (pure a : Reader α)
  bind : ∀ {α β : Type} {first : Reader α} {next : α → Reader β},
    P first → (∀ a, P (next a)) → P (first >>= next)
  orElse : ∀ {α : Type} {first second : Reader α}, P first → P second → P (first <|> second)
  stuckAt : ∀ {α : Type} (expected : List Expected), P (stuckAt expected : Reader α)
  token : ∀ {α : Type} (expected : List Expected) (pick? : Token → Option α),
    P (token expected pick?)
  many : ∀ {α : Type} {reader : Reader α}, P reader → P (many reader)

namespace Closed

variable {P : {α : Type} → Reader α → Prop} {reader : Reader α}

theorem map (closed : Closed P) (holds : P reader) (f : α → β) : P (f <$> reader) :=
  closed.bind holds fun a => closed.pure (f a)

theorem separated (closed : Closed P) {separator : Reader Unit} (separatorHolds : P separator)
    (holds : P reader) : P (Reader.separated separator reader) := by
  apply closed.bind holds
  intro first
  apply closed.bind
  · exact closed.many (closed.bind separatorHolds fun _ => holds)
  · intro more
    exact closed.pure _

theorem optional (closed : Closed P) (holds : P reader) : P (Reader.optional reader) :=
  closed.orElse (closed.map holds some) (closed.pure none)

theorem commaSeparated (closed : Closed P) (holds : P reader) :
    P (Reader.commaSeparated reader) := by
  apply closed.orElse
  · apply closed.bind
    · exact closed.separated (closed.token _ _) holds
    · intro list
      exact closed.bind (closed.optional (closed.token _ _)) fun _ => closed.pure _
  · exact closed.pure []

theorem parenthesized (closed : Closed P) (holds : P reader) :
    P (Reader.parenthesized reader) := by
  apply closed.bind (closed.token _ _)
  intro _
  apply closed.bind holds
  intro a
  exact closed.bind (closed.token _ _) fun _ => closed.pure a

end Closed

/-! Where the tokens stand -/

def IgnoresPlaces (reader : Reader α) : Prop :=
  ∀ offset tokens, (reader (shiftAll offset tokens)).found? =
    (reader tokens).found?.map fun found => (found.1, shiftAll offset found.2)

theorem IgnoresPlaces.bind {first : Reader α} {next : α → Reader β}
    (firstIgnores : IgnoresPlaces first) (nextIgnores : ∀ a, IgnoresPlaces (next a)) :
    IgnoresPlaces (first >>= next) := by
  intro offset tokens
  rw [found?_bind, found?_bind, firstIgnores]
  cases (first tokens).found? with
  | none => rfl
  | some found => exact nextIgnores found.1 offset found.2

theorem IgnoresPlaces.orElse {first second : Reader α} (firstIgnores : IgnoresPlaces first)
    (secondIgnores : IgnoresPlaces second) : IgnoresPlaces (first <|> second) := by
  intro offset tokens
  rw [found?_orElse, found?_orElse, firstIgnores, secondIgnores]
  cases (first tokens).found? with
  | none => rfl
  | some found => rfl

theorem IgnoresPlaces.token (expected : List Expected) (pick? : Token → Option α) :
    IgnoresPlaces (Reader.token expected pick?) := by
  intro offset tokens
  cases tokens with
  | nil => rfl
  | cons head rest =>
      rw [shiftAll_cons, found?_token_cons, found?_token_cons, Option.map_map]
      rfl

theorem IgnoresPlaces.many {reader : Reader α} (ignores : IgnoresPlaces reader) :
    IgnoresPlaces (Reader.many reader) := by
  intro offset tokens
  generalize length : tokens.length = size
  induction size using Nat.strongRecOn generalizing tokens with
  | ind size ih =>
      subst length
      rw [found?_many, found?_many, ignores]
      cases (reader tokens).found? with
      | none => rfl
      | some found =>
          obtain ⟨a, rest⟩ := found
          simp only [Option.map_some, length_shiftAll]
          split
          · rename_i shorter
            rw [ih rest.length shorter rest rfl, Option.map_map, Option.map_map]
            rfl
          · rfl

theorem closed_ignoresPlaces : Closed IgnoresPlaces where
  pure _ _ _ := rfl
  bind := .bind
  orElse := .orElse
  stuckAt _ _ _ := rfl
  token := .token
  many := .many

end Reader

namespace Expr

open Reader

variable {P : {α : Type} → Reader α → Prop} {inner : Reader Expr}

theorem readArg_closed (closed : Closed P) (holds : P inner) : P (readArg inner) := by
  apply closed.orElse
  · apply closed.bind (closed.token _ _)
    intro name
    apply closed.bind (closed.token _ _)
    intro _
    exact closed.bind holds fun value => closed.pure _
  · exact closed.map holds _

theorem readAtom_closed (closed : Closed P) (holds : P inner) : P (readAtom inner) := by
  have call : P (readCall inner) := by
    apply closed.bind (closed.token _ _)
    intro function
    apply closed.bind (closed.parenthesized (closed.commaSeparated (readArg_closed closed holds)))
    intro args
    exact closed.pure _
  have path : P readPath :=
    closed.map (closed.separated (closed.token _ _) (closed.token _ _)) _
  apply closed.orElse
  · exact closed.map (closed.token _ _) _
  · exact closed.orElse call (closed.orElse path (closed.parenthesized holds))

theorem readUnary_closed (closed : Closed P) (holds : P inner) : P (readUnary inner) := by
  apply closed.bind (closed.many (closed.token _ _))
  intro nots
  exact closed.bind (readAtom_closed closed holds) fun operand => closed.pure _

theorem readComparison_closed (closed : Closed P) (holds : P inner) : P (readComparison inner) := by
  have sign : P readComparisonOp :=
    closed.orElse (closed.bind (closed.token _ _) fun _ => closed.pure _)
      (closed.bind (closed.token _ _) fun _ => closed.pure _)
  apply closed.bind (readUnary_closed closed holds)
  intro left
  apply closed.bind
  · apply closed.optional
    apply closed.bind sign
    intro op
    exact closed.bind (readUnary_closed closed holds) fun right => closed.pure _
  · intro more?
    cases more? with
    | none => exact closed.pure _
    | some more => exact closed.pure _

theorem readChain_closed (closed : Closed P) {operand : Reader Expr} (holds : P operand)
    (op : BinaryOp) (word : Keyword) : P (readChain op word operand) := by
  apply closed.bind holds
  intro first
  apply closed.bind
  · exact closed.many (closed.bind (closed.token _ _) fun _ => holds)
  · intro more
    exact closed.pure _

theorem readNested_closed (closed : Closed P) (depth : Nat) : P (readNested depth) := by
  induction depth with
  | zero => exact closed.stuckAt []
  | succ depth ih =>
      apply readChain_closed closed
      apply readChain_closed closed
      exact readComparison_closed closed ih

theorem read_ignoresPlaces : IgnoresPlaces read := by
  intro offset tokens
  unfold read
  rw [length_shiftAll]
  exact readNested_closed closed_ignoresPlaces _ offset tokens

/-! How an expression starts -/

def startsExpr : Token → Bool
  | .keyword .notKw | .keyword .trueKw | .keyword .falseKw | .keyword .nullKw => true
  | .keyword _ => false
  | .mark .leftParen => true
  | .mark _ => false
  | .ident _ | .string _ | .number _ => true

def StartsLikeExpr {α : Type} (reader : Reader α) : Prop :=
  ∀ tokens, (tokens.head?.map fun head => startsExpr head.node) ≠ some true →
    (reader tokens).found? = none

theorem StartsLikeExpr.bind {α β : Type} {first : Reader α} {next : α → Reader β}
    (starts : StartsLikeExpr first) : StartsLikeExpr (first >>= next) := by
  intro tokens other
  rw [found?_bind, starts tokens other]
  rfl

theorem StartsLikeExpr.orElse {α : Type} {first second : Reader α} (starts : StartsLikeExpr first)
    (secondStarts : StartsLikeExpr second) : StartsLikeExpr (first <|> second) := by
  intro tokens other
  rw [found?_orElse, starts tokens other, secondStarts tokens other]
  rfl

theorem StartsLikeExpr.token {α : Type} (expected : List Expected) {pick? : Token → Option α}
    (picks : ∀ token, startsExpr token = false → pick? token = none) :
    StartsLikeExpr (Reader.token expected pick?) := by
  intro tokens other
  cases tokens with
  | nil => rfl
  | cons head rest =>
      rw [found?_token_cons, picks head.node]
      · rfl
      · simpa using other

theorem readAtom_starts (inner : Reader Expr) : StartsLikeExpr (readAtom inner) := by
  have name : StartsLikeExpr ident := by
    apply StartsLikeExpr.token
    intro token other
    cases token with
    | ident => cases other
    | _ => rfl
  apply StartsLikeExpr.orElse
  · apply StartsLikeExpr.bind
    apply StartsLikeExpr.token
    intro token other
    cases token with
    | keyword word => cases word with
      | trueKw => cases other
      | falseKw => cases other
      | nullKw => cases other
      | _ => rfl
    | mark sign => rfl
    | _ => cases other
  · apply StartsLikeExpr.orElse name.bind
    apply StartsLikeExpr.orElse name.bind.bind
    apply StartsLikeExpr.bind
    apply StartsLikeExpr.token
    intro token other
    cases token with
    | mark sign => cases sign with
      | leftParen => cases other
      | _ => rfl
    | _ => rfl

theorem readUnary_starts (inner : Reader Expr) : StartsLikeExpr (readUnary inner) := by
  intro tokens other
  have noNot : (keyword .notKw tokens).found? = none := by
    apply StartsLikeExpr.token [.keyword .notKw] _ tokens other
    intro token other
    cases token with
    | keyword word => cases word with
      | notKw => cases other
      | _ => rfl
    | _ => rfl
  unfold readUnary
  rw [found?_bind, found?_many, noNot]
  exact (readAtom_starts inner).bind tokens other

theorem read_starts : StartsLikeExpr read := by
  intro tokens other
  exact (readUnary_starts (readNested tokens.length)).bind.bind.bind tokens other

end Expr

/-! The code of a tag -/

open Reader (found?_bind found?_map found?_orElse found?_token_cons found?_atEnd of_found_bind)

variable {tokens : List (Spanned Token)}

def spanOf (tokens : List (Spanned Token)) : Span :=
  ⟨(tokens.head?.map (·.span.start)).getD 0, (tokens.getLast?.map (·.span.stop)).getD 0⟩

theorem spanOf_shiftAll (offset : Nat) (some : tokens ≠ []) :
    spanOf (shiftAll offset tokens) = (spanOf tokens).shift offset := by
  cases tokens with
  | nil => exact absurd rfl some
  | cons head rest =>
      simp only [spanOf, shiftAll, List.getLast?_map, List.getLast?_cons, List.head?_map]
      rfl

def IsExpr (tokens : List (Spanned Token)) (e : Expr) : Prop :=
  (Expr.read tokens).found? = some (e, [])

variable {e : Expr}

theorem IsExpr.shiftAll (whole : IsExpr tokens e) (offset : Nat) :
    IsExpr (shiftAll offset tokens) e := by
  unfold IsExpr
  rw [Expr.read_ignoresPlaces, whole]
  rfl

theorem IsExpr.head (whole : IsExpr tokens e) :
    ∃ head rest, tokens = head :: rest ∧ Expr.startsExpr head.node = true := by
  cases tokens with
  | nil =>
      have none := Expr.read_starts [] (by simp)
      unfold IsExpr at whole
      rw [none] at whole
      cases whole
  | cons head rest =>
      refine ⟨head, rest, rfl, ?_⟩
      cases starts : Expr.startsExpr head.node with
      | true => rfl
      | false =>
          have none := Expr.read_starts (head :: rest) (by simp [starts])
          unfold IsExpr at whole
          rw [none] at whole
          cases whole

theorem IsExpr.ne_nil (whole : IsExpr tokens e) : tokens ≠ [] := by
  obtain ⟨head, rest, rfl, _⟩ := whole.head
  exact List.cons_ne_nil _ _

theorem IsExpr.spanned (whole : IsExpr tokens e) :
    (Reader.spanned Expr.read tokens).found? = some (⟨e, spanOf tokens⟩, []) := by
  unfold IsExpr at whole
  unfold Reader.spanned
  simp only [whole, List.length_nil, Nat.sub_zero, List.take_length]
  rfl

theorem isExpr_of_spanned {value : Spanned Expr}
    (reads : (Reader.spanned Expr.read tokens).found? = some (value, [])) :
    IsExpr tokens value.node ∧ value.span = spanOf tokens := by
  have whole : IsExpr tokens value.node := by
    unfold Reader.spanned at reads
    cases found : (Expr.read tokens).found? with
    | none =>
        simp only [found] at reads
        cases reads
    | some pair =>
        obtain ⟨e, rest⟩ := pair
        simp only [found, Option.some.injEq, Prod.mk.injEq] at reads
        obtain ⟨rfl, rfl⟩ := reads
        exact found
  have same := (Prod.mk.inj (Option.some.inj (whole.spanned.symm.trans reads))).1
  exact ⟨whole, congrArg Spanned.span same.symm⟩

theorem found?_toEnd {α : Type} (reader : Reader α) (tokens : List (Spanned Token)) :
    ((do let a ← reader; Reader.atEnd; return a) tokens).found? =
      (reader tokens).found?.bind fun found =>
        if found.2 = [] then some (found.1, []) else none := by
  rw [found?_bind]
  apply Option.bind_congr
  intro found _
  rw [found?_bind, found?_atEnd]
  split
  · rfl
  · rfl

theorem isExpr_of_readOutput {value : Spanned Expr} {rest : List (Spanned Token)}
    (reads : (readOutput tokens).found? = some (value, rest)) :
    IsExpr tokens value.node ∧ value.span = spanOf tokens := by
  unfold readOutput at reads
  rw [found?_toEnd] at reads
  obtain ⟨⟨value', rest'⟩, spanned, ends⟩ := Option.bind_eq_some_iff.mp reads
  split at ends
  · rename_i noMore
    cases ends
    simp only at noMore
    subst noMore
    exact isExpr_of_spanned spanned
  · cases ends

theorem IsExpr.readOutput (whole : IsExpr tokens e) :
    (readOutput tokens).found? = some (⟨e, spanOf tokens⟩, []) := by
  unfold Template.readOutput
  rw [found?_toEnd, whole.spanned]
  rfl

theorem found?_keyword (word : Keyword) (span : Span) (rest : List (Spanned Token)) :
    (Reader.keyword word (⟨.keyword word, span⟩ :: rest)).found? = some ((), rest) := by
  unfold Reader.keyword
  rw [found?_token_cons]
  simp

theorem found?_keyword_other {word : Keyword} {head : Spanned Token}
    (other : head.node ≠ .keyword word) (rest : List (Spanned Token)) :
    (Reader.keyword word (head :: rest)).found? = none := by
  unfold Reader.keyword
  rw [found?_token_cons]
  cases token : head.node with
  | keyword found =>
      simp only [ite_eq_right_iff, Option.map_eq_none_iff]
      intro same
      exact absurd (same ▸ token) other
  | _ => rfl

theorem found?_ident (name : String) (span : Span) (rest : List (Spanned Token)) :
    (Reader.ident (⟨.ident name, span⟩ :: rest)).found? = some (name, rest) := by
  unfold Reader.ident
  rw [found?_token_cons]
  rfl

theorem IsExpr.readDirective (whole : IsExpr tokens e) :
    (readDirective tokens).found? = some (.eval ⟨e, spanOf tokens⟩, []) := by
  obtain ⟨head, rest, rfl, starts⟩ := whole.head
  have noKeyword (word : Keyword) (never : Expr.startsExpr (.keyword word) = false) :
      (Reader.keyword word (head :: rest)).found? = none := by
    apply found?_keyword_other
    intro same
    rw [same, never] at starts
    cases starts
  unfold Template.readDirective
  rw [found?_toEnd]
  simp only [found?_orElse, found?_bind, noKeyword .ifKw rfl, noKeyword .forKw rfl,
    noKeyword .elseKw rfl, noKeyword .endKw rfl, Option.bind_none, Option.none_or, found?_map,
    whole.spanned]
  rfl

theorem IsExpr.readDirective_if (whole : IsExpr tokens e) (span : Span) :
    (Template.readDirective (⟨.keyword .ifKw, span⟩ :: tokens)).found? =
      some (.ifBegin ⟨e, spanOf tokens⟩, []) := by
  unfold Template.readDirective
  rw [found?_toEnd]
  simp only [found?_orElse, found?_bind, found?_keyword, Option.bind_some, found?_map,
    whole.spanned]
  rfl

theorem found?_readDirective_else (span : Span) :
    (Template.readDirective [⟨.keyword .elseKw, span⟩]).found? = some (.elseBegin, []) := rfl

theorem found?_readDirective_end (span : Span) :
    (Template.readDirective [⟨.keyword .endKw, span⟩]).found? = some (.blockEnd, []) := rfl

def readBinding : Reader (String × Spanned Expr) := do
  let binding ← (do
    let name ← Reader.ident
    Reader.keyword .inKw
    let items ← Reader.spanned Expr.read
    return (name, items))
  Reader.atEnd
  return binding

theorem of_found_ident {name : String} {rest : List (Spanned Token)}
    (reads : (Reader.ident tokens).found? = some (name, rest)) :
    ∃ span, tokens = ⟨.ident name, span⟩ :: rest := by
  cases tokens with
  | nil => cases reads
  | cons head tail =>
      unfold Reader.ident at reads
      rw [found?_token_cons] at reads
      obtain ⟨name', picked, same⟩ := Option.map_eq_some_iff.mp reads
      cases same
      obtain ⟨node, span⟩ := head
      cases node with
      | ident found =>
          cases picked
          exact ⟨span, rfl⟩
      | _ => cases picked

theorem of_found_keyword {word : Keyword} {found : Unit × List (Spanned Token)}
    (reads : (Reader.keyword word tokens).found? = some found) :
    ∃ span, tokens = ⟨.keyword word, span⟩ :: found.2 := by
  cases tokens with
  | nil => cases reads
  | cons head tail =>
      obtain ⟨node, span⟩ := head
      by_cases same : node = .keyword word
      · subst same
        rw [found?_keyword] at reads
        cases reads
        exact ⟨span, rfl⟩
      · rw [found?_keyword_other same] at reads
        cases reads

theorem tokens_of_readBinding {name : String} {items : Spanned Expr}
    {rest : List (Spanned Token)}
    (reads : (readBinding tokens).found? = some ((name, items), rest)) :
    ∃ nameSpan inSpan exprTokens,
      tokens = ⟨.ident name, nameSpan⟩ :: ⟨.keyword .inKw, inSpan⟩ :: exprTokens ∧
      IsExpr exprTokens items.node ∧ items.span = spanOf exprTokens := by
  unfold readBinding at reads
  rw [found?_toEnd] at reads
  obtain ⟨⟨binding, rest'⟩, bound, ends⟩ := Option.bind_eq_some_iff.mp reads
  split at ends
  · rename_i noMore
    cases ends
    simp only at noMore
    subst noMore
    obtain ⟨_, afterName, named, bound⟩ := of_found_bind bound
    obtain ⟨_, afterIn, inRead, bound⟩ := of_found_bind bound
    obtain ⟨_, _, spanned, bound⟩ := of_found_bind bound
    cases bound
    obtain ⟨nameSpan, rfl⟩ := of_found_ident named
    obtain ⟨inSpan, rfl⟩ := of_found_keyword inRead
    exact ⟨nameSpan, inSpan, afterIn, rfl, isExpr_of_spanned spanned⟩
  · cases ends

theorem IsExpr.readDirective_for (whole : IsExpr tokens e) (name : String)
    (forSpan nameSpan inSpan : Span) :
    (Template.readDirective (⟨.keyword .forKw, forSpan⟩ :: ⟨.ident name, nameSpan⟩ ::
        ⟨.keyword .inKw, inSpan⟩ :: tokens)).found? =
      some (.forBegin name ⟨e, spanOf tokens⟩, []) := by
  have notIf : (⟨.keyword .forKw, forSpan⟩ : Spanned Token).node ≠ .keyword .ifKw := by
    intro same
    cases same
  unfold Template.readDirective
  rw [found?_toEnd]
  simp only [found?_orElse, found?_bind, found?_keyword_other notIf, found?_keyword, found?_ident,
    Option.bind_none, Option.bind_some, Option.none_or, found?_map, whole.spanned]
  rfl

end ThemeRender.Template
