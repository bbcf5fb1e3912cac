import ThemeRender.Proofs.Template.Reading

namespace ThemeRender.Template

variable {α β : Type} {tokens rest : List (Spanned Token)}

theorem rest_of_furthest? {earlier? later? : Option Stuck} {stuck : Stuck}
    (furthest : furthest? earlier? later? = some stuck) :
    (∃ earlier, earlier? = some earlier ∧ stuck.rest = earlier.rest) ∨
      ∃ later, later? = some later ∧ stuck.rest = later.rest := by
  cases earlier? with
  | none => exact .inr ⟨stuck, furthest, rfl⟩
  | some earlier =>
      cases later? with
      | none => exact .inl ⟨stuck, furthest, rfl⟩
      | some later =>
          cases furthest
          unfold Stuck.furthest
          split
          · exact .inr ⟨later, rfl, rfl⟩
          · split
            · exact .inl ⟨earlier, rfl, rfl⟩
            · exact .inl ⟨earlier, rfl, rfl⟩

/-- What is left and what reading got stuck at are ends of the tokens. -/
structure Reading.Within (tokens : List (Spanned Token)) (reading : Reading α) : Prop where
  rest : ∀ a rest, reading.found? = some (a, rest) → rest <:+ tokens
  stuck : ∀ stuck, reading.stuck? = some stuck → stuck.rest <:+ tokens

namespace Reading.Within

variable {reading : Reading α}

theorem mono (within : reading.Within rest) (ends : rest <:+ tokens) : reading.Within tokens where
  rest a left found := (within.rest a left found).trans ends
  stuck stuck reported := (within.stuck stuck reported).trans ends

theorem after {earlier? : Option Stuck} (within : reading.Within tokens)
    (earlier : ∀ stuck, earlier? = some stuck → stuck.rest <:+ tokens) :
    (reading.after earlier?).Within tokens where
  rest := within.rest
  stuck stuck reported := by
    rcases rest_of_furthest? reported with ⟨first, found, same⟩ | ⟨later, found, same⟩
    · rw [same]
      exact earlier first found
    · rw [same]
      exact within.stuck later found

theorem map (within : reading.Within tokens) (f : α → β) : (reading.map f).Within tokens where
  rest b left found := by
    obtain ⟨⟨a, _⟩, foundFirst, same⟩ := Option.map_eq_some_iff.mp found
    cases same
    exact within.rest a _ foundFirst
  stuck := within.stuck

end Reading.Within

namespace Reader

def StaysWithin (reader : Reader α) : Prop :=
  ∀ tokens, (reader tokens).Within tokens

namespace StaysWithin

theorem pure (a : α) : StaysWithin (pure a : Reader α) := by
  intro tokens
  constructor
  · intro b rest found
    cases found
    exact List.suffix_refl _
  · intro stuck reported
    cases reported

theorem stuckAt (expected : List Expected) : StaysWithin (stuckAt expected : Reader α) := by
  intro tokens
  constructor
  · intro a rest found
    cases found
  · intro stuck reported
    cases reported
    exact List.suffix_refl _

theorem bind {first : Reader α} {next : α → Reader β} (stays : StaysWithin first)
    (nextStays : ∀ a, StaysWithin (next a)) : StaysWithin (first >>= next) := by
  intro tokens
  have within := stays tokens
  rw [bind_apply]
  cases found : (first tokens).found? with
  | none =>
      constructor
      · intro b rest found
        cases found
      · exact within.stuck
  | some pair =>
      obtain ⟨a, rest⟩ := pair
      exact ((nextStays a rest).mono (within.rest a rest found)).after within.stuck

theorem orElse {first second : Reader α} (stays : StaysWithin first)
    (secondStays : StaysWithin second) : StaysWithin (first <|> second) := by
  intro tokens
  rw [orElse_apply]
  cases (first tokens).found? with
  | none => exact (secondStays tokens).after (stays tokens).stuck
  | some _ => exact stays tokens

theorem token (expected : List Expected) (pick? : Token → Option α) :
    StaysWithin (token expected pick?) := by
  intro tokens
  unfold Reader.token
  cases tokens with
  | nil => exact stuckAt expected []
  | cons head rest =>
      dsimp only
      cases pick? head.node with
      | none => exact stuckAt expected (head :: rest)
      | some a => exact (pure a rest).mono (List.suffix_cons head rest)

theorem many {reader : Reader α} (stays : StaysWithin reader) : StaysWithin (many reader) := by
  intro tokens
  generalize length : tokens.length = size
  induction size using Nat.strongRecOn generalizing tokens with
  | ind size ih =>
      subst length
      have within := stays tokens
      rw [Reader.many]
      cases found : (reader tokens).found? with
      | none => exact ⟨(pure [] tokens).rest, within.stuck⟩
      | some pair =>
          obtain ⟨a, rest⟩ := pair
          have ends := within.rest a rest found
          simp only
          split
          · rename_i shorter
            exact (((ih rest.length shorter rest rfl).mono ends).map (a :: ·)).after within.stuck
          · exact ⟨((pure [a] rest).mono ends).rest, within.stuck⟩

theorem spanned {reader : Reader α} (stays : StaysWithin reader) : StaysWithin (spanned reader) := by
  intro tokens
  have within := stays tokens
  unfold Reader.spanned
  dsimp only
  cases found : (reader tokens).found? with
  | none =>
      constructor
      · intro b rest found
        cases found
      · exact within.stuck
  | some pair =>
      obtain ⟨a, rest⟩ := pair
      constructor
      · intro b left found
        cases found
        exact within.rest a rest ‹_›
      · exact within.stuck

theorem atEnd : StaysWithin atEnd := by
  intro tokens
  cases tokens with
  | nil => exact pure () []
  | cons head rest => exact stuckAt [.endOfTag] (head :: rest)

end StaysWithin

theorem closed_staysWithin : Closed StaysWithin where
  pure := .pure
  bind := .bind
  orElse := .orElse
  stuckAt := .stuckAt
  token := .token
  many := .many

end Reader

open Reader (StaysWithin closed_staysWithin)

theorem Expr.read_staysWithin : StaysWithin Expr.read :=
  fun tokens => readNested_closed closed_staysWithin _ tokens

theorem readOutput_staysWithin : StaysWithin readOutput :=
  Expr.read_staysWithin.spanned.bind fun _ => StaysWithin.atEnd.bind fun _ => .pure _

theorem readDirective_staysWithin : StaysWithin readDirective := by
  have closed := closed_staysWithin
  have expr : StaysWithin (Reader.spanned Expr.read) := Expr.read_staysWithin.spanned
  have keyword (word : Keyword) : StaysWithin (Reader.keyword word) := .token _ _
  have ifBegin : StaysWithin
      (do Reader.keyword .ifKw; Directive.ifBegin <$> Reader.spanned Expr.read) :=
    (keyword .ifKw).bind fun _ => closed.map expr _
  have forBegin : StaysWithin (do
      Reader.keyword .forKw
      let name ← Reader.ident
      Reader.keyword .inKw
      Directive.forBegin name <$> Reader.spanned Expr.read) :=
    (keyword .forKw).bind fun _ => .bind (.token _ _) fun _ =>
      (keyword .inKw).bind fun _ => closed.map expr _
  have alone (word : Keyword) (directive : Directive) :
      StaysWithin (do Reader.keyword word; return directive) :=
    (keyword word).bind fun _ => .pure _
  apply StaysWithin.bind
  · apply ifBegin.orElse
    apply forBegin.orElse
    apply (alone .elseKw .elseBegin).orElse
    exact (alone .endKw .blockEnd).orElse (closed.map expr _)
  · intro directive
    exact StaysWithin.atEnd.bind fun _ => .pure _

end ThemeRender.Template
