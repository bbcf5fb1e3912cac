import Mathlib.Data.List.Forall2
import ThemeRender.Proofs.Template.Reading
/-!
Readers on rows of plain tokens. `Yields` and `Refuses` say what a reader does with a row wherever
its tokens stand; `Sound` goes the other way, from what was found to the tokens it was found in.
Each of them is closed under the ways of putting readers together.
-/

namespace ThemeRender.Template

def plain (tokens : List (Spanned Token)) : List Token :=
  tokens.map (·.node)

@[simp] theorem plain_nil : plain [] = [] := rfl

@[simp] theorem plain_cons (token : Spanned Token) (tokens : List (Spanned Token)) :
    plain (token :: tokens) = token.node :: plain tokens := rfl

@[simp] theorem length_plain (tokens : List (Spanned Token)) :
    (plain tokens).length = tokens.length := List.length_map _

theorem plain_eq_nil {tokens : List (Spanned Token)} : plain tokens = [] ↔ tokens = [] :=
  List.map_eq_nil_iff

theorem of_plain_cons {tokens : List (Spanned Token)} {token : Token} {row : List Token}
    (same : plain tokens = token :: row) :
    ∃ span rest, tokens = ⟨token, span⟩ :: rest ∧ plain rest = row := by
  cases tokens with
  | nil => cases same
  | cons head rest =>
      cases same
      exact ⟨head.span, rest, rfl, rfl⟩

namespace Reader

variable {α β : Type} {row middle left : List Token} {a : α} {b : β}

def Yields (reader : Reader α) (row : List Token) (a : α) (left : List Token) : Prop :=
  ∀ tokens, plain tokens = row →
    ∃ rest, (reader tokens).found? = some (a, rest) ∧ plain rest = left

def Refuses (reader : Reader α) (row : List Token) : Prop :=
  ∀ tokens, plain tokens = row → (reader tokens).found? = none

theorem Yields.pure (a : α) (row : List Token) : (pure a : Reader α).Yields row a row := by
  intro tokens same
  exact ⟨tokens, rfl, same⟩

theorem Yields.bind {first : Reader α} {next : α → Reader β} (yields : first.Yields row a middle)
    (nextYields : (next a).Yields middle b left) : (first >>= next).Yields row b left := by
  intro tokens same
  obtain ⟨rest, found, sameRest⟩ := yields tokens same
  rw [found?_bind, found]
  exact nextYields rest sameRest

theorem Yields.map {reader : Reader α} (yields : reader.Yields row a left) (f : α → β) :
    (f <$> reader).Yields row (f a) left :=
  yields.bind (Yields.pure (f a) left)

theorem Refuses.bind {first : Reader α} (refuses : first.Refuses row) (next : α → Reader β) :
    (first >>= next).Refuses row := by
  intro tokens same
  rw [found?_bind, refuses tokens same]
  rfl

theorem Refuses.map {reader : Reader α} (refuses : reader.Refuses row) (f : α → β) :
    (f <$> reader).Refuses row :=
  refuses.bind _

theorem Yields.bind_refuses {first : Reader α} {next : α → Reader β}
    (yields : first.Yields row a middle) (refuses : (next a).Refuses middle) :
    (first >>= next).Refuses row := by
  intro tokens same
  obtain ⟨rest, found, sameRest⟩ := yields tokens same
  rw [found?_bind, found]
  exact refuses rest sameRest

theorem Yields.orElse {first : Reader α} (yields : first.Yields row a left) (second : Reader α) :
    (first <|> second).Yields row a left := by
  intro tokens same
  obtain ⟨rest, found, sameRest⟩ := yields tokens same
  rw [found?_orElse, found]
  exact ⟨rest, rfl, sameRest⟩

theorem Refuses.orElse_yields {first second : Reader α} (refuses : first.Refuses row)
    (yields : second.Yields row a left) : (first <|> second).Yields row a left := by
  intro tokens same
  rw [found?_orElse, refuses tokens same]
  exact yields tokens same

theorem Refuses.orElse {first second : Reader α} (refuses : first.Refuses row)
    (refusesToo : second.Refuses row) : (first <|> second).Refuses row := by
  intro tokens same
  rw [found?_orElse, refuses tokens same, refusesToo tokens same]
  rfl

theorem yields_token {expected : List Expected} {pick? : Token → Option α} {head : Token}
    (picked : pick? head = some a) (left : List Token) :
    (token expected pick?).Yields (head :: left) a left := by
  intro tokens same
  obtain ⟨span, rest, rfl, sameRest⟩ := of_plain_cons same
  rw [found?_token_cons, picked]
  exact ⟨rest, rfl, sameRest⟩

theorem refuses_token {expected : List Expected} {pick? : Token → Option α}
    (other : ∀ head, row.head? = some head → pick? head = none) :
    (token expected pick?).Refuses row := by
  intro tokens same
  subst same
  cases tokens with
  | nil => rfl
  | cons head rest =>
      rw [found?_token_cons, other head.node rfl]
      rfl

theorem yields_keyword (word : Keyword) (left : List Token) :
    (keyword word).Yields (.keyword word :: left) () left :=
  yields_token (if_pos rfl) left

theorem yields_mark (sign : Mark) (left : List Token) :
    (mark sign).Yields (.mark sign :: left) () left :=
  yields_token (if_pos rfl) left

theorem yields_ident (name : String) (left : List Token) :
    ident.Yields (.ident name :: left) name left := by
  apply yields_token
  rfl

theorem refuses_keyword {word : Keyword} (other : row.head? ≠ some (.keyword word)) :
    (keyword word).Refuses row := by
  apply refuses_token
  intro head first
  rw [first] at other
  cases head with
  | keyword found =>
      apply if_neg
      rintro rfl
      exact other rfl
  | _ => rfl

theorem refuses_mark {sign : Mark} (other : row.head? ≠ some (.mark sign)) :
    (mark sign).Refuses row := by
  apply refuses_token
  intro head first
  rw [first] at other
  cases head with
  | mark found =>
      apply if_neg
      rintro rfl
      exact other rfl
  | _ => rfl

theorem refuses_ident (other : ∀ name, row.head? ≠ some (.ident name)) : ident.Refuses row := by
  apply refuses_token
  intro head first
  cases head with
  | ident name => exact absurd first (other name)
  | _ => rfl

theorem Refuses.many {reader : Reader α} (refuses : reader.Refuses row) :
    (many reader).Yields row [] row := by
  intro tokens same
  rw [found?_many, refuses tokens same]
  exact ⟨tokens, rfl, same⟩

theorem Yields.many {reader : Reader α} {list : List α} (yields : reader.Yields row a middle)
    (shorter : middle.length < row.length) (more : (many reader).Yields middle list left) :
    (many reader).Yields row (a :: list) left := by
  intro tokens same
  obtain ⟨rest, found, sameRest⟩ := yields tokens same
  obtain ⟨last, foundMore, sameLast⟩ := more rest sameRest
  have taken : rest.length < tokens.length := by
    rw [← length_plain rest, ← length_plain tokens, sameRest, same]
    exact shorter
  rw [found?_many, found]
  simp only [if_pos taken, foundMore]
  exact ⟨last, rfl, sameLast⟩

theorem Yields.optional {reader : Reader α} (yields : reader.Yields row a left) :
    (optional reader).Yields row (some a) left :=
  (yields.map some).orElse _

theorem Refuses.optional {reader : Reader α} (refuses : reader.Refuses row) :
    (optional reader).Yields row none row :=
  (refuses.map some).orElse_yields (Yields.pure none row)

/-! What readers found -/

def Sound (reader : Reader α) (Tells : α → List Token → Prop) : Prop :=
  ∀ tokens a rest, (reader tokens).found? = some (a, rest) →
    ∃ row, plain tokens = row ++ plain rest ∧ Tells a row

theorem Sound.mono {reader : Reader α} {Tells Implied : α → List Token → Prop}
    (sound : reader.Sound Tells) (implies : ∀ a row, Tells a row → Implied a row) :
    reader.Sound Implied := by
  intro tokens a rest found
  obtain ⟨row, same, tells⟩ := sound tokens a rest found
  exact ⟨row, same, implies a row tells⟩

theorem Sound.pure (a : α) : (pure a : Reader α).Sound fun b row => b = a ∧ row = [] := by
  intro tokens b rest found
  cases found
  exact ⟨[], rfl, rfl, rfl⟩

theorem Sound.bind {first : Reader α} {next : α → Reader β} {Tells : α → List Token → Prop}
    {Then : α → β → List Token → Prop} (sound : first.Sound Tells)
    (nextSound : ∀ a, (next a).Sound (Then a)) :
    (first >>= next).Sound fun b row =>
      ∃ a taken more, row = taken ++ more ∧ Tells a taken ∧ Then a b more := by
  intro tokens b rest found
  obtain ⟨a, between, firstFound, nextFound⟩ := of_found_bind found
  obtain ⟨taken, same, tells⟩ := sound tokens a between firstFound
  obtain ⟨more, sameMore, tellsMore⟩ := nextSound a between b rest nextFound
  refine ⟨taken ++ more, ?_, a, taken, more, rfl, tells, tellsMore⟩
  rw [same, sameMore, List.append_assoc]

theorem Sound.map {reader : Reader α} {Tells : α → List Token → Prop} (sound : reader.Sound Tells)
    (f : α → β) : (f <$> reader).Sound fun b row => ∃ a, b = f a ∧ Tells a row := by
  apply (sound.bind fun a => Sound.pure (f a)).mono
  rintro b row ⟨a, taken, more, rfl, tells, rfl, rfl⟩
  rw [List.append_nil]
  exact ⟨a, rfl, tells⟩

theorem Sound.orElse {first second : Reader α} {Tells : α → List Token → Prop}
    (sound : first.Sound Tells) (secondSound : second.Sound Tells) :
    (first <|> second).Sound Tells := by
  intro tokens a rest found
  rw [found?_orElse] at found
  cases firstFound : (first tokens).found? with
  | some pair =>
      rw [firstFound] at found
      exact sound tokens a rest (firstFound.trans found)
  | none =>
      rw [firstFound] at found
      exact secondSound tokens a rest found

theorem Sound.token {expected : List Expected} {pick? : Token → Option α} :
    (Reader.token expected pick?).Sound fun a row => ∃ head, row = [head] ∧ pick? head = some a := by
  intro tokens a rest found
  cases tokens with
  | nil => cases found
  | cons head tail =>
      rw [found?_token_cons] at found
      obtain ⟨a', picked, same⟩ := Option.map_eq_some_iff.mp found
      cases same
      exact ⟨[head.node], rfl, head.node, rfl, picked⟩

theorem Sound.keyword (word : Keyword) :
    (Reader.keyword word).Sound fun _ row => row = [.keyword word] := by
  apply Sound.token.mono
  rintro a row ⟨head, rfl, picked⟩
  cases head with
  | keyword found =>
      obtain ⟨rfl, -⟩ := Option.ite_none_right_eq_some.mp picked
      rfl
  | _ => cases picked

theorem Sound.mark (sign : Mark) :
    (Reader.mark sign).Sound fun _ row => row = [.mark sign] := by
  apply Sound.token.mono
  rintro a row ⟨head, rfl, picked⟩
  cases head with
  | mark found =>
      obtain ⟨rfl, -⟩ := Option.ite_none_right_eq_some.mp picked
      rfl
  | _ => cases picked

theorem Sound.ident : Reader.ident.Sound fun name row => row = [.ident name] := by
  apply Sound.token.mono
  rintro name row ⟨head, rfl, picked⟩
  cases head with
  | ident found =>
      cases picked
      rfl
  | _ => cases picked

def Rows (Tells : α → List Token → Prop) (list : List α) (row : List Token) : Prop :=
  ∃ rows, row = rows.flatten ∧ List.Forall₂ Tells list rows

theorem Sound.many {reader : Reader α} {Tells : α → List Token → Prop} (sound : reader.Sound Tells) :
    (Reader.many reader).Sound (Rows Tells) := by
  intro tokens list rest found
  generalize length : tokens.length = size
  induction size using Nat.strongRecOn generalizing tokens list rest with
  | ind size ih =>
      rw [found?_many] at found
      cases once : (reader tokens).found? with
      | none =>
          rw [once] at found
          cases found
          exact ⟨[], rfl, [], rfl, .nil⟩
      | some pair =>
          obtain ⟨a, middle⟩ := pair
          obtain ⟨row, same, tells⟩ := sound tokens a middle once
          rw [once] at found
          simp only at found
          split at found
          · rename_i shorter
            obtain ⟨⟨list', rest'⟩, foundMore, pairs⟩ := Option.map_eq_some_iff.mp found
            cases pairs
            obtain ⟨more, sameMore, rows, rfl, tells'⟩ :=
              ih middle.length (length ▸ shorter) middle list' rest' foundMore rfl
            refine ⟨row ++ rows.flatten, ?_, row :: rows, rfl, .cons tells tells'⟩
            rw [same, sameMore, List.append_assoc]
          · cases found
            exact ⟨row, same, [row], by simp, .cons tells .nil⟩

theorem Sound.optional {reader : Reader α} {Tells : α → List Token → Prop}
    (sound : reader.Sound Tells) :
    (Reader.optional reader).Sound fun found? row =>
      (found? = none ∧ row = []) ∨ ∃ a, found? = some a ∧ Tells a row := by
  apply Sound.orElse
  · exact (sound.map some).mono fun found? row tells => .inr tells
  · exact (Sound.pure none).mono fun found? row none => .inl none

def AfterMark (sign : Mark) (Tells : α → List Token → Prop) (a : α) (row : List Token) : Prop :=
  ∃ rest, row = .mark sign :: rest ∧ Tells a rest

theorem Sound.afterMark {reader : Reader α} {Tells : α → List Token → Prop} (sign : Mark)
    (sound : reader.Sound Tells) :
    (do Reader.mark sign; reader : Reader α).Sound (AfterMark sign Tells) := by
  apply ((Sound.mark sign).bind fun _ => sound).mono
  rintro a row ⟨_, taken, more, rfl, rfl, tells⟩
  exact ⟨more, rfl, tells⟩

theorem Sound.separated {reader : Reader α} {Tells : α → List Token → Prop} (sign : Mark)
    (sound : reader.Sound Tells) :
    (Reader.separated (Reader.mark sign) reader).Sound fun list row =>
      ∃ first others taken more, list = first :: others ∧ row = taken ++ more ∧
        Tells first taken ∧ Rows (AfterMark sign Tells) others more := by
  apply (sound.bind fun first => (sound.afterMark sign).many.bind fun _ => Sound.pure _).mono
  rintro list row ⟨first, taken, rest, rfl, tells, others, more, none, rfl, rows, rfl, rfl⟩
  rw [List.append_nil]
  exact ⟨first, others, taken, more, rfl, rfl, tells, rows⟩

theorem Sound.parenthesized {reader : Reader α} {Tells : α → List Token → Prop}
    (sound : reader.Sound Tells) :
    (Reader.parenthesized reader).Sound fun a row =>
      ∃ inner, row = .mark .leftParen :: (inner ++ [.mark .rightParen]) ∧ Tells a inner := by
  apply ((Sound.mark .leftParen).bind fun _ =>
    sound.bind fun _ => (Sound.mark .rightParen).bind fun _ => Sound.pure _).mono
  rintro a row ⟨_, _, _, rfl, rfl, b, inner, _, rfl, tells, _, _, _, rfl, rfl, rfl, rfl⟩
  exact ⟨inner, rfl, tells⟩

end Reader

end ThemeRender.Template
