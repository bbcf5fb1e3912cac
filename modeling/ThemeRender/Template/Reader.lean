import ThemeRender.Template.Token
import ThemeRender.Text.Span
/-!
Readers of token sequences. A reader tries its alternatives in order and also reports the furthest
place at which one of them got stuck, with what it could have gone on with; that report is kept
when another alternative succeeds. What a reader finds does not depend on these reports.
-/

namespace ThemeRender.Template

inductive Expected where
  | keyword (word : Keyword)
  | mark (sign : Mark)
  | endOfTag
deriving DecidableEq, Repr

def Expected.describe : Expected → String
  | .keyword word => (Token.keyword word).describe
  | .mark sign => (Token.mark sign).describe
  | .endOfTag => "end of tag"

/-- A place where reading got stuck, given by the tokens left there. -/
structure Stuck where
  rest : List (Spanned Token)
  expected : List Expected

/-- The further of two places; at the same place, what the first expected comes first. -/
def Stuck.furthest (a b : Stuck) : Stuck :=
  if b.rest.length < a.rest.length then b
  else if a.rest.length < b.rest.length then a
  else { a with expected := a.expected ++ b.expected.filter (· ∉ a.expected) }

def furthest? : Option Stuck → Option Stuck → Option Stuck
  | none, b => b
  | a, none => a
  | some a, some b => some (a.furthest b)

structure Reading (α : Type) where
  found? : Option (α × List (Spanned Token))
  stuck? : Option Stuck

def Reading.map {α β : Type} (f : α → β) (reading : Reading α) : Reading β :=
  ⟨reading.found?.map fun found => (f found.1, found.2), reading.stuck?⟩

def Reading.after {α : Type} (earlier? : Option Stuck) (reading : Reading α) : Reading α :=
  { reading with stuck? := furthest? earlier? reading.stuck? }

def Reader (α : Type) : Type :=
  List (Spanned Token) → Reading α

namespace Reader

variable {α β : Type}

instance : Monad Reader where
  pure a := fun tokens => ⟨some (a, tokens), none⟩
  bind first next := fun tokens =>
    let reading := first tokens
    match reading.found? with
    | none => ⟨none, reading.stuck?⟩
    | some (a, rest) => (next a rest).after reading.stuck?

def orElse (first second : Reader α) : Reader α := fun tokens =>
  let reading := first tokens
  match reading.found? with
  | some _ => reading
  | none => (second tokens).after reading.stuck?

instance : OrElse (Reader α) where
  orElse first second := orElse first (second ())

def stuckAt (expected : List Expected) : Reader α := fun tokens =>
  ⟨none, some ⟨tokens, expected⟩⟩

def token (expected : List Expected) (pick? : Token → Option α) : Reader α := fun tokens =>
  match tokens with
  | [] => stuckAt expected tokens
  | head :: rest =>
      match pick? head.node with
      | some a => ⟨some (a, rest), none⟩
      | none => stuckAt expected tokens

def keyword (word : Keyword) : Reader Unit :=
  token [.keyword word] fun
    | .keyword other => if other = word then some () else none
    | _ => none

def mark (sign : Mark) : Reader Unit :=
  token [.mark sign] fun
    | .mark other => if other = sign then some () else none
    | _ => none

def ident : Reader String :=
  token [] fun
    | .ident name => some name
    | _ => none

def atEnd : Reader Unit := fun tokens =>
  match tokens with
  | [] => ⟨some ((), []), none⟩
  | _ => stuckAt [.endOfTag] tokens

def optional (reader : Reader α) : Reader (Option α) :=
  (some <$> reader) <|> pure none

/-- As many in a row as there are. Stops after one that takes no token. -/
def many (reader : Reader α) : Reader (List α) := fun tokens =>
  let reading := reader tokens
  match reading.found? with
  | none => ⟨some ([], tokens), reading.stuck?⟩
  | some (a, rest) =>
      if rest.length < tokens.length then
        ((many reader rest).map (a :: ·)).after reading.stuck?
      else ⟨some ([a], rest), reading.stuck?⟩
termination_by tokens => tokens.length

def separated (separator : Reader Unit) (reader : Reader α) : Reader (List α) := do
  let first ← reader
  let more ← many (do separator; reader)
  return first :: more

def commaSeparated (reader : Reader α) : Reader (List α) :=
  (do
    let list ← separated (mark .comma) reader
    let _ ← optional (mark .comma)
    return list) <|> pure []

def parenthesized (reader : Reader α) : Reader α := do
  mark .leftParen
  let a ← reader
  mark .rightParen
  return a

def spanned (reader : Reader α) : Reader (Spanned α) := fun tokens =>
  let reading := reader tokens
  match reading.found? with
  | none => ⟨none, reading.stuck?⟩
  | some (a, rest) =>
      let taken := tokens.take (tokens.length - rest.length)
      let start := (taken.head?.map (·.span.start)).getD 0
      let stop := (taken.getLast?.map (·.span.stop)).getD 0
      ⟨some (⟨a, ⟨start, stop⟩⟩, rest), reading.stuck?⟩

end Reader

end ThemeRender.Template
