import ThemeRender.Proofs.Markup.ElementLines
import ThemeRender.Proofs.Markup.SpelledValues

namespace ThemeRender.Markup

open Outcome (except_bind_eq_ok of_map_ok)

variable {s rest : List Char}

/-! ## Where attributes are written -/

def NamedIn (text name : List Char) : Prop :=
  name <:+: text ∨ ∃ quote ∈ quotes, ∃ body, QuotedBody quote body ∧ unescape body = name ∧
    quote :: body ++ [quote] <:+: text

/-- The value is in the text, before the rest. The pieces of a literal are those of the string that
is between the quotes. -/
inductive ValueIn : AttrValue → List Char → List Char → Prop
  | literal {pieces : List Piece} {gap body rest : List Char} {quote : Char}
      (isQuote : quote ∈ quotes) (closes : QuotedBody quote body)
      (reads : interpolate (unescape body) = .ok pieces) :
      ValueIn (.literal pieces) (gap ++ (quote :: body ++ quote :: rest)) rest
  | other {value : AttrValue} {s rest : List Char} (unquoted : ∀ pieces, value ≠ .literal pieces)
      (after : rest <:+ s) : ValueIn value s rest

inductive WrittenIn : List Attr → List Char → List Char → Prop
  | nil {s rest : List Char} (after : rest <:+ s) : WrittenIn [] s rest
  | cons {name before s after rest : List Char} {value : AttrValue} {attrs : List Attr}
      (named : NamedIn before name) (valued : ValueIn value s after)
      (more : WrittenIn attrs after rest) :
      WrittenIn (⟨name, value⟩ :: attrs) (before ++ s) rest

theorem NamedIn.prepend {text name : List Char} (named : NamedIn text name) (lead : List Char) :
    NamedIn (lead ++ text) name := by
  have within : text <:+: lead ++ text := (List.suffix_append lead text).isInfix
  rcases named with part | ⟨quote, isQuote, body, closes, same, part⟩
  · exact .inl (part.trans within)
  · exact .inr ⟨quote, isQuote, body, closes, same, part.trans within⟩

theorem ValueIn.prepend {value : AttrValue} (valued : ValueIn value s rest) (lead : List Char) :
    ValueIn value (lead ++ s) rest := by
  cases valued with
  | literal isQuote closes reads =>
      rw [← List.append_assoc]
      exact .literal isQuote closes reads
  | other unquoted after => exact .other unquoted (after.trans (List.suffix_append lead s))

theorem ValueIn.of_suffix {value : AttrValue} {after : List Char} (valued : ValueIn value after rest)
    (part : after <:+ s) : ValueIn value s rest := by
  obtain ⟨lead, rfl⟩ := part
  exact valued.prepend lead

namespace WrittenIn

variable {attrs more : List Attr} {after : List Char}

theorem prepend (written : WrittenIn attrs s rest) (lead : List Char) :
    WrittenIn attrs (lead ++ s) rest := by
  cases written with
  | nil after => exact .nil (after.trans (List.suffix_append lead s))
  | cons named valued more =>
      rw [← List.append_assoc]
      exact .cons (named.prepend lead) valued more

theorem of_suffix (written : WrittenIn attrs after rest) (part : after <:+ s) :
    WrittenIn attrs s rest := by
  obtain ⟨lead, rfl⟩ := part
  exact written.prepend lead

theorem append (written : WrittenIn attrs s after) (writtenMore : WrittenIn more after rest) :
    WrittenIn (attrs ++ more) s rest := by
  induction written with
  | nil part => exact writtenMore.of_suffix part
  | cons named valued _ ih => exact .cons named valued (ih writtenMore)

end WrittenIn

/-! ## Strings and values -/

theorem body_of_readString {quote : Char} {contents : List Char}
    (reads : readString quote s = .ok (contents, rest)) :
    ∃ body, QuotedBody quote body ∧ unescape body = contents ∧ s = body ++ quote :: rest := by
  fun_induction readString quote s generalizing contents with
  | case1 => cases reads
  | case2 => cases reads
  | case3 d tail ih =>
      obtain ⟨⟨found, after⟩, readsTail, same⟩ := of_map_ok reads
      cases same
      obtain ⟨body, closes, rfl, rfl⟩ := ih readsTail
      exact ⟨'\\' :: d :: body, .escape d closes, rfl, rfl⟩
  | case4 tail other =>
      cases reads
      exact ⟨[], .nil, rfl, rfl⟩
  | case5 d tail other notQuote ih =>
      obtain ⟨⟨found, after⟩, readsTail, same⟩ := of_map_ok reads
      cases same
      obtain ⟨body, closes, rfl, rfl⟩ := ih readsTail
      refine ⟨d :: body, .char other notQuote closes, ?_, rfl⟩
      rw [unescape.eq_2]
      intro e more escape
      exact absurd escape other

theorem mem_quotes {c : Char} : c ∈ quotes ↔ c = '"' ∨ c = '\'' := by
  simp [quotes]

theorem valueIn_of_readValue {terminators : List Char} {value : AttrValue}
    (reads : readValue terminators s = .ok (value, rest)) : ValueIn value s rest := by
  have part := rest_readValue reads
  unfold readValue at reads
  dsimp only at reads
  split at reads
  · split at reads
    · cases reads
    · cases reads
      exact .other (fun _ => AttrValue.noConfusion) part
  · split at reads
    · rename_i isQuote
      split at reads
      · cases reads
      · rename_i contents after found
        split at reads
        · cases reads
        · rename_i pieces interpolates
          cases reads
          obtain ⟨body, closes, rfl, rfl⟩ := body_of_readString found
          exact @ValueIn.literal pieces [] body _ _ (mem_quotes.mpr isQuote) closes interpolates
    · split at reads
      · cases reads
      · cases reads
        exact .other (fun _ => AttrValue.noConfusion) part

/-! ## Lists and hashes -/

theorem valueIn_of_readListValue {value : AttrValue}
    (reads : readListValue s = .ok (value, rest)) : ValueIn value s rest := by
  have here := skipSpaces_suffix s
  unfold readListValue at reads
  split at reads
  · rename_i tail found
    rw [found] at here
    exact (valueIn_of_readValue reads).of_suffix
      ((skipSpaces_suffix tail).trans ((List.suffix_cons '=' tail).trans here))
  · cases reads
    exact .other (fun _ => AttrValue.noConfusion) here

theorem writtenIn_of_readList {attrs : List Attr} (reads : readList s = .ok (attrs, rest)) :
    WrittenIn attrs s rest := by
  fun_induction readList s generalizing attrs with
  | case1 => cases reads
  | case2 s tail start =>
      cases reads
      have here := skipSeparators_suffix s
      rw [start] at here
      exact .nil ((List.suffix_cons _ _).trans here)
  | case3 => cases reads
  | case4 s c tail start notEnd letter name value after readsValue =>
      rename_i ih
      obtain ⟨⟨more, left⟩, readsMore, same⟩ := of_map_ok reads
      cases same
      have here := skipSeparators_suffix s
      have split : c :: tail = name ++ tail.dropWhile isAttrNameChar :=
        congrArg (c :: ·) List.takeWhile_append_dropWhile.symm
      rw [start, split] at here
      exact (WrittenIn.cons (.inl List.infix_rfl) (valueIn_of_readListValue readsValue)
        (ih readsMore)).of_suffix here
  | case5 => cases reads

theorem namedIn_of_readHashName {c : Char} {found : HashName}
    (reads : readHashName c s = .ok found) :
    ∃ part, NamedIn part found.name ∧ c :: s = part ++ found.rest := by
  unfold readHashName at reads
  split at reads
  · rename_i isQuote
    obtain ⟨⟨contents, after⟩, readsString, rfl⟩ := of_map_ok reads
    obtain ⟨body, closes, same, rfl⟩ := body_of_readString readsString
    exact ⟨c :: body ++ [c],
      .inr ⟨c, mem_quotes.mpr isQuote, body, closes, same, List.infix_rfl⟩, by simp⟩
  · cases reads
    have within (raw : List Char) : (raw.reverse.dropWhile (· == ':')).reverse <:+: raw := by
      rw [← List.reverse_infix, List.reverse_reverse]
      exact (List.dropWhile_suffix _).isInfix
    dsimp only
    split
    · refine ⟨c :: s.takeWhile isAttrNameChar, .inl ?_, ?_⟩
      · exact (within _).trans (List.suffix_cons c _).isInfix
      · exact congrArg (c :: ·) List.takeWhile_append_dropWhile.symm
    · exact ⟨_, .inl (within _), List.takeWhile_append_dropWhile.symm⟩

theorem valueIn_of_readHashValue {found : HashName} {value : AttrValue}
    (reads : readHashValue found = .ok (value, rest)) : ValueIn value found.rest rest := by
  unfold readHashValue at reads
  split at reads
  · cases reads
  · dsimp only at reads
    split at reads
    · exact (valueIn_of_readValue reads).of_suffix
        ((skipSpaces_suffix _).trans (skipSpaces_suffix _))
    · split at reads
      · cases reads
      · rename_i tail sign
        exact (valueIn_of_readValue reads).of_suffix ((skipSpaces_suffix tail).trans
          ((suffix_of_afterHashSign? sign).trans (skipSpaces_suffix _)))

theorem writtenIn_of_readHash {attrs : List Attr} (reads : readHash s = .ok (attrs, rest)) :
    WrittenIn attrs s rest := by
  fun_induction readHash s generalizing attrs with
  | case1 => cases reads
  | case2 s tail start =>
      cases reads
      have here := skipSeparators_suffix s
      rw [start] at here
      exact .nil ((List.suffix_cons _ _).trans here)
  | case3 => cases reads
  | case4 => cases reads
  | case5 s c tail start notEnd name readsName value after readsValue ih =>
      obtain ⟨⟨more, left⟩, readsMore, same⟩ := of_map_ok reads
      cases same
      obtain ⟨part, named, split⟩ := namedIn_of_readHashName readsName
      have here := skipSeparators_suffix s
      rw [start, split] at here
      exact (WrittenIn.cons named (valueIn_of_readHashValue readsValue)
        (ih readsMore)).of_suffix here

/-! ## Elements -/

theorem Haml.writtenIn_of_readAttributes {count : Nat} {attrs : List Attr}
    (reads : readAttributes count s = .ok (attrs, rest)) : WrittenIn attrs s rest := by
  induction count generalizing s attrs with
  | zero =>
      cases reads
      exact .nil List.suffix_rfl
  | succ count ih =>
      rw [readAttributes.eq_def] at reads
      dsimp only at reads
      split at reads
      · obtain ⟨⟨first, after⟩, readsList, reads⟩ := except_bind_eq_ok.mp reads
        obtain ⟨⟨more, left⟩, readsMore, same⟩ := except_bind_eq_ok.mp reads
        cases same
        exact ((writtenIn_of_readList readsList).append (ih readsMore)).prepend ['(']
      · obtain ⟨⟨first, after⟩, readsHash, reads⟩ := except_bind_eq_ok.mp reads
        obtain ⟨⟨more, left⟩, readsMore, same⟩ := except_bind_eq_ok.mp reads
        cases same
        exact ((writtenIn_of_readHash readsHash).append (ih readsMore)).prepend ['\x7b']
      · cases reads
        exact .nil List.suffix_rfl

variable {line : Line} {element : Element}

theorem Haml.writtenIn_of_readElement (reads : readElement line = .ok element) :
    ∃ rest, WrittenIn element.attrs line.text rest := by
  rw [readElement_eq] at reads
  obtain ⟨⟨found, afterNames⟩, readsShorthands, reads⟩ := except_bind_eq_ok.mp reads
  obtain ⟨⟨attrs, rest⟩, readsAttributes, reads⟩ := except_bind_eq_ok.mp reads
  dsimp only at reads
  rw [finish_eq] at reads
  obtain ⟨inline, -, rfl⟩ := of_map_ok reads
  exact ⟨rest, (writtenIn_of_readAttributes (of_check readsAttributes)).of_suffix
    ((rest_readShorthands (of_check readsShorthands)).trans (rest_readTag line.text))⟩

theorem Jade.writtenIn_of_readHead {head : Head} (reads : readHead line = .ok head) :
    ∃ rest, WrittenIn head.attrs line.text rest := by
  rw [readHead_eq] at reads
  obtain ⟨⟨found, afterNames⟩, readsShorthands, reads⟩ := except_bind_eq_ok.mp reads
  obtain ⟨⟨attrs, rest⟩, readsAttributes, same⟩ := except_bind_eq_ok.mp reads
  cases same
  have names : afterNames <:+ line.text :=
    (rest_readShorthands (of_check readsShorthands)).trans (List.dropWhile_suffix _)
  refine ⟨rest, WrittenIn.of_suffix ?_ names⟩
  dsimp only at readsAttributes ⊢
  unfold readAttributes at readsAttributes
  split at readsAttributes
  · exact (writtenIn_of_readList (of_check readsAttributes)).prepend ['(']
  · cases readsAttributes
    exact .nil List.suffix_rfl

end ThemeRender.Markup
