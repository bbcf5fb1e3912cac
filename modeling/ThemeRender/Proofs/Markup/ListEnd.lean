import ThemeRender.Markup.Attribute
import ThemeRender.Proofs.Outcome
import ThemeRender.Proofs.Text.Splitting
/-!
A list of attributes that is read to its end is read so before any other text. The readers of its
parts stop at a character that is still part of the list, and look no further.
-/

namespace ThemeRender.Markup

open Outcome (of_map_ok)

variable {s part rest : List Char} {c : Char}

theorem readString_part {quote : Char} {contents : List Char}
    (reads : readString quote s = .ok (contents, rest)) :
    ∃ part, s = part ++ rest ∧ ∀ more, readString quote (part ++ more) = .ok (contents, more) := by
  fun_induction readString quote s generalizing contents with
  | case1 => cases reads
  | case2 => cases reads
  | case3 d tail ih =>
      obtain ⟨⟨found, after⟩, readsTail, same⟩ := of_map_ok reads
      cases same
      obtain ⟨part, rfl, readsPart⟩ := ih readsTail
      refine ⟨'\\' :: d :: part, rfl, fun more => ?_⟩
      rw [List.cons_append, List.cons_append, readString.eq_def]
      dsimp only
      rw [if_pos rfl, readsPart more]
      rfl
  | case4 tail other =>
      cases reads
      refine ⟨[quote], rfl, fun more => ?_⟩
      rw [List.singleton_append, readString.eq_def]
      dsimp only
      rw [if_neg other, if_pos rfl]
  | case5 d tail other notQuote ih =>
      obtain ⟨⟨found, after⟩, readsTail, same⟩ := of_map_ok reads
      cases same
      obtain ⟨part, rfl, readsPart⟩ := ih readsTail
      refine ⟨d :: part, rfl, fun more => ?_⟩
      rw [List.cons_append, readString.eq_def]
      dsimp only
      rw [if_neg other, if_neg notQuote, readsPart more]
      rfl

theorem of_prepend {d : Char} {found : List Char × List Char}
    (same : prepend d found = (part, c :: rest)) :
    ∃ tail, part = d :: tail ∧ found = (tail, c :: rest) := by
  obtain ⟨tail, after⟩ := found
  cases same
  exact ⟨tail, rfl, rfl⟩

theorem spanExpr_part {terminators : List Char} {depth : Nat} {quote? : Option Char}
    (found : spanExpr terminators depth quote? s = (part, c :: rest)) (more : List Char) :
    spanExpr terminators depth quote? (part ++ c :: more) = (part, c :: more) := by
  fun_induction spanExpr terminators depth quote? s generalizing part with
  | case1 => cases found
  | case2 => cases found
  | case3 depth quote d tail ih =>
      obtain ⟨_, rfl, escaped⟩ := of_prepend found
      obtain ⟨_, rfl, within⟩ := of_prepend escaped
      rw [List.cons_append, List.cons_append, spanExpr.eq_def]
      dsimp only
      rw [if_pos rfl, ih within]
      rfl
  | case4 depth d tail quote other ih =>
      obtain ⟨_, rfl, within⟩ := of_prepend found
      rw [List.cons_append, spanExpr.eq_def]
      dsimp only
      rw [if_neg other, ih within]
      rfl
  | case5 depth d tail isQuote ih =>
      obtain ⟨_, rfl, within⟩ := of_prepend found
      rw [List.cons_append, spanExpr.eq_def]
      dsimp only
      rw [if_pos isQuote, ih within]
      rfl
  | case6 depth d tail noQuote opens ih =>
      obtain ⟨_, rfl, within⟩ := of_prepend found
      rw [List.cons_append, spanExpr.eq_def]
      dsimp only
      rw [if_neg noQuote, if_pos opens, ih within]
      rfl
  | case7 depth d tail noQuote opensNot closes ih =>
      obtain ⟨_, rfl, within⟩ := of_prepend found
      rw [List.cons_append, spanExpr.eq_def]
      dsimp only
      rw [if_neg noQuote, if_neg opensNot, if_pos closes, ih within]
      rfl
  | case8 depth d tail noQuote opensNot closesNot ends =>
      cases found
      rw [List.nil_append, spanExpr.eq_def]
      dsimp only
      rw [if_neg noQuote, if_neg opensNot, if_neg closesNot, if_pos ends]
  | case9 depth d tail noQuote opensNot closesNot goesOn ih =>
      obtain ⟨_, rfl, within⟩ := of_prepend found
      rw [List.cons_append, spanExpr.eq_def]
      dsimp only
      rw [if_neg noQuote, if_neg opensNot, if_neg closesNot, if_neg goesOn, ih within]
      rfl

/-- The value is read from `part` before whatever starts with `c`. -/
def Stops {α : Type} (reader : List Char → Except CompileFault (α × List Char)) (part : List Char)
    (a : α) (c : Char) : Prop :=
  ∀ more, reader (part ++ c :: more) = .ok (a, c :: more)

theorem readValue_part {terminators : List Char} {value : AttrValue}
    (reads : readValue terminators s = .ok (value, c :: rest)) :
    ∃ part, s = part ++ c :: rest ∧ Stops (readValue terminators) part value c := by
  cases s with
  | nil => cases reads
  | cons d tail =>
      rw [readValue.eq_def] at reads
      dsimp only at reads
      split at reads
      · rename_i isQuote
        cases found : readString d tail with
        | error fault =>
            rw [found] at reads
            cases reads
        | ok parts =>
            obtain ⟨contents, after⟩ := parts
            rw [found] at reads
            dsimp only at reads
            split at reads
            · cases reads
            · rename_i pieces interpolates
              cases reads
              obtain ⟨part, rfl, readsPart⟩ := readString_part found
              refine ⟨d :: part, rfl, fun more => ?_⟩
              rw [List.cons_append, readValue.eq_def]
              dsimp only
              rw [if_pos isQuote, readsPart]
              dsimp only
              rw [interpolates]
      · rename_i noQuote
        split at reads
        · cases reads
        · rename_i nonempty
          have whole := spanExpr_append terminators 0 none (d :: tail)
          cases found : spanExpr terminators 0 none (d :: tail) with
          | mk part after =>
              rw [found] at reads whole nonempty
              cases reads
              cases part with
              | nil => exact absurd rfl nonempty
              | cons first part =>
                  cases whole
                  refine ⟨d :: part, rfl, fun more => ?_⟩
                  have same := spanExpr_part found more
                  rw [List.cons_append] at same ⊢
                  rw [readValue.eq_def]
                  dsimp only
                  rw [if_neg noQuote, same, if_neg nonempty]

theorem dropWhile_part (part : List Char) {p : Char → Bool}
    (left : s.dropWhile p = part ++ c :: rest) :
    ∃ start, s = start ++ (part ++ c :: rest) ∧
      ∀ more, (start ++ (part ++ c :: more)).takeWhile p = start ∧
        (start ++ (part ++ c :: more)).dropWhile p = part ++ c :: more := by
  have within : ∀ d ∈ s.takeWhile p, p d = true := List.all_eq_true.mp List.all_takeWhile
  have ends : ∀ more d, (part ++ c :: more).head? = some d → p d = false := by
    intro more d first
    have first : (s.dropWhile p).head? = some d := by
      rw [left]
      cases part <;> exact first
    have stopped := List.head?_dropWhile_not p s
    rw [first] at stopped
    exact stopped
  refine ⟨s.takeWhile p, ?_, fun more => ?_⟩
  · rw [← left, List.takeWhile_append_dropWhile]
  · exact ⟨Text.takeWhile_exact within (ends more), Text.dropWhile_exact within (ends more)⟩

theorem readListValue_part {value : AttrValue} (reads : readListValue s = .ok (value, c :: rest)) :
    ∃ part, s = part ++ c :: rest ∧ Stops readListValue part value c := by
  unfold readListValue at reads
  split at reads
  · rename_i tail found
    obtain ⟨part, readsFrom, stops⟩ := readValue_part reads
    obtain ⟨gap, rfl, afterGap⟩ := dropWhile_part part readsFrom
    obtain ⟨spaces, rfl, afterSpaces⟩ := dropWhile_part [] found
    refine ⟨spaces ++ '=' :: (gap ++ part), by simp, fun more => ?_⟩
    have spelt : spaces ++ '=' :: (gap ++ part) ++ c :: more =
        spaces ++ '=' :: (gap ++ (part ++ c :: more)) := by
      simp
    have toMark : skipSpaces (spaces ++ '=' :: (gap ++ (part ++ c :: more))) =
        '=' :: (gap ++ (part ++ c :: more)) := (afterSpaces _).2
    have toPart : skipSpaces (gap ++ (part ++ c :: more)) = part ++ c :: more := (afterGap more).2
    rw [spelt, readListValue, toMark]
    change readValue _ (skipSpaces _) = _
    rw [toPart, stops more]
  · rename_i notMark
    simp only [Except.ok.injEq, Prod.mk.injEq] at reads
    obtain ⟨rfl, left⟩ := reads
    obtain ⟨spaces, rfl, afterSpaces⟩ := dropWhile_part [] left
    refine ⟨spaces, rfl, fun more => ?_⟩
    have here : skipSpaces (spaces ++ c :: more) = c :: more := (afterSpaces more).2
    unfold readListValue
    split
    · rename_i found
      rw [here] at found
      cases found
      exact absurd left (notMark rest)
    · rw [here]

theorem readList_eq (s : List Char) : readList s =
    match skipSeparators s with
    | [] => .error .unterminatedAttributes
    | c :: tail =>
        if c = ')' then .ok ([], tail)
        else if isAttrNameChar c then do
          let (value, after) ← readListValue (tail.dropWhile isAttrNameChar)
          let (attrs, rest) ← readList after
          return (⟨c :: tail.takeWhile isAttrNameChar, value⟩ :: attrs, rest)
        else .error (.missingAttributeName c) := by
  rw [readList.eq_def]
  split
  · rename_i none
    rw [none]
  · rename_i start
    rw [start]
    dsimp only
    congr 2
    split
    · rename_i refused
      rw [refused]
      rfl
    · rename_i found
      rw [found]
      change _ = readList _ >>= _
      cases readList _ <;> rfl

theorem readList_close (start : skipSeparators s = ')' :: rest) : readList s = .ok ([], rest) := by
  rw [readList_eq, start]
  rfl

theorem readList_entry {tail : List Char} (start : skipSeparators s = c :: tail)
    (letter : isAttrNameChar c = true) :
    readList s = (do
      let (value, after) ← readListValue (tail.dropWhile isAttrNameChar)
      let (attrs, rest) ← readList after
      return (⟨c :: tail.takeWhile isAttrNameChar, value⟩ :: attrs, rest)) := by
  rw [readList_eq, start]
  dsimp only
  rw [if_neg (by rintro rfl; cases letter), if_pos letter]

theorem readList_attr {tail after : List Char} {value : AttrValue} {attrs : List Attr}
    (start : skipSeparators s = c :: tail) (letter : isAttrNameChar c = true)
    (readsValue : readListValue (tail.dropWhile isAttrNameChar) = .ok (value, after))
    (readsMore : readList after = .ok (attrs, rest)) :
    readList s = .ok (⟨c :: tail.takeWhile isAttrNameChar, value⟩ :: attrs, rest) := by
  rw [readList_entry start letter, readsValue]
  change readList after >>= _ = _
  rw [readsMore]
  rfl

theorem readList_part {attrs : List Attr} (reads : readList s = .ok (attrs, rest)) :
    ∃ body, s = body ++ ')' :: rest ∧
      ∀ more, readList (body ++ ')' :: more) = .ok (attrs, more) := by
  fun_induction readList s generalizing attrs with
  | case1 => cases reads
  | case2 s tail start =>
      cases reads
      obtain ⟨separators, rfl, afterSeparators⟩ := dropWhile_part [] start
      exact ⟨separators, rfl, fun more => readList_close (afterSeparators more).2⟩
  | case3 => cases reads
  | case4 s d tail start notEnd letter name value after readsValue =>
      rename_i ih
      obtain ⟨⟨others, left⟩, readsMore, same⟩ := of_map_ok reads
      cases same
      obtain ⟨body, rfl, readsBody⟩ := ih readsMore
      -- The value stops at the first character of what is read after it.
      obtain ⟨first, others', spelt⟩ : ∃ first others',
          ∀ more, body ++ ')' :: more = first :: (others' ++ more) := by
        cases body with
        | nil => exact ⟨')', [], fun _ => rfl⟩
        | cons first body => exact ⟨first, body ++ [')'], by simp⟩
      rw [spelt] at readsValue
      obtain ⟨part, readsFrom, stops⟩ := readListValue_part readsValue
      obtain ⟨letters, rfl, afterLetters⟩ := dropWhile_part part readsFrom
      obtain ⟨separators, rfl, afterSeparators⟩ := dropWhile_part [] start
      refine ⟨separators ++ d :: (letters ++ (part ++ body)), by simp [spelt], fun more => ?_⟩
      have whole : separators ++ d :: (letters ++ (part ++ body)) ++ ')' :: more =
          separators ++ d :: (letters ++ (part ++ first :: (others' ++ more))) := by
        simp [← spelt]
      obtain ⟨sameName, afterName⟩ := afterLetters (others' ++ more)
      have readsWhole := readList_attr (afterSeparators _).2 letter
        (afterName.symm ▸ stops _) (spelt more ▸ readsBody more)
      have nameIs : name = d :: letters := congrArg (d :: ·) (afterLetters _).1
      rw [sameName] at readsWhole
      rw [whole, nameIs]
      exact readsWhole
  | case5 => cases reads

end ThemeRender.Markup
