import ThemeRender.Proofs.Markup.Rests
import ThemeRender.Proofs.Markup.Shared
import ThemeRender.Proofs.Markup.SpelledValues
import ThemeRender.Proofs.Text.Splitting

namespace ThemeRender.Markup

/-! ## Names -/

structure SpelledAttr where
  name : List Char
  value : SpelledValue
  named : name ≠ []
  letters : ∀ c ∈ name, isAttrNameChar c = true
  starts : name.head? ≠ some ':'
  ends : name.getLast? ≠ some ':'

variable {c : Char} {s : List Char}

namespace SpelledAttr

def read (attr : SpelledAttr) : Except CompileFault Attr :=
  attr.value.read.map (⟨attr.name, ·⟩)

theorem first (attr : SpelledAttr) : ∃ c tail, attr.name = c :: tail ∧ isAttrNameChar c = true ∧
    c ≠ ':' ∧ ∀ d ∈ tail, isAttrNameChar d = true := by
  have letters := attr.letters
  have starts := attr.starts
  cases same : attr.name with
  | nil => exact absurd same attr.named
  | cons c tail =>
      rw [same] at letters starts
      obtain ⟨letter, letters⟩ := List.forall_mem_cons.mp letters
      exact ⟨c, tail, rfl, letter, fun colon => starts (congrArg some colon), letters⟩

end SpelledAttr

theorem other_of_letter (letter : isAttrNameChar c = true) {d : Char}
    (noLetter : isAttrNameChar d = false) : c ≠ d := by
  rintro rfl
  rw [letter] at noLetter
  cases noLetter

theorem not_separator_of_letter (letter : isAttrNameChar c = true) :
    ¬(Text.isBlank c || c == ',') = true := by
  have noComma : (c == ',') = false := beq_eq_false_iff_ne.mpr (other_of_letter letter rfl)
  rw [noComma, Bool.or_false, Bool.not_eq_true]
  simp only [isAttrNameChar, Bool.or_eq_true, beq_iff_eq] at letter
  rcases letter with ((letter | rfl) | rfl) | rfl
  · exact not_blank_of_nameChar letter
  · decide
  · decide
  · decide

theorem quotedBody_letters {name : List Char} (letters : ∀ c ∈ name, isAttrNameChar c = true) :
    QuotedBody '"' name ∧ unescape name = name := by
  induction name with
  | nil => exact ⟨.nil, rfl⟩
  | cons c tail ih =>
      obtain ⟨letter, letters⟩ := List.forall_mem_cons.mp letters
      obtain ⟨body, same⟩ := ih letters
      have plain : c ≠ '\\' := other_of_letter letter rfl
      refine ⟨.char plain (other_of_letter letter rfl) body, ?_⟩
      rw [unescape.eq_2 _ _ fun d more escape _ => plain escape, same]

theorem readHashName_quoted (attr : SpelledAttr) (more : List Char) :
    readHashName '"' (attr.name ++ '"' :: more) = .ok ⟨attr.name, false, more⟩ := by
  obtain ⟨body, same⟩ := quotedBody_letters attr.letters
  rw [readHashName, if_pos (.inl rfl), readString_body (by decide) body, same]
  rfl

theorem not_quote_of_letter (letter : isAttrNameChar c = true) : ¬(c = '"' ∨ c = '\'') :=
  not_or.mpr ⟨other_of_letter letter rfl, other_of_letter letter rfl⟩

theorem withoutColons {name : List Char} (ends : name.getLast? ≠ some ':') :
    (name.reverse.dropWhile (· == ':')).reverse = name := by
  rw [List.getLast?_eq_head?_reverse] at ends
  cases reversed : name.reverse with
  | nil =>
      rw [List.reverse_eq_nil_iff.mp reversed]
      rfl
  | cons last rest =>
      rw [reversed] at ends
      rw [List.dropWhile_cons_of_neg (by simpa using ends), ← reversed, List.reverse_reverse]

theorem readHashName_bare (attr : SpelledAttr) {tail : List Char} (first : attr.name = c :: tail)
    (more : List Char) :
    readHashName c (tail ++ ':' :: ' ' :: more) = .ok ⟨attr.name, true, ' ' :: more⟩ := by
  obtain ⟨d, tailToo, same, letter, other, letters⟩ := attr.first
  rw [first] at same
  cases same
  have closed : ∀ d ∈ c :: tail ++ [':'], isAttrNameChar d = true := by
    intro d member
    rcases List.mem_append.mp member with inside | colon
    · exact attr.letters d (first ▸ inside)
    · exact List.mem_singleton.mp colon ▸ rfl
  have blank : ∀ d, (' ' :: more).head? = some d → isAttrNameChar d = false := by
    rintro d ⟨⟩
    rfl
  have whole : c :: (tail ++ ':' :: ' ' :: more) = (c :: tail ++ [':']) ++ ' ' :: more := by simp
  rw [readHashName, if_neg (not_quote_of_letter letter), if_neg other, whole]
  dsimp only
  rw [Text.takeWhile_exact closed blank, Text.dropWhile_exact closed blank, ← first,
    List.reverse_append, List.getLast?_append]
  change Except.ok (HashName.mk (attr.name.reverse.dropWhile (· == ':')).reverse true _) = _
  rw [withoutColons attr.ends]

theorem readHashName_symbol (attr : SpelledAttr) (more : List Char) :
    readHashName ':' (attr.name ++ ' ' :: more) = .ok ⟨attr.name, false, ' ' :: more⟩ := by
  have blank : ∀ d, (' ' :: more).head? = some d → isAttrNameChar d = false := by
    rintro d ⟨⟩
    rfl
  rw [readHashName, if_neg (by decide), if_pos rfl]
  dsimp only
  rw [Text.takeWhile_exact attr.letters blank, Text.dropWhile_exact attr.letters blank,
    withoutColons attr.ends, beq_eq_false_iff_ne.mpr attr.ends]

/-! ## Lists -/

/-- The ways to write a list: `(n=v)`, `{n: v}`, `{"n": v}`, `{"n" => v}` and `{:n => v}`, the last
four in curly brackets. -/
inductive Spelling where
  | parens
  | colons
  | quotedColons
  | quotedRockets
  | symbols
deriving DecidableEq

namespace Spelling

def opener : Spelling → Char
  | parens => '('
  | _ => '\x7b'

def closer : Spelling → Char
  | parens => ')'
  | _ => '\x7d'

def terminators : Spelling → List Char
  | parens => [' ', '\t', ',', ')']
  | _ => [',', '\x7d']

def entry (spelling : Spelling) (attr : SpelledAttr) : List Char :=
  match spelling with
  | parens => attr.name ++ '=' :: attr.value.text
  | colons => attr.name ++ ':' :: ' ' :: attr.value.text
  | quotedColons => '"' :: attr.name ++ '"' :: ':' :: ' ' :: attr.value.text
  | quotedRockets => '"' :: attr.name ++ '"' :: ' ' :: '=' :: '>' :: ' ' :: attr.value.text
  | symbols => ':' :: attr.name ++ ' ' :: '=' :: '>' :: ' ' :: attr.value.text

def entries (spelling : Spelling) : List SpelledAttr → List Char
  | [] => []
  | [attr] => spelling.entry attr
  | attr :: rest => spelling.entry attr ++ ',' :: ' ' :: entries spelling rest

def list (spelling : Spelling) (attrs : List SpelledAttr) : List Char :=
  spelling.opener :: spelling.entries attrs ++ [spelling.closer]

def reader : Spelling → List Char → Except CompileFault (List Attr × List Char)
  | parens => readList
  | _ => readHash

end Spelling

theorem readHash_eq (s : List Char) : readHash s =
    match skipSeparators s with
    | [] => .error .unterminatedHash
    | c :: tail =>
        if c = '\x7d' then .ok ([], tail)
        else do
          let found ← readHashName c tail
          let (value, after) ← readHashValue found
          let (attrs, rest) ← readHash after
          return (⟨found.name, value⟩ :: attrs, rest) := by
  rw [readHash.eq_def]
  split
  · rename_i none
    rw [none]
  · rename_i start
    rw [start]
    dsimp only
    congr 1
    split
    · rename_i refused
      rw [refused]
      rfl
    · rename_i named
      rw [named]
      change _ = readHashValue _ >>= _
      split
      · rename_i refused
        rw [refused]
        rfl
      · rename_i found
        rw [found]
        change _ = readHash _ >>= _
        cases readHash _ <;> rfl

namespace Spelling

variable {spelling : Spelling} {attr : SpelledAttr}

theorem terminates (ends : c ∈ [',', spelling.closer]) : Terminates spelling.terminators c := by
  constructor
  · cases spelling <;> simp [terminators, valueStops, closers]
  · cases spelling with
    | parens => exact List.mem_append_right [' ', '\t'] ends
    | colons | quotedColons | quotedRockets | symbols => exact ends

theorem noSpace_of_ends (spelling : Spelling) (ends : c ∈ [',', spelling.closer]) :
    c ≠ ' ' ∧ c ≠ '\t' := by
  have apart : ∀ spelling : Spelling, ∀ c ∈ [',', spelling.closer], c ≠ ' ' ∧ c ≠ '\t' := by
    rintro ⟨⟩ <;> simp [closer]
  exact apart spelling c ends

theorem readValue_entry (spelling : Spelling) (ends : c ∈ [',', spelling.closer])
    (more : List Char) :
    readValue spelling.terminators (skipSpaces (attr.value.text ++ c :: more)) =
      attr.value.read.map (·, c :: more) := by
  rw [attr.value.skipSpaces_text (spelling.noSpace_of_ends ends),
    attr.value.readValue_text (terminates ends)]

theorem skipSeparators_entry (attr : SpelledAttr) (more : List Char) :
    skipSeparators (spelling.entry attr ++ more) = spelling.entry attr ++ more := by
  obtain ⟨d, tail, same, letter, -⟩ := attr.first
  have starts : ∃ d tail, spelling.entry attr ++ more = d :: tail ∧
      ¬(Text.isBlank d || d == ',') = true := by
    cases spelling with
    | parens =>
        refine ⟨d, tail ++ '=' :: attr.value.text ++ more, ?_, ?_⟩
        · rw [entry, same]
          rfl
        · exact not_separator_of_letter letter
    | colons =>
        refine ⟨d, tail ++ ':' :: ' ' :: attr.value.text ++ more, ?_, ?_⟩
        · rw [entry, same]
          rfl
        · exact not_separator_of_letter letter
    | quotedColons | quotedRockets => exact ⟨'"', _, rfl, by decide⟩
    | symbols => exact ⟨':', _, rfl, by decide⟩
  obtain ⟨d, tail, whole, noSeparator⟩ := starts
  rw [whole]
  exact List.dropWhile_cons_of_neg noSeparator

def thenRest (reader : List Char → Except CompileFault (List Attr × List Char))
    (attr : SpelledAttr) (more : List Char) : Except CompileFault (List Attr × List Char) := do
  let first ← attr.read
  let (attrs, rest) ← reader more
  return (first :: attrs, rest)

theorem readList_entry_eq (ends : c ∈ [',', ')']) {more : List Char}
    (start : skipSeparators s = parens.entry attr ++ c :: more) :
    readList s = thenRest readList attr (c :: more) := by
  obtain ⟨d, tail, same, letter, -, letters⟩ := attr.first
  have whole : parens.entry attr ++ c :: more =
      d :: (tail ++ '=' :: (attr.value.text ++ c :: more)) := by
    simp [entry, same]
  have sign : ∀ d, ('=' :: (attr.value.text ++ c :: more)).head? = some d →
      isAttrNameChar d = false := by
    rintro d ⟨⟩
    rfl
  have readsValue : readListValue ('=' :: (attr.value.text ++ c :: more)) =
      attr.value.read.map (·, c :: more) :=
    parens.readValue_entry ends more
  rw [readList_entry (start.trans whole) letter, Text.takeWhile_exact letters sign,
    Text.dropWhile_exact letters sign, readsValue, ← same, thenRest, SpelledAttr.read]
  cases attr.value.read <;> rfl

section

variable {d : Char} {tail more after : List Char}

theorem readHash_named {found : HashName} (start : skipSeparators s = d :: tail)
    (notEnd : d ≠ '\x7d') (readsName : readHashName d tail = .ok found)
    (same : found.name = attr.name)
    (readsValue : readHashValue found = attr.value.read.map (·, c :: more)) :
    readHash s = thenRest readHash attr (c :: more) := by
  rw [readHash_eq, start]
  dsimp only
  rw [if_neg notEnd, readsName]
  change readHashValue found >>= _ = _
  rw [readsValue, same, thenRest, SpelledAttr.read]
  cases attr.value.read <;> rfl

theorem readHash_signed (ends : c ∈ [',', '\x7d']) (start : skipSeparators s = d :: tail)
    (notEnd : d ≠ '\x7d') (readsName : readHashName d tail = .ok ⟨attr.name, false, after⟩)
    (sign : afterHashSign? (skipSpaces after) = some (' ' :: (attr.value.text ++ c :: more))) :
    readHash s = thenRest readHash attr (c :: more) := by
  refine readHash_named start notEnd readsName rfl ?_
  rw [readHashValue, if_neg (by simpa using attr.named), if_neg Bool.false_ne_true]
  dsimp only
  rw [sign]
  exact colons.readValue_entry ends more

theorem readHash_separated (ends : c ∈ [',', '\x7d']) (start : skipSeparators s = d :: tail)
    (notEnd : d ≠ '\x7d') (readsName : readHashName d tail =
      .ok ⟨attr.name, true, ' ' :: (attr.value.text ++ c :: more)⟩) :
    readHash s = thenRest readHash attr (c :: more) := by
  refine readHash_named start notEnd readsName rfl ?_
  rw [readHashValue, if_neg (by simpa using attr.named), if_pos rfl]
  change readValue _ (skipSpaces (skipSpaces (attr.value.text ++ c :: more))) = _
  rw [attr.value.skipSpaces_text (colons.noSpace_of_ends ends)]
  exact colons.readValue_entry ends more

end

theorem reader_entry (ends : c ∈ [',', spelling.closer]) {more : List Char}
    (start : skipSeparators s = spelling.entry attr ++ c :: more) :
    spelling.reader s = thenRest spelling.reader attr (c :: more) := by
  cases spelling with
  | parens => exact readList_entry_eq ends start
  | colons =>
      obtain ⟨d, tail, same, letter, -, letters⟩ := attr.first
      have whole : colons.entry attr ++ c :: more =
          d :: (tail ++ ':' :: ' ' :: (attr.value.text ++ c :: more)) := by
        simp [entry, same]
      exact readHash_separated ends (start.trans whole) (other_of_letter letter rfl)
        (readHashName_bare attr same _)
  | quotedColons =>
      have whole : quotedColons.entry attr ++ c :: more =
          '"' :: (attr.name ++ '"' :: (':' :: ' ' :: (attr.value.text ++ c :: more))) := by
        simp [entry]
      exact readHash_signed ends (start.trans whole) (by decide) (readHashName_quoted attr _) rfl
  | quotedRockets =>
      have whole : quotedRockets.entry attr ++ c :: more = '"' :: (attr.name ++ '"' ::
          (' ' :: '=' :: '>' :: ' ' :: (attr.value.text ++ c :: more))) := by
        simp [entry]
      exact readHash_signed ends (start.trans whole) (by decide) (readHashName_quoted attr _) rfl
  | symbols =>
      have whole : symbols.entry attr ++ c :: more =
          ':' :: (attr.name ++ ' ' :: ('=' :: '>' :: ' ' :: (attr.value.text ++ c :: more))) := by
        simp [entry]
      exact readHash_signed ends (start.trans whole) (by decide) (readHashName_symbol attr _) rfl

theorem reader_skips (spelling : Spelling) (s : List Char) :
    spelling.reader (',' :: ' ' :: s) = spelling.reader s := by
  have skipped : skipSeparators (',' :: ' ' :: s) = skipSeparators s := rfl
  cases spelling with
  | parens => exact (readList_eq _).trans (skipped ▸ (readList_eq s).symm)
  | colons | quotedColons | quotedRockets | symbols =>
      exact (readHash_eq _).trans (skipped ▸ (readHash_eq s).symm)

theorem reader_closer (spelling : Spelling) (rest : List Char) :
    spelling.reader (spelling.closer :: rest) = .ok ([], rest) := by
  cases spelling with
  | parens => exact readList_eq _
  | colons | quotedColons | quotedRockets | symbols => exact readHash_eq _

/-- Whatever the spelling, a list is read as its attributes with their values. -/
theorem reader_entries (spelling : Spelling) (attrs : List SpelledAttr) (rest : List Char) :
    spelling.reader (spelling.entries attrs ++ spelling.closer :: rest) =
      (attrs.mapM SpelledAttr.read).map (·, rest) := by
  induction attrs using entries.induct with
  | case1 => exact spelling.reader_closer rest
  | case2 attr =>
      have ends : spelling.closer ∈ [',', spelling.closer] := by simp
      rw [entries, reader_entry ends (skipSeparators_entry attr _), thenRest, reader_closer,
        List.mapM_cons, List.mapM_nil]
      cases attr.read <;> rfl
  | case3 attr others more ih =>
      have ends : ',' ∈ [',', spelling.closer] := List.mem_cons_self
      have whole : spelling.entries (attr :: others) ++ spelling.closer :: rest =
          spelling.entry attr ++
            ',' :: (' ' :: (spelling.entries others ++ spelling.closer :: rest)) := by
        rw [entries]
        · simp
        · exact more
      rw [whole, reader_entry ends (skipSeparators_entry attr _), thenRest, reader_skips, ih,
        List.mapM_cons]
      cases attr.read with
      | error fault => rfl
      | ok first => cases others.mapM SpelledAttr.read <;> rfl

end Spelling

def listsText (lists : List (Spelling × List SpelledAttr)) : List Char :=
  lists.flatMap fun list => list.1.list list.2

namespace Haml

theorem readAttributes_bounds {count countToo : Nat} (enough : s.length ≤ count)
    (enoughToo : s.length ≤ countToo) : readAttributes count s = readAttributes countToo s := by
  have none (count : Nat) : readAttributes count [] = .ok ([], []) := by
    cases count <;> rfl
  induction count generalizing s countToo with
  | zero =>
      obtain rfl := List.length_eq_zero_iff.mp (Nat.le_zero.mp enough)
      rw [none, none]
  | succ count ih =>
      cases countToo with
      | zero =>
          obtain rfl := List.length_eq_zero_iff.mp (Nat.le_zero.mp enoughToo)
          rw [none, none]
      | succ countToo =>
          have goesOn {rest after : List Char} {c : Char} (starts : s = c :: rest)
              (left : after <:+ rest) :
              readAttributes count after = readAttributes countToo after := by
            have shorter := left.length_le
            rw [starts, List.length_cons] at enough enoughToo
            exact ih (by omega) (by omega)
          rw [readAttributes.eq_def, readAttributes.eq_def (countToo + 1)]
          dsimp only
          split
          · rename_i rest
            cases reads : readList rest with
            | error fault => rfl
            | ok found =>
                change readAttributes count found.2 >>= _ = readAttributes countToo found.2 >>= _
                rw [goesOn rfl (rest_readList reads)]
          · rename_i rest
            cases reads : readHash rest with
            | error fault => rfl
            | ok found =>
                change readAttributes count found.2 >>= _ = readAttributes countToo found.2 >>= _
                rw [goesOn rfl (rest_readHash reads)]
          · rfl

theorem readAttributes_opener (spelling : Spelling) (count : Nat) (s : List Char) :
    readAttributes (count + 1) (spelling.opener :: s) = (do
      let (attrs, rest) ← spelling.reader s
      let (more, rest) ← readAttributes count rest
      return (attrs ++ more, rest)) := by
  cases spelling <;> rfl

/-- How the attributes are spelled and spread over lists does not matter. -/
theorem readAttributes_lists (lists : List (Spelling × List SpelledAttr)) (rest : List Char) :
    readAttributes (listsText lists ++ rest).length (listsText lists ++ rest) = (do
      let first ← (lists.flatMap (·.2)).mapM SpelledAttr.read
      let (more, left) ← readAttributes rest.length rest
      return (first ++ more, left)) := by
  induction lists with
  | nil =>
      change readAttributes rest.length rest = readAttributes rest.length rest >>= _
      cases readAttributes rest.length rest <;> rfl
  | cons list lists ih =>
      obtain ⟨spelling, attrs⟩ := list
      have whole : listsText (⟨spelling, attrs⟩ :: lists) ++ rest = spelling.opener ::
          (spelling.entries attrs ++ spelling.closer :: (listsText lists ++ rest)) := by
        simp [listsText, Spelling.list]
      have enough : (listsText lists ++ rest).length ≤
          (spelling.entries attrs ++ spelling.closer :: (listsText lists ++ rest)).length := by
        simp only [List.length_append, List.length_cons]
        omega
      rw [whole, List.length_cons, readAttributes_opener, spelling.reader_entries,
        List.flatMap_cons, List.mapM_append]
      cases attrs.mapM SpelledAttr.read with
      | error fault => rfl
      | ok first =>
          change readAttributes _ (listsText lists ++ rest) >>= _ = _
          rw [readAttributes_bounds enough le_rfl, ih]
          cases (lists.flatMap (·.2)).mapM SpelledAttr.read with
          | error fault => rfl
          | ok others =>
              cases readAttributes rest.length rest with
              | error fault => rfl
              | ok found =>
                  have same := List.append_assoc first others found.1
                  exact congrArg (fun attrs => Except.ok (attrs, found.2)) same.symm

end Haml

end ThemeRender.Markup
