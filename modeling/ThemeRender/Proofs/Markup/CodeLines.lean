import ThemeRender.Proofs.Markup.Agreement
import ThemeRender.Proofs.Template.Trimmed
/-!
A line of code in either dialect and the tag with the same code. The dialects tell the code that
holds lines by its first word, and templates by its first token. They disagree about `each`, which
is a keyword in the dialects only, and about an `if` that no blank follows.
-/

namespace ThemeRender.Markup

open Template

/-- The template that is only the tag of the code is read as the directive. -/
def ReadsTag (code : List Char) (directive : Directive) : Prop :=
  ∃ inner offset span, segments (codeTag code) = .ok [.tag .code inner offset span] ∧
    readCode readDirective inner = .ok directive

/-- What a line of code does with the lines that are nested in it. -/
inductive CodeRole where
  /-- They are what is done if the condition holds. An `else` may follow. -/
  | opens
  /-- They are what is done if the condition of the `if` before the line does not hold. -/
  | goesOn
  | repeats
  /-- There must be none. -/
  | alone
deriving DecidableEq, Repr

def CodeRole.of : Directive → CodeRole
  | .ifBegin _ => .opens
  | .elseBegin => .goesOn
  | .forBegin _ _ => .repeats
  | .eval _ | .blockEnd => .alone

/-- The template of a line with the tag of a code, what is nested in it and what comes after it.
Every block is closed, an `if` only after its `else`. -/
def CodeRole.emit (role : CodeRole) (code : List Char) (item : Item) (depth : Nat)
    (openIf : Bool) (rest : List Item) : Except Complaint (List Char) :=
  let opening := lineAt depth (codeTag code)
  let closing := lineAt depth endTag
  match role with
  | .opens => do
      let body ← emitItems depth false item.nested
      let more ← emitItems depth (startsElse rest) rest
      return opening ++ body ++ (if startsElse rest then [] else closing) ++ more
  | .goesOn =>
      if openIf then do
        let body ← emitItems depth false item.nested
        let more ← emitItems depth false rest
        return opening ++ body ++ closing ++ more
      else .error (item.complain .elseWithoutIf)
  | .repeats => do
      let body ← emitItems depth false item.nested
      let more ← emitItems depth false rest
      return opening ++ body ++ closing ++ more
  | .alone =>
      if item.nested.isEmpty then do
        let more ← emitItems depth false rest
        return opening ++ more
      else .error (item.complain (.nestedIn "code without a block keyword"))

inductive Construct.Plays : Construct → CodeRole → List Char → Prop
  | ifBegin (condition : List Char) :
      Plays (.control (.ifBegin condition)) .opens ("if ".toList ++ condition)
  | elseBegin : Plays (.control .elseBegin) .goesOn "else".toList
  | forBegin (binding : List Char) :
      Plays (.control (.forBegin binding)) .repeats ("for ".toList ++ binding)
  | code (code : List Char) : Plays (.code code) .alone code

theorem Construct.Plays.emitItems {construct : Construct} {role : CodeRole} {code : List Char}
    (plays : construct.Plays role code) (line : Line) (nested : List Item) (depth : Nat)
    (openIf : Bool) (rest : List Item) :
    Markup.emitItems depth openIf (.ofLine line construct nested :: rest) =
      role.emit code (.ofLine line construct nested) depth openIf rest := by
  rw [emitItems_cons_eq]
  unfold CodeRole.emit Item.ofLine
  cases plays with
  | ifBegin condition =>
      rw [emitItem, if_neg (by simp [Item.isElse, Item.construct])]
      simp only [bind_assoc, pure_bind]
      apply bind_congr
      intro body
      change (Markup.emitItems depth (startsElse rest) rest >>= _) = _
      apply bind_congr
      intro more
      change pure (_ ++ (if !startsElse rest then _ else _) ++ more) = _
      cases startsElse rest <;> rfl
  | elseBegin =>
      cases openIf with
      | false => rfl
      | true =>
          rw [emitItem, if_neg (by simp [Item.isElse, Item.construct])]
          simp only [bind_assoc, pure_bind]
          apply bind_congr
          intro body
          apply bind_congr
          intro more
          simp [Item.isIf, Item.construct]
  | forBegin binding =>
      rw [emitItem, if_neg (by simp [Item.isElse, Item.construct])]
      simp only [bind_assoc, pure_bind]
      apply bind_congr
      intro body
      apply bind_congr
      intro more
      simp [Item.isIf, Item.construct]
  | code code =>
      rw [emitItem, if_neg (by simp [Item.isElse, Item.construct])]
      unfold Item.requireLeaf
      cases nested with
      | nil =>
          change (Markup.emitItems depth false rest >>= fun more =>
            pure (lineAt depth (codeTag code) ++ [] ++ more)) = _
          rw [List.append_nil]
          rfl
      | cons first others => rfl

/-! The first word of a code -/

variable {c code : List Char} {row : List Token}

theorem firstWord_eq (text : List Char) :
    firstWord text =
      (text.takeWhile (!Text.isBlank ·), Text.trim (text.dropWhile (!Text.isBlank ·))) := by
  unfold firstWord
  rw [Text.cutWhere?_eq]
  have parts := List.takeWhile_append_dropWhile (p := (!Text.isBlank ·)) (l := text)
  have stops := List.head?_dropWhile_not (!Text.isBlank ·) text
  cases rest : text.dropWhile (!Text.isBlank ·) with
  | nil =>
      rw [rest, List.append_nil] at parts
      rw [parts]
      rfl
  | cons blank after =>
      rw [rest] at stops
      rw [Text.trim_cons_of_blank (by simpa using stops)]

theorem firstWord_of_append {word after : List Char} (busy : ∀ d ∈ word, Text.isBlank d = false)
    (ends : ∀ d, after.head? = some d → Text.isBlank d = true) :
    firstWord (word ++ after) = (word, Text.trim after) := by
  have within : ∀ d ∈ word, (!Text.isBlank d) = true := by
    intro d member
    rw [busy d member]
    rfl
  have stops : ∀ d, after.head? = some d → (!Text.isBlank d) = false := by
    intro d head
    rw [ends d head]
    rfl
  rw [firstWord_eq, Text.takeWhile_exact within stops, Text.dropWhile_exact within stops]

theorem keyword_not_blank (word : Keyword) : ∀ d ∈ word.text.toList, Text.isBlank d = false := by
  cases word <;> exact List.all_iff_forall_prop.mp rfl

/-- No blank follows an `if` that starts the code. -/
def TouchesIf (code : List Char) : Prop :=
  ∃ mark ∈ ['(', '"', '\''], "if".toList ++ [mark] <+: Text.trim code

def StartsEach (code : List Char) : Prop :=
  ∃ blank rest, Text.isBlank blank = true ∧ Text.trim code = "each".toList ++ blank :: rest

theorem StartsEach.same_word {word : Keyword} {after : List Char} (each : StartsEach c)
    (trimmed : Text.trim c = word.text.toList ++ after) : False := by
  obtain ⟨blank, rest, -, same⟩ := each
  rw [same] at trimmed
  cases word <;> cases trimmed

/-! Tags -/

theorem segments_codeTag (lacks : Text.Lacks tagClose code) : ∃ offset span,
    segments (codeTag code) = .ok [.tag .code (' ' :: code ++ [' ']) offset span] := by
  have opens : Text.cut? tagOpen (codeTag code) = some ([], ' ' :: code ++ " %>".toList) := by
    simp [codeTag, Text.cut?, tagOpen, List.isPrefixOf]
  have isCode : TagKind.ofText (' ' :: code ++ " %>".toList) =
      (.code, ' ' :: code ++ " %>".toList) := rfl
  have padded : Text.Lacks tagClose (' ' :: code ++ [' ']) :=
    Text.Lacks.append (lacks.cons (by decide)) (by decide) (.inr (by decide))
  have closes : Text.cut? tagClose (TagKind.ofText (' ' :: code ++ " %>".toList)).2 =
      some (' ' :: code ++ [' '], []) := by
    have cut := Text.cut?_mark (by decide) padded []
    rw [isCode]
    simpa [tagClose] using cut
  have nothing (offset : Nat) : segmentsFrom offset true [] = .ok [] := by
    rw [segmentsFrom]
    rfl
  have line : wholeLine? .code true [] [] = some ([], []) := rfl
  rw [segments, segmentsFrom_cut opens closes, isCode, line]
  simp only [nothing]
  exact ⟨_, _, rfl⟩

theorem directs_of_readsTag {directive : Directive} (lacks : Text.Lacks tagClose code)
    (reads : ReadsTag code directive) : ∃ row, Spells code row ∧ Directs row directive.part := by
  obtain ⟨inner, offset, span, cut, reads⟩ := reads
  obtain ⟨offset', span', cutToo⟩ := segments_codeTag lacks
  rw [cut] at cutToo
  cases cutToo
  obtain ⟨tokens, rest, lexed, found⟩ := tokens_of_readCode reads
  have padded := (lexes_of_eq_ok lexed).spells
  have spells : Spells (code ++ [' ']) (plain tokens) := padded.of_blank (by decide)
  exact ⟨_, spells.of_append_blank (by decide), directs_of_readDirective found⟩

theorem readsTag_of_directs {part : Part} (lacks : Text.Lacks tagClose code)
    (spells : Spells code row) (directs : Directs row part) :
    ∃ directive, ReadsTag code directive ∧ directive.part = part := by
  obtain ⟨offset, span, cut⟩ := segments_codeTag lacks
  obtain ⟨tokens, lexes, rfl⟩ := spells.padded 0
  obtain ⟨directive, found, same⟩ := directs.readDirective
  exact ⟨directive, ⟨_, offset, span, cut, readCode_of_tokens lexes.eq_ok found⟩, same⟩

theorem directs_ne_nil {part : Part} (directs : Directs row part) : row ≠ [] := by
  cases directs with
  | eval derives => exact derives.ne_nil rfl
  | _ => exact List.cons_ne_nil _ _

/-! What a code is read as -/

theorem firstWord_of_keyword {word : Keyword} {after : List Char}
    (trimmed : Text.trim c = word.text.toList ++ after) (more : after ≠ [])
    (blank : ∀ d, after.head? = some d → Text.isBlank d = true) :
    firstWord (Text.trim c) = (word.text.toList, Text.trim after) ∧ Text.trim after ≠ [] := by
  have kept : Text.trimEnd (Text.trim c) = Text.trim c := Text.trimEnd_trimEnd _
  rw [trimmed] at kept ⊢
  exact ⟨firstWord_of_append (keyword_not_blank word) blank, Text.trim_ne_nil_of_kept kept more⟩

theorem blank_after_if {after : List Char} {e : Expr} (spaced : ¬TouchesIf c)
    (trimmed : Text.trim c = "if".toList ++ after)
    (ends : ∀ d, after.head? = some d → Template.isNameChar d = false) (spells : Spells after row)
    (derives : Derives (.expr .disjunction e) row) :
    ∀ d, after.head? = some d → Text.isBlank d = true := by
  intro d head
  cases blank : Text.isBlank d with
  | true => rfl
  | false =>
      exfalso
      obtain ⟨rest, rfl⟩ := List.head?_eq_some_iff.mp head
      obtain ⟨token, more, found, same, -⟩ := spells.first blank
      obtain ⟨_, _, sameToo, starts⟩ := spells.startsExpr derives
      cases same.symm.trans sameToo
      rcases lexeme_startsExpr found starts with letter | mark
      · rw [ends d rfl] at letter
        cases letter
      · apply spaced
        refine ⟨d, mark, ?_⟩
        rw [trimmed]
        exact (List.prefix_append_right_inj _).mpr (List.prefix_append [d] rest)

theorem blank_after_for {name : String} {after : List Char}
    (ends : ∀ d, after.head? = some d → Template.isNameChar d = false)
    (spells : Spells after (.ident name :: row)) :
    ∀ d, after.head? = some d → Text.isBlank d = true := by
  intro d head
  cases blank : Text.isBlank d with
  | true => rfl
  | false =>
      exfalso
      obtain ⟨rest, rfl⟩ := List.head?_eq_some_iff.mp head
      obtain ⟨token, more, found, same, -⟩ := spells.first blank
      cases same
      rcases lexeme_cases found with ⟨start, -⟩ | ⟨-, _, same⟩ | ⟨-, _, same⟩ | ⟨_, same, -⟩
      · have letter := isNameChar_of_isNameStart start
        rw [ends d rfl] at letter
        cases letter
      all_goals cases same

theorem firstWord_ne_keyword {word : Keyword} {e : Expr}
    (never : Expr.startsExpr (.keyword word) = false) (spells : Spells c row)
    (derives : Derives (.expr .disjunction e) row) :
    (firstWord (Text.trim c)).1 ≠ word.text.toList := by
  intro same
  rw [firstWord_eq] at same
  have text := List.takeWhile_append_dropWhile (p := (!Text.isBlank ·)) (l := Text.trim c)
  rw [show (Text.trim c).takeWhile (!Text.isBlank ·) = _ from same] at text
  have ends : ∀ d, ((Text.trim c).dropWhile (!Text.isBlank ·)).head? = some d →
      Template.isNameChar d = false := by
    intro d head
    have stops := List.head?_dropWhile_not (!Text.isBlank ·) (Text.trim c)
    rw [head] at stops
    exact not_nameChar_of_blank (by simpa using stops)
  have first := spells.trim.keyword_first text.symm ends
  obtain ⟨head, more, rfl, starts⟩ := spells.trim.startsExpr derives
  cases first
  rw [never] at starts
  cases starts

def Construct.Follows (construct : Construct) (directive : Directive) : Prop :=
  ∃ code again, construct.Plays (.of directive) code ∧ ReadsTag code again ∧
    again.part = directive.part

theorem lacks_after {word after : List Char} (lacks : Text.Lacks tagClose c)
    (trimmed : Text.trim c = word ++ after) : Text.Lacks tagClose (Text.trim after) := by
  have part : after <:+: c := by
    have suffix : after <:+ Text.trim c := ⟨word, trimmed.symm⟩
    exact suffix.isInfix.trans (Text.trim_isInfix c)
  exact lacks.of_infix ((Text.trim_isInfix after).trans part)

theorem follows_if {condition : Spanned Expr} (lacks : Text.Lacks tagClose c)
    (spaced : ¬TouchesIf c) (spells : Spells c (.keyword .ifKw :: row))
    (derives : Derives (.expr .disjunction condition.node) row) :
    (Construct.ofCode c).Follows (.ifBegin condition) := by
  obtain ⟨after, trimmed, spellsAfter, ends⟩ := spells.after_keyword
  have more : after ≠ [] := by
    obtain ⟨_, _, rfl, -⟩ := spellsAfter.startsExpr derives
    exact spellsAfter.ne_nil
  obtain ⟨words, held⟩ := firstWord_of_keyword trimmed more
    (blank_after_if spaced trimmed ends spellsAfter derives)
  have construct : Construct.ofCode c = .control (.ifBegin (Text.trim after)) := by
    unfold Construct.ofCode
    dsimp only
    rw [words, if_pos ⟨rfl, held⟩]
  have spellsTag : Spells ("if ".toList ++ Text.trim after) (.keyword .ifKw :: row) :=
    @Spells.word _ _ 'i' ['f'] (by decide) (List.all_eq_true.mp rfl) (by rintro _ ⟨⟩; rfl)
      spellsAfter.trim.blank
  have lacksTag : Text.Lacks tagClose ("if ".toList ++ Text.trim after) :=
    Text.Lacks.append (by decide) (lacks_after lacks trimmed) (.inl (by decide))
  obtain ⟨again, reads, same⟩ := readsTag_of_directs lacksTag spellsTag (.ifBegin derives)
  rw [construct]
  exact ⟨_, again, .ifBegin _, reads, same⟩

theorem follows_for {name : String} {items : Spanned Expr} (lacks : Text.Lacks tagClose c)
    (spells : Spells c (.keyword .forKw :: .ident name :: .keyword .inKw :: row))
    (derives : Derives (.expr .disjunction items.node) row) :
    (Construct.ofCode c).Follows (.forBegin name items) := by
  obtain ⟨after, trimmed, spellsAfter, ends⟩ := spells.after_keyword
  obtain ⟨words, held⟩ := firstWord_of_keyword trimmed spellsAfter.ne_nil
    (blank_after_for ends spellsAfter)
  have construct : Construct.ofCode c = .control (.forBegin (Text.trim after)) := by
    unfold Construct.ofCode
    dsimp only
    have noIf : Keyword.forKw.text.toList ≠ "if".toList := by decide
    have noElse : Keyword.forKw.text.toList ≠ "else".toList := by decide
    rw [words, if_neg fun both => noIf both.1, if_neg fun both => noElse both.1,
      if_pos ⟨.inl rfl, held⟩]
  have spellsTag : Spells ("for ".toList ++ Text.trim after)
      (.keyword .forKw :: .ident name :: .keyword .inKw :: row) :=
    @Spells.word _ _ 'f' ['o', 'r'] (by decide) (List.all_eq_true.mp rfl) (by rintro _ ⟨⟩; rfl)
      spellsAfter.trim.blank
  have lacksTag : Text.Lacks tagClose ("for ".toList ++ Text.trim after) :=
    Text.Lacks.append (by decide) (lacks_after lacks trimmed) (.inl (by decide))
  obtain ⟨again, reads, same⟩ := readsTag_of_directs lacksTag spellsTag (.forBegin name derives)
  rw [construct]
  exact ⟨_, again, .forBegin _, reads, same⟩

theorem follows_else (spells : Spells c [.keyword .elseKw]) :
    (Construct.ofCode c).Follows .elseBegin := by
  have construct : Construct.ofCode c = .control .elseBegin := by
    unfold Construct.ofCode
    rw [spells.trim_of_keyword]
    rfl
  have trimmed := spells.trim
  rw [spells.trim_of_keyword] at trimmed
  obtain ⟨again, reads, same⟩ := readsTag_of_directs (by decide) trimmed .elseBegin
  rw [construct]
  exact ⟨_, again, .elseBegin, reads, same⟩

theorem follows_end (spells : Spells c [.keyword .endKw]) :
    (Construct.ofCode c).Follows .blockEnd := by
  have construct : Construct.ofCode c = .code "end".toList := by
    unfold Construct.ofCode
    rw [spells.trim_of_keyword]
    rfl
  have trimmed := spells.trim
  rw [spells.trim_of_keyword] at trimmed
  obtain ⟨again, reads, same⟩ := readsTag_of_directs (by decide) trimmed .blockEnd
  rw [construct]
  exact ⟨_, again, .code _, reads, same⟩

theorem ofCode_expr {e : Expr} (spells : Spells c row)
    (derives : Derives (.expr .disjunction e) row) :
    (StartsEach c → ∃ binding, Construct.ofCode c = .control (.forBegin binding)) ∧
      (¬StartsEach c → Construct.ofCode c = .code (Text.trim c)) := by
  have noIf := @firstWord_ne_keyword _ _ .ifKw _ rfl spells derives
  have noElse := @firstWord_ne_keyword _ _ .elseKw _ rfl spells derives
  have noFor := @firstWord_ne_keyword _ _ .forKw _ rfl spells derives
  have kept : Text.trimEnd (Text.trim c) = Text.trim c := Text.trimEnd_trimEnd _
  unfold Construct.ofCode
  dsimp only
  rw [if_neg fun both => noIf both.1, if_neg fun both => noElse both.1]
  refine ⟨?_, ?_⟩
  · rintro ⟨blank, rest, isBlank, trimmed⟩
    have words := @firstWord_of_append "each".toList (blank :: rest)
      (List.all_iff_forall_prop.mp rfl) (by rintro _ ⟨⟩; exact isBlank)
    rw [trimmed] at kept ⊢
    have held := Text.trim_ne_nil_of_kept kept (List.cons_ne_nil _ _)
    rw [words]
    exact ⟨_, if_pos ⟨.inr rfl, held⟩⟩
  · intro noEach
    apply if_neg
    rintro ⟨isFor | isEach, held⟩
    · exact noFor isFor
    · apply noEach
      rw [firstWord_eq] at isEach held
      have text := List.takeWhile_append_dropWhile (p := (!Text.isBlank ·)) (l := Text.trim c)
      have stops := List.head?_dropWhile_not (!Text.isBlank ·) (Text.trim c)
      rw [show (Text.trim c).takeWhile (!Text.isBlank ·) = _ from isEach] at text
      cases after : (Text.trim c).dropWhile (!Text.isBlank ·) with
      | nil =>
          rw [after] at held
          exact absurd rfl held
      | cons blank rest =>
          rw [after] at text stops
          exact ⟨blank, rest, by simpa using stops, text.symm⟩

/-! The line of a code -/

theorem ofCode_follows {directive : Directive} (lacks : Text.Lacks tagClose c)
    (spaced : ¬TouchesIf c) (spells : Spells c row) (directs : Directs row directive.part) :
    (StartsEach c → (∃ code, directive = .eval code) ∧
        ∃ binding, Construct.ofCode c = .control (.forBegin binding)) ∧
      (¬StartsEach c → (Construct.ofCode c).Follows directive) := by
  cases directive with
  | ifBegin condition =>
      cases directs with
      | ifBegin derives =>
          obtain ⟨after, trimmed, -⟩ := spells.after_keyword
          exact ⟨fun each => (each.same_word trimmed).elim,
            fun _ => follows_if lacks spaced spells derives⟩
  | forBegin name items =>
      cases directs with
      | forBegin _ derives =>
          obtain ⟨after, trimmed, -⟩ := spells.after_keyword
          exact ⟨fun each => (each.same_word trimmed).elim,
            fun _ => follows_for lacks spells derives⟩
  | elseBegin =>
      cases directs
      obtain ⟨after, trimmed, -⟩ := spells.after_keyword
      exact ⟨fun each => (each.same_word trimmed).elim, fun _ => follows_else spells⟩
  | blockEnd =>
      cases directs
      obtain ⟨after, trimmed, -⟩ := spells.after_keyword
      exact ⟨fun each => (each.same_word trimmed).elim, fun _ => follows_end spells⟩
  | eval code =>
      cases directs with
      | eval derives =>
          obtain ⟨each, plain⟩ := ofCode_expr spells derives
          refine ⟨fun starts => ⟨⟨code, rfl⟩, each starts⟩, ?_⟩
          intro other
          obtain ⟨again, reads, same⟩ := readsTag_of_directs
            (lacks.of_infix (Text.trim_isInfix c)) spells.trim (.eval derives)
          rw [plain other]
          exact ⟨_, again, .code _, reads, same⟩

theorem reads_codeLine {line : Line} (stands : line.text = Text.trimEnd ('-' :: ' ' :: c))
    (busy : Text.trim c ≠ []) :
    Haml.ReadsAs line (.ok (Construct.ofCode c)) ∧
      Jade.ReadsAs line (.ok (Construct.ofCode c)) := by
  have text : line.text = '-' :: Text.trimEnd (' ' :: c) := by
    rw [stands, Text.trimEnd_cons_of_not_blank (by decide)]
  have trimmed : Text.trim (Text.trimEnd (' ' :: c)) = Text.trim c := by
    rw [Text.trim_trimEnd, Text.trim_cons_of_blank (by decide)]
  have noHash : (Text.trimEnd (' ' :: c)).head? ≠ some '#' := by
    rcases @Text.trimEnd_blank_cons ' ' (by decide) c with ⟨none, -⟩ | ⟨kept, -⟩
    · rw [none]
      rintro ⟨⟩
    · rw [kept]
      rintro ⟨⟩
  have notEmpty : (Text.trim c).isEmpty = false := by simpa using busy
  have haml := Haml.reads_code text noHash
  have jade := Jade.reads_code text
  rw [trimmed, notEmpty, ofCode_congr trimmed] at haml jade
  exact ⟨haml, jade⟩

/-- A line of code does in either dialect what the tag with the same code does in a template: it
holds lines as the tag opens a block, and the template of the line has a tag that says the same.
Only an expression that starts with the word `each` and a blank holds lines, as a loop does. -/
theorem codeLine_follows_tag {line : Line} {directive : Directive}
    (lacks : Text.Lacks tagClose c) (reads : ReadsTag c directive) (spaced : ¬TouchesIf c)
    (stands : line.text = Text.trimEnd ('-' :: ' ' :: c)) :
    ∃ (construct : Construct) (role : CodeRole) (code : List Char),
      Haml.ReadsAs line (.ok construct) ∧ Jade.ReadsAs line (.ok construct) ∧
      (∀ nested depth openIf rest,
        emitItems depth openIf (.ofLine line construct nested :: rest) =
          role.emit code (.ofLine line construct nested) depth openIf rest) ∧
      (StartsEach c → role = .repeats ∧ ∃ value, directive = .eval value) ∧
      (¬StartsEach c → role = .of directive ∧
        ∃ again, ReadsTag code again ∧ again.part = directive.part) := by
  obtain ⟨row, spells, directs⟩ := directs_of_readsTag lacks reads
  have busy : Text.trim c ≠ [] := by
    obtain ⟨token, more, rfl⟩ := List.exists_cons_of_ne_nil (directs_ne_nil directs)
    exact spells.trim.ne_nil
  obtain ⟨haml, jade⟩ := reads_codeLine stands busy
  obtain ⟨each, other⟩ := ofCode_follows lacks spaced spells directs
  by_cases starts : StartsEach c
  · obtain ⟨value, binding, construct⟩ := each starts
    have plays : (Construct.ofCode c).Plays .repeats ("for ".toList ++ binding) := by
      rw [construct]
      exact .forBegin binding
    exact ⟨_, _, _, haml, jade, plays.emitItems line, fun _ => ⟨rfl, value⟩,
      fun noEach => absurd starts noEach⟩
  · obtain ⟨code, again, plays, readsAgain, same⟩ := other starts
    exact ⟨_, _, _, haml, jade, plays.emitItems line, fun each => absurd each starts,
      fun _ => ⟨rfl, again, readsAgain, same⟩⟩

theorem readsTag_of_role {role : CodeRole} (lacks : Text.Lacks tagClose code)
    (reads : (readCode readDirective (' ' :: code ++ [' '])).toOption.map CodeRole.of = some role) :
    ∃ directive, ReadsTag code directive ∧ CodeRole.of directive = role := by
  obtain ⟨offset, span, cut⟩ := segments_codeTag lacks
  obtain ⟨directive, found, same⟩ := Option.map_eq_some_iff.mp reads
  cases read : readCode readDirective (' ' :: code ++ [' ']) with
  | error error =>
      rw [read] at found
      cases found
  | ok other =>
      rw [read] at found
      cases found
      exact ⟨directive, ⟨_, offset, span, cut, read⟩, same⟩

def ifPosts : Line :=
  ⟨1, 0, "- if posts".toList, ⟨0, 10⟩⟩

/-- A condition holds the lines under it. -/
theorem ifPosts_opens : ∃ (construct : Construct) (code : List Char),
    Haml.ReadsAs ifPosts (.ok construct) ∧ Jade.ReadsAs ifPosts (.ok construct) ∧
      ∀ nested depth openIf rest,
        emitItems depth openIf (.ofLine ifPosts construct nested :: rest) =
          CodeRole.opens.emit code (.ofLine ifPosts construct nested) depth openIf rest := by
  have lacks : Text.Lacks tagClose "if posts".toList := by decide +kernel
  have trimmed : Text.trim "if posts".toList = "if posts".toList := by decide +kernel
  have spaced : ¬TouchesIf "if posts".toList := by
    rintro ⟨mark, member, starts⟩
    rw [trimmed] at starts
    have blank : mark = ' ' := (List.cons_prefix_cons.mp
      ((List.prefix_append_right_inj "if".toList).mp starts)).1
    rw [blank] at member
    exact absurd member (by decide)
  have noEach : ¬StartsEach "if posts".toList := by
    rintro ⟨blank, rest, -, same⟩
    rw [trimmed] at same
    cases same
  obtain ⟨directive, reads, role⟩ := @readsTag_of_role _ .opens lacks (by decide +kernel)
  obtain ⟨construct, _, code, haml, jade, emits, -, other⟩ :=
    @codeLine_follows_tag _ ifPosts _ lacks reads spaced (by decide +kernel)
  obtain ⟨rfl, -⟩ := other noEach
  rw [role] at emits
  exact ⟨construct, code, haml, jade, emits⟩

/-- A lone `end` is taken for code. So is an `if` that no blank follows, and it holds no lines. An
expression that starts with `each` is taken for a loop. -/
theorem end_and_if_and_each_differ :
    (∃ directive, ReadsTag "end".toList directive ∧ CodeRole.of directive = .alone) ∧
      (compileHaml "- end" (.ofString "views/a.haml")).toOption = some "<% end %>\n" ∧
      (compileJade "- end" (.ofString "views/a.jade")).toOption = some "<% end %>\n" ∧
      (∃ directive, ReadsTag "if(a)".toList directive ∧ CodeRole.of directive = .opens) ∧
      (compileHaml "- if(a)\n  %p" (.ofString "views/a.haml")).toOption = none ∧
      (∃ directive, ReadsTag "each (a)".toList directive ∧ CodeRole.of directive = .alone) ∧
      (compileHaml "- each (a)\n  %p" (.ofString "views/a.haml")).toOption =
        some "<% for (a) %>\n<p></p>\n<% end %>\n" := by
  refine ⟨readsTag_of_role (by decide +kernel) (by decide +kernel), by decide +kernel,
    by decide +kernel, readsTag_of_role (by decide +kernel) (by decide +kernel), by decide +kernel,
    readsTag_of_role (by decide +kernel) (by decide +kernel), by decide +kernel⟩

end ThemeRender.Markup
