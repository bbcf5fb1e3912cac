import ThemeRender.Markup.Compiler
import ThemeRender.Proofs.Markup.Alike
import ThemeRender.Proofs.Markup.SharedElements
import ThemeRender.Proofs.Markup.SharedLines

namespace ThemeRender.Markup

open Outcome (Together except_bind_eq_ok)

/-- What a line is read as decides what a line with others nested in it is read as. -/
def Haml.ReadsAs (line : Line) (result : Except Complaint Construct) : Prop :=
  ∀ nested, Haml.readTree (.mk line nested) = (do
    let construct ← result
    let items ← Haml.readForest nested
    return [.ofLine line construct items])

def Jade.ReadsAs (line : Line) (result : Except Complaint Construct) : Prop :=
  ∀ nested, Jade.readTree (.mk line nested) = (do
    let construct ← result
    let items ← Jade.readForest nested
    return [.ofLine line construct items])

/-! Haml -/

namespace Haml

variable {line : Line} {result : Except Complaint Construct} {rest : List Char}

theorem reads_construct {text : List Char} (same : line.text = text)
    (notSilent : isSilent text = false) (notFilter : isFilter text = false)
    (reads : ∀ raw, readConstruct line raw = result) : ReadsAs line result := by
  intro nested
  rw [readTree, same, notSilent, if_neg (by decide), reads, notFilter]
  rfl

theorem reads_text (text : line.text = '\\' :: rest) :
    ReadsAs line ((line.check (interpolate rest)).map .text) := by
  apply reads_construct text rfl rfl
  intro raw
  unfold readConstruct
  rw [text]
  rfl

theorem reads_output (text : line.text = '=' :: rest) :
    ReadsAs line (if (Text.trim rest).isEmpty then .error (line.complain (.missingScript '='))
      else .ok (.output (Text.trim rest))) := by
  apply reads_construct text rfl rfl
  intro raw
  unfold readConstruct
  rw [text]
  rfl

theorem reads_comment (text : line.text = '/' :: rest) :
    ReadsAs line (.ok (.comment (Text.trim rest))) := by
  apply reads_construct text rfl rfl
  intro raw
  unfold readConstruct
  rw [text]
  rfl

theorem reads_code (text : line.text = '-' :: rest) (noHash : rest.head? ≠ some '#') :
    ReadsAs line (if (Text.trim rest).isEmpty then .error (line.complain (.missingScript '-'))
      else .ok (Construct.ofCode rest)) := by
  have notSilent : isSilent ('-' :: rest) = false := by
    cases rest with
    | nil => rfl
    | cons c rest =>
        have other : c ≠ '#' := fun same => noHash (congrArg some same)
        simp [isSilent, List.isPrefixOf, Ne.symm other]
  apply reads_construct text notSilent rfl
  intro raw
  unfold readConstruct
  rw [text]
  rfl

theorem head_element (element : ElementLine) :
    ∀ c, (Text.trimEnd element.haml).head? = some c → c ∈ ['%', '.', '#'] := by
  rw [element.trimEnd_haml]
  cases element.name with
  | tag name shorthands =>
      rintro _ ⟨⟩
      decide
  | bare first more => cases first <;> rintro _ ⟨⟩ <;> decide

theorem reads_element {element : ElementLine} (text : line.text = Text.trimEnd element.haml) :
    ReadsAs line ((readElement line).map .element) := by
  have starts := startsElement_element element
  have heads := head_element element
  rw [← text] at starts heads
  apply reads_construct rfl
  · rw [isSilent, Bool.eq_false_iff]
    intro silent
    obtain ⟨rest, same⟩ := List.isPrefixOf_iff_prefix.mp silent
    exact absurd (heads '-' (by rw [← same]; rfl)) (by decide)
  · rw [isFilter, Bool.eq_false_iff]
    intro filter
    exact absurd (heads ':' (beq_iff_eq.mp filter)) (by decide)
  · intro raw
    unfold readConstruct
    split
    case h_7 => rw [if_pos starts]
    all_goals
      rename_i same
      exact absurd (heads _ (by rw [same]; rfl)) (by decide)

end Haml

/-! Jade -/

namespace Jade

variable {line : Line} {result : Except Complaint Construct} {rest : List Char}

theorem reads_simple (noComment : ∀ rest, line.text ≠ '/' :: '/' :: rest)
    (simple : readSimple line = result.map some) : ReadsAs line result := by
  intro nested
  rw [readTree.eq_def]
  dsimp only
  split
  · rename_i same
    exact absurd same (noComment _)
  · rename_i same
    exact absurd same (noComment _)
  · rw [simple]
    cases result <;> rfl

theorem map_some_map {α : Type} (result : Except Complaint α) (f : α → Construct) :
    result.map (fun a => some (f a)) = (result.map f).map some := by
  cases result <;> rfl

theorem reads_text (text : line.text = '|' :: Text.trimEnd (' ' :: rest)) :
    ReadsAs line ((line.check (interpolate (Text.trimEnd rest))).map .text) := by
  apply reads_simple
  · rw [text]
    rintro rest ⟨⟩
  · rw [← map_some_map]
    unfold readSimple
    rcases Text.trimEnd_blank_cons (c := ' ') (by decide) rest with ⟨none, noneToo⟩ | ⟨kept, -⟩
    · rw [text, none, noneToo]
      rfl
    · rw [text, kept]
      rfl

theorem reads_output (text : line.text = '=' :: rest) :
    ReadsAs line ((readCodeAfter line rest).map .output) := by
  apply reads_simple
  · rw [text]
    rintro rest ⟨⟩
  · rw [← map_some_map]
    unfold readSimple
    rw [text]
    rfl

theorem reads_code (text : line.text = '-' :: rest) :
    ReadsAs line (if (Text.trim rest).isEmpty then .error (line.complain .missingCode)
      else .ok (Construct.ofCode rest)) := by
  apply reads_simple
  · rw [text]
    rintro rest ⟨⟩
  · have same : readSimple line = if (Text.trim rest).isEmpty then
        .error (line.complain .missingCode) else .ok (some (Construct.ofCode rest)) := by
      unfold readSimple
      rw [text]
      rfl
    rw [same]
    split <;> rfl

theorem reads_keyword (unmarked : ∀ c, line.text.head? = some c → c ∉ marks)
    (keyword : readKeyword line = result.map some) : ReadsAs line result := by
  apply reads_simple
  · intro rest same
    exact absurd (unmarked '/' (by rw [same]; rfl)) (by decide)
  · rw [readSimple_unmarked unmarked, keyword]

theorem reads_element {element : ElementLine} (text : line.text = Text.trimEnd element.jade) :
    ReadsAs line ((readHead line >>= readElement line).map .element) := by
  intro nested
  have unmarked := unmarked_element element
  have starts := startsElement_element element
  rw [← text] at unmarked starts
  rw [readTree.eq_def]
  dsimp only
  split
  · rename_i same
    exact absurd (unmarked '/' (by rw [same]; rfl)) (by decide)
  · rename_i same
    exact absurd (unmarked '/' (by rw [same]; rfl)) (by decide)
  · rw [readSimple_element text]
    change (if startsElement line.text then _ else _) = _
    rw [if_pos starts]
    cases reads : readHead line with
    | error complaint => rfl
    | ok head =>
        change (if head.rest = ['.'] then _ else _) = _
        rw [if_neg (rest_of_readHead text reads)]
        change (readElement line head >>= _) = ((readElement line head).map _ >>= _)
        cases readElement line head <;> rfl

end Jade

/-! Blocks -/

section

variable {line : Line} {word : BlockWord} {condition : List Char}

theorem BlockWord.not_blank (word : BlockWord) : ∀ c ∈ word.text, Text.isBlank c = false := by
  cases word <;> exact List.all_iff_forall_prop.mp rfl

def BlockWord.begin (word : BlockWord) (condition : List Char) : List Char :=
  Text.trimEnd (word.text ++ ' ' :: condition)

theorem BlockWord.begin_eq (word : BlockWord) (condition : List Char) :
    word.begin condition = word.text ++ Text.trimEnd (' ' :: condition) :=
  Text.trimEnd_append_of_kept (Text.trimEnd_of_not_blank word.not_blank) _

theorem BlockWord.begin_ne_nil (word : BlockWord) (condition : List Char) :
    word.begin condition ≠ [] := by
  rw [word.begin_eq]
  cases word <;> exact List.cons_ne_nil _ _

theorem BlockWord.trim_begin (word : BlockWord) (condition : List Char) :
    Text.trim (word.begin condition) = word.begin condition := by
  rw [begin, Text.trim_trimEnd, Text.trim]
  cases word <;> rfl

theorem firstWord_begin (word : BlockWord) (condition : List Char) :
    firstWord (word.begin condition) = (word.text, Text.trim condition) := by
  have busy : ∀ c ∈ word.text, (!Text.isBlank c) = true := by
    intro c member
    rw [word.not_blank c member]
    rfl
  rw [word.begin_eq, ← Text.trim_trimEnd condition]
  unfold firstWord
  rw [Text.cutWhere?_eq]
  rcases Text.trimEnd_blank_cons (c := ' ') (by decide) condition with
    ⟨none, noneToo⟩ | ⟨kept, -⟩
  · rw [none, noneToo, Text.dropWhile_exact busy (by simp), List.append_nil]
    rfl
  · have ends : ∀ c, (' ' :: Text.trimEnd condition).head? = some c →
        (!Text.isBlank c) = false := by
      rintro _ ⟨⟩
      decide
    rw [kept, Text.dropWhile_exact busy ends, Text.takeWhile_exact busy ends]

theorem ofCode_bare (word : BlockWord) (blank : Text.trim condition = []) :
    ∃ code, Construct.ofCode (word.begin condition) = .code code := by
  unfold Construct.ofCode
  rw [word.trim_begin]
  dsimp only
  rw [firstWord_begin, blank]
  cases word <;> exact ⟨_, rfl⟩

theorem ofCode_congr {code codeToo : List Char} (same : Text.trim code = Text.trim codeToo) :
    Construct.ofCode code = Construct.ofCode codeToo := by
  unfold Construct.ofCode
  rw [same]

theorem Haml.reads_block
    (text : line.text = Text.trimEnd ('-' :: ' ' :: (word.text ++ ' ' :: condition))) :
    ReadsAs line (.ok (Construct.ofCode (word.begin condition))) := by
  have some := word.begin_ne_nil condition
  have start : line.text = '-' :: ' ' :: word.begin condition :=
    text.trans (Text.trimEnd_append_of_busy some ['-', ' '])
  have reads := Haml.reads_code start (by simp)
  have trimmed : Text.trim (' ' :: word.begin condition) = Text.trim (word.begin condition) :=
    Text.trim_cons_of_blank (by decide) _
  rw [ofCode_congr trimmed, trimmed, word.trim_begin, if_neg (by simpa using some)] at reads
  exact reads

theorem Jade.reads_block (text : line.text = word.begin condition) :
    ReadsAs line
      (if (Text.trim condition).isEmpty then .error (line.complain (.bareKeyword word.text))
        else .ok (Construct.ofCode (word.begin condition))) := by
  apply Jade.reads_keyword
  · rw [text, word.begin_eq]
    cases word <;> rintro _ ⟨⟩ <;> decide
  · have noDoctype : word.text ≠ "doctype".toList := by cases word <;> decide
    have noElse : word.text ≠ "else".toList := by cases word <;> decide
    have keyword : word.text = "if".toList ∨ word.text = "each".toList ∨
        word.text = "for".toList := by
      cases word <;> decide
    unfold Jade.readKeyword
    rw [text, firstWord_begin]
    dsimp only
    rw [if_neg noDoctype, if_neg fun both => noElse both.1, if_pos keyword]
    split <;> rfl

end

/-- What both dialects read a line as: the same; or what may hold nothing in one of them, where the
other refuses the line. -/
inductive Shown.Agrees (line : Shown) :
    Except Complaint Construct → Except Complaint Construct → Prop
  | same {result resultToo : Except Complaint Construct}
      (together : Together (fun construct other => construct = other ∧ construct.nests = true)
        result resultToo) : line.Agrees result resultToo
  | bare (lacks : line.lacksCondition = true) (code : List Char) (complaint : Complaint) :
      line.Agrees (.ok (.code code)) (.error complaint)

theorem Shown.Agrees.map {line : Shown} {α : Type} {result resultToo : Except Complaint α}
    (together : Together (· = ·) result resultToo) (f : α → Construct)
    (nests : ∀ a, (f a).nests = true) : line.Agrees (result.map f) (resultToo.map f) := by
  cases together with
  | ok same =>
      cases same
      exact .same (.ok ⟨rfl, nests _⟩)
  | error complaint complaintToo => exact .same (.error _ _)

theorem check_map_agrees {shown : Shown} (line lineToo : Line) (text : List Char) :
    shown.Agrees ((line.check (interpolate text)).map .text)
      ((lineToo.check (interpolate text)).map .text) := by
  cases interpolate text with
  | error fault => exact .same (.error _ _)
  | ok pieces => exact .same (.ok ⟨rfl, rfl⟩)

theorem Shown.reads {shown : Shown} {line lineToo : Line}
    (haml : line.text = Text.trimEnd shown.haml) (jade : lineToo.text = Text.trimEnd shown.jade) :
    ∃ result resultToo, Haml.ReadsAs line result ∧ Jade.ReadsAs lineToo resultToo ∧
      shown.Agrees result resultToo := by
  cases shown with
  | element element =>
      exact ⟨_, _, Haml.reads_element haml, Jade.reads_element jade,
        Shown.Agrees.map (readElement_together haml jade) _ fun _ => rfl⟩
  | text contents =>
      have hamlText := haml.trans (Text.trimEnd_cons_of_not_blank (by decide) contents.text)
      have jadeText := jade.trans
        (Text.trimEnd_cons_of_not_blank (by decide) (' ' :: contents.text))
      exact ⟨_, _, Haml.reads_text hamlText, Jade.reads_text jadeText,
        check_map_agrees _ _ _⟩
  | output code =>
      have same := Text.trimEnd_cons_of_not_blank (c := '=') (by decide) (' ' :: code.text)
      refine ⟨_, _, Haml.reads_output (haml.trans same), Jade.reads_output (jade.trans same), ?_⟩
      unfold Jade.readCodeAfter
      dsimp only
      split
      · exact .same (.error _ _)
      · exact .same (.ok ⟨rfl, rfl⟩)
  | code code =>
      have same := Text.trimEnd_cons_of_not_blank (c := '-') (by decide) (' ' :: code.text)
      have noHash : (Text.trimEnd (' ' :: code.text)).head? ≠ some '#' := by
        rcases Text.trimEnd_blank_cons (c := ' ') (by decide) code.text with
          ⟨none, -⟩ | ⟨kept, -⟩
        · rw [none]
          decide
        · rw [kept]
          simp
      refine ⟨_, _, Haml.reads_code (haml.trans same) noHash, Jade.reads_code (jade.trans same), ?_⟩
      split
      · exact .same (.error _ _)
      · exact .same (.ok ⟨rfl, Construct.nests_ofCode _⟩)
  | block word condition =>
      refine ⟨_, _, Haml.reads_block haml, Jade.reads_block jade, ?_⟩
      split
      · rename_i blank
        obtain ⟨code, bare⟩ := ofCode_bare word (List.isEmpty_iff.mp blank)
        rw [bare]
        have lacks : (Shown.block word condition).lacksCondition = true := blank
        exact .bare lacks _ _
      · exact .same (.ok ⟨rfl, Construct.nests_ofCode _⟩)
  | elseBegin =>
      have hamlText : line.text = '-' :: " else".toList := haml
      have jadeText : lineToo.text = "else".toList := jade
      have keyword : Jade.readKeyword lineToo = .ok (some (.control .elseBegin)) := by
        unfold Jade.readKeyword
        rw [jadeText]
        rfl
      have unmarked : ∀ c, lineToo.text.head? = some c → c ∉ Jade.marks := by
        rw [jadeText]
        rintro _ ⟨⟩
        decide
      have readsHaml : Haml.ReadsAs line (.ok (.control .elseBegin)) :=
        Haml.reads_code hamlText (by decide)
      have readsJade : Jade.ReadsAs lineToo (.ok (.control .elseBegin)) :=
        Jade.reads_keyword unmarked keyword
      exact ⟨_, _, readsHaml, readsJade, .same (.ok ⟨rfl, rfl⟩)⟩

/-! Trees -/

section

variable {line : Line} {text : List Char}

theorem Jade.readTree_comment (starts : line.text = '/' :: '/' :: Text.trimEnd (' ' :: text)) :
    Jade.readTree (.mk line []) =
      .ok [.ofLine line (.comment (Text.trim (Text.trimEnd (' ' :: text)))) []] := by
  rw [Jade.readTree.eq_def]
  rcases Text.trimEnd_blank_cons (c := ' ') (by decide) text with ⟨same, -⟩ | ⟨same, -⟩
  all_goals
    rw [same] at starts ⊢
    dsimp only
    rw [starts]
    rfl

end

section

variable {text : LineEnd} {hidden : List Hidden} {line : Line}

theorem Tree.haml_comment (starts : line.text = Text.trimEnd (Tree.comment text).haml) :
    line.text = '/' :: Text.trimEnd (' ' :: text.text) :=
  starts.trans (Text.trimEnd_cons_of_not_blank (by decide) _)

theorem Tree.jade_comment (starts : line.text = Text.trimEnd (Tree.comment text).jade) :
    line.text = '/' :: '/' :: Text.trimEnd (' ' :: text.text) :=
  starts.trans (Text.trimEnd_append_of_kept (s := ['/', '/']) (by decide) _)

theorem Tree.haml_silent (starts : line.text = Text.trimEnd (Tree.silent text hidden).haml) :
    line.text = '-' :: '#' :: Text.trimEnd text.text :=
  starts.trans (Text.trimEnd_append_of_kept (s := ['-', '#']) (by decide) _)

theorem Tree.jade_silent (starts : line.text = Text.trimEnd (Tree.silent text hidden).jade) :
    line.text = '/' :: '/' :: '-' :: Text.trimEnd text.text :=
  starts.trans (Text.trimEnd_append_of_kept (s := ['/', '/', '-']) (by decide) _)

end

theorem Haml.items_of_readForest {trees : List Tree} {forest forestToo : List LineTree}
    {items : List Item} (twins : Twins trees forest forestToo)
    (speaks : trees.any (!·.isSilent) = true) (reads : Haml.readForest forest = .ok items) :
    items ≠ [] := by
  induction twins generalizing items with
  | nil => cases speaks
  | shown step haml jade inside after _ _ =>
      obtain ⟨result, _, readsAs, -, -⟩ := Shown.reads haml jade
      rw [Haml.readForest, readsAs] at reads
      obtain ⟨first, readsFirst, reads⟩ := except_bind_eq_ok.mp reads
      obtain ⟨more, -, same⟩ := except_bind_eq_ok.mp reads
      obtain ⟨construct, -, readsFirst⟩ := except_bind_eq_ok.mp readsFirst
      obtain ⟨nested, -, sameFirst⟩ := except_bind_eq_ok.mp readsFirst
      cases same
      cases sameFirst
      exact List.cons_ne_nil _ _
  | comment haml jade after _ =>
      rw [Haml.readForest, Haml.reads_comment (Tree.haml_comment haml)] at reads
      obtain ⟨first, readsFirst, reads⟩ := except_bind_eq_ok.mp reads
      obtain ⟨more, -, same⟩ := except_bind_eq_ok.mp reads
      cases same
      cases readsFirst
      exact List.cons_ne_nil _ _
  | silent hidden inner innerToo haml jade after ih =>
      rw [Haml.readForest, Haml.readTree_silent (Tree.haml_silent haml)] at reads
      obtain ⟨first, readsFirst, reads⟩ := except_bind_eq_ok.mp reads
      obtain ⟨more, readsMore, same⟩ := except_bind_eq_ok.mp reads
      cases same
      cases readsFirst
      exact ih speaks readsMore

theorem readForest_agrees {trees : List Tree} {forest forestToo : List LineTree}
    (twins : Twins trees forest forestToo) (complete : Tree.allComplete trees = true) :
    Agrees (Haml.readForest forest) (Jade.readForest forestToo) := by
  induction twins with
  | nil => exact .alike .nil
  | shown step haml jade inside after agreesInside agreesAfter =>
      rw [Tree.allComplete, Tree.complete, Bool.and_eq_true, Bool.and_eq_true] at complete
      obtain ⟨⟨condition, completeInside⟩, completeAfter⟩ := complete
      obtain ⟨result, resultToo, readsHaml, readsJade, agrees⟩ := Shown.reads haml jade
      rw [Haml.readForest, Jade.readForest]
      apply Agrees.append _ (agreesAfter completeAfter)
      rw [readsHaml, readsJade]
      have agreesNested := agreesInside completeInside
      cases agrees with
      | same together =>
          cases together with
          | error complaint complaintToo => exact .error _ _
          | ok related =>
              obtain ⟨rfl, nests⟩ := related
              exact agreesNested.wrap nests _ _
      | bare lacks code complaint =>
          -- the second reader stops here; the first goes on to code that holds items
          rw [lacks, Bool.not_true, Bool.false_or] at condition
          cases reads : Haml.readForest _ with
          | error complaint => exact .error _ _
          | ok items =>
              have holds := Haml.items_of_readForest inside condition reads
              exact .later (refused_code holds) _
  | comment haml jade after ih =>
      rw [Haml.readForest, Jade.readForest, Haml.reads_comment (Tree.haml_comment haml),
        Jade.readTree_comment (Tree.jade_comment jade)]
      exact Agrees.append (.alike (.cons _ _ _ _ _ .nil .nil)) (ih complete)
  | silent hidden inner innerToo haml jade after ih =>
      rw [Haml.readForest, Jade.readForest, Haml.readTree_silent (Tree.haml_silent haml),
        Jade.readTree_silent (Tree.jade_silent jade)]
      exact Agrees.append (.alike .nil) (ih complete)

theorem toOption_compileWith (dialect : Dialect)
    (read : List LineTree → Except Complaint (List Item)) (source : String) (path : Path) :
    (compileWith dialect read source path).toOption =
      (LineTree.ofSource source.toList >>= fun trees => read trees >>= emit).toOption.map
        String.ofList := by
  unfold compileWith
  dsimp only
  split
  · rename_i compiled
    exact (congrArg (fun result => result.toOption.map String.ofList) compiled).symm
  · rename_i compiled
    exact (congrArg (fun result => result.toOption.map String.ofList) compiled).symm

/-- A page that is complete has the same template in both dialects, or in neither. -/
theorem shared_pages_compile_alike (page : SharedPage) (path pathToo : Path)
    (complete : Tree.allComplete page.trees = true) :
    (compileHaml page.haml path).toOption = (compileJade page.jade pathToo).toOption := by
  have together : SameText
      (LineTree.ofSource page.haml.toList >>= fun trees => Haml.readForest trees >>= emit)
      (LineTree.ofSource page.jade.toList >>= fun trees => Jade.readForest trees >>= emit) := by
    apply page.ofSource_together.bind
    intro forest forestToo twins
    exact (readForest_agrees twins complete).emit
  rw [compileHaml, compileJade, toOption_compileWith, toOption_compileWith, together.toOption_eq]

def noBlanks : Blanks :=
  ⟨[], List.forall_mem_nil _, by decide⟩

def twoBlanks : Step :=
  ⟨⟨"  ".toList, List.all_eq_true.mp rfl, by decide⟩, by decide⟩

def greeting : SharedPage where
  indent := noBlanks
  trees := [
    .shown (.block .ifWord ⟨"user".toList, by decide⟩) twoBlanks [
      .shown (.element {
        name := .tag ⟨'h', ['1'], by decide, List.all_eq_true.mp rfl, by decide⟩
          [.ofClass ⟨'b', "ig".toList, List.all_eq_true.mp rfl⟩]
        attrs? := some (.ofRead "title=\"Hi\"".toList (by decide) (by decide +kernel))
        selfClosing := false
        content := .text ⟨"Hello".toList, by decide⟩ (by decide) (by decide)
      }) twoBlanks [],
      .silent ⟨" shown once".toList, by decide⟩ []],
    .shown .elseBegin twoBlanks [.shown (.text ⟨"Who is there?".toList, by decide⟩) twoBlanks []]]

theorem greeting_compiles_alike :
    greeting.haml = "- if user\n  %h1.big(title=\"Hi\") Hello\n  -# shown once\n- else\n" ++
        "  \\Who is there?\n" ∧
      greeting.jade = "if user\n  h1.big(title=\"Hi\") Hello\n  //- shown once\nelse\n" ++
        "  | Who is there?\n" ∧
      Tree.allComplete greeting.trees = true ∧
      (compileHaml greeting.haml (.ofString "views/greeting.haml")).toOption =
        (compileJade greeting.jade (.ofString "views/greeting.jade")).toOption ∧
      (compileJade greeting.jade (.ofString "views/greeting.jade")).toOption =
        some ("<% if user %>\n<h1 class=\"big\" title=\"Hi\">Hello</h1>\n<% else %>\n" ++
          "Who is there?\n<% end %>\n") :=
  ⟨by decide +kernel, by decide +kernel, by decide,
    shared_pages_compile_alike greeting _ _ (by decide), by decide +kernel⟩

def bareIf : SharedPage where
  indent := noBlanks
  trees := [.shown (.block .ifWord ⟨[], by decide⟩) twoBlanks []]

/-- A bare keyword is code in Haml, where Jade refuses it. -/
theorem bareIf_compiles_in_haml_only :
    (compileHaml bareIf.haml (.ofString "views/a.haml")).toOption ≠
      (compileJade bareIf.jade (.ofString "views/a.jade")).toOption := by
  decide +kernel

end ThemeRender.Markup
