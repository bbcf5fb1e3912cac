import ThemeRender.Proofs.Markup.CodeLines
import ThemeRender.Proofs.Markup.Correctness
import ThemeRender.Proofs.Markup.ElementLines
import ThemeRender.Proofs.Markup.SpelledElements

namespace ThemeRender.Markup

open Outcome (except_bind_eq_ok of_map_ok)

/-! ## Places where lines are read -/

section

variable {rules : LineRules} {alone : Line → Except Complaint Construct}
  {read : LineTree → Except Complaint (List Item)}
  {readAll : List LineTree → Except Complaint (List Item)}

namespace LineTree

mutual

theorem places_reading {tree : LineTree} : ∀ top : LineTree,
    ⟨.markup, tree⟩ ∈ places rules .markup top → ⟨.markup, tree⟩ ∈ places rules.reading .markup top
  | mk line nested, member => by
      rw [places] at member ⊢
      rcases List.mem_cons.mp member with root | inner
      · exact List.mem_cons.mpr (.inl root)
      · change _ ∈ forestPlaces rules (rules.within line) nested at inner
        have markup := markup_of_forestPlaces inner
        have notDropped : rules.within line ≠ .dropped := by
          rw [markup]
          exact Context.noConfusion
        have within : rules.reading.within line = .markup := (if_neg notDropped).trans markup
        rw [markup] at inner
        refine List.mem_cons_of_mem _ ?_
        change _ ∈ forestPlaces rules.reading (rules.reading.within line) nested
        rw [within]
        exact forestPlaces_reading nested inner

theorem forestPlaces_reading {tree : LineTree} : ∀ trees : List LineTree,
    ⟨.markup, tree⟩ ∈ forestPlaces rules .markup trees →
    ⟨.markup, tree⟩ ∈ forestPlaces rules.reading .markup trees
  | [], member => by cases member
  | first :: rest, member => by
      rw [forestPlaces] at member ⊢
      rcases List.mem_append.mp member with before | later
      · exact List.mem_append_left _ (places_reading first before)
      · exact List.mem_append_right _ (forestPlaces_reading rest later)

end

end LineTree

theorem LineTree.mem_reading {source : List Char} {tree : LineTree}
    (placed : ⟨.markup, tree⟩ ∈ sourcePlaces rules source) :
    ⟨.markup, tree⟩ ∈ sourcePlaces rules.reading source := by
  unfold sourcePlaces at placed ⊢
  split
  · rename_i built
    rw [built] at placed
    exact forestPlaces_reading _ placed
  · rename_i failed
    rw [failed] at placed
    cases placed

namespace LineReader

variable {line : Line} {nested : List LineTree}

mutual

theorem reads_tree (reader : LineReader rules.within alone read readAll) :
    ∀ (tree : LineTree) {items : List Item}, read tree = .ok items →
      ⟨.markup, .mk line nested⟩ ∈ LineTree.places rules.reading .markup tree →
      ∃ own, read (.mk line nested) = .ok own
  | .mk top below, items, reads, member => by
      rw [LineTree.places] at member
      rcases List.mem_cons.mp member with root | inner
      · cases root
        exact ⟨items, reads⟩
      · change _ ∈ LineTree.forestPlaces rules.reading (rules.reading.within top) below at inner
        have markup := LineTree.markup_of_forestPlaces inner
        rw [markup] at inner
        rw [reader.nests (LineRules.of_reading markup)] at reads
        obtain ⟨construct, -, reads⟩ := except_bind_eq_ok.mp reads
        obtain ⟨inside, readsNested, -⟩ := except_bind_eq_ok.mp reads
        exact reads_forest reader below readsNested inner

theorem reads_forest (reader : LineReader rules.within alone read readAll) :
    ∀ (trees : List LineTree) {items : List Item}, readAll trees = .ok items →
      ⟨.markup, .mk line nested⟩ ∈ LineTree.forestPlaces rules.reading .markup trees →
      ∃ own, read (.mk line nested) = .ok own
  | [], items, reads, member => by cases member
  | tree :: rest, items, reads, member => by
      rw [reader.cons] at reads
      obtain ⟨first, readsFirst, reads⟩ := except_bind_eq_ok.mp reads
      obtain ⟨more, readsMore, -⟩ := except_bind_eq_ok.mp reads
      rcases List.mem_append.mp member with before | later
      · exact reads_tree reader tree readsFirst before
      · exact reads_forest reader rest readsMore later

end

end LineReader

end

/-! ## Lines that start with a word of control -/

def controlWords : List (List Char) :=
  ["if", "else", "each", "for"].map String.toList

def Control.code : Control → List Char
  | .ifBegin condition => "if ".toList ++ condition
  | .elseBegin => "else".toList
  | .forBegin binding => "for ".toList ++ binding

namespace Line

def leadName (line : Line) : List Char :=
  line.text.takeWhile isNameChar

def afterName (line : Line) : List Char :=
  line.text.dropWhile isNameChar

/-- What a line with a word of control in front is meant as: the word is apart from what follows,
and nothing follows an `else`. -/
def control? (line : Line) : Option Control :=
  let rest := Text.trim line.afterName
  if line.afterName.head?.all Text.isBlank then
    if line.leadName = "else".toList then if rest = [] then some .elseBegin else none
    else if rest = [] then none
    else if line.leadName = "if".toList then some (.ifBegin rest)
    else some (.forBegin rest)
  else none

/-- What a line with a word of control in front is read as: what it is meant as, or else an element
with the word for its tag. -/
inductive LeadsTo (line : Line) : Construct → Prop
  | control {control : Control} (meant : line.control? = some control) :
      LeadsTo line (.control control)
  | element {element : Element} (other : line.control? = none) (more : line.afterName ≠ [])
      (tag : element.tag = line.leadName) : LeadsTo line (.element element)

variable {line : Line}

theorem text_eq (line : Line) : line.text = line.leadName ++ line.afterName :=
  List.takeWhile_append_dropWhile.symm

theorem letters_leadName (line : Line) : ∀ c ∈ line.leadName, isNameChar c = true :=
  nameChars_takeWhile line.text

theorem stops_afterName (line : Line) :
    ∀ c, line.afterName.head? = some c → isNameChar c = false := by
  intro c first
  have stops := List.head?_dropWhile_not isNameChar line.text
  rw [show line.text.dropWhile isNameChar = line.afterName from rfl, first] at stops
  exact stops

theorem firstWord_text (spaced : line.afterName.head?.all Text.isBlank = true) :
    firstWord line.text = (line.leadName, Text.trim line.afterName) := by
  rw [line.text_eq]
  apply firstWord_of_append
  · exact fun c member => not_blank_of_nameChar (line.letters_leadName c member)
  · intro c first
    rw [first] at spaced
    exact spaced

theorem firstWord_glued (glued : line.afterName.head?.all Text.isBlank = false) :
    (firstWord line.text).1 ∉ leadWords := by
  cases after : line.afterName with
  | nil =>
      rw [after] at glued
      cases glued
  | cons c rest =>
      have busy : Text.isBlank c = false := by
        rw [after] at glued
        exact glued
      have stops := line.stops_afterName c (by rw [after]; rfl)
      intro member
      have within : c ∈ (firstWord line.text).1 := by
        rw [firstWord_word, line.text_eq, after, List.takeWhile_append_of_pos]
        · apply List.mem_append_right
          rw [List.takeWhile_cons, busy]
          exact List.mem_cons_self
        · intro d member
          rw [not_blank_of_nameChar (line.letters_leadName d member)]
          rfl
      rw [letters_leadWords _ member c within] at stops
      cases stops

end Line

namespace Jade

variable {line : Line}

theorem first_of_controlWord (leads : line.leadName ∈ controlWords) :
    ∃ c rest, line.text = c :: rest ∧ c.isAlpha = true := by
  have starts : ∀ word ∈ controlWords, ∃ c rest, word = c :: rest ∧ c.isAlpha = true := by
    intro word member
    simp only [controlWords, List.map_cons, List.map_nil, List.mem_cons, List.not_mem_nil,
      or_false] at member
    rcases member with rfl | rfl | rfl | rfl <;> exact ⟨_, _, rfl, by decide⟩
  obtain ⟨c, rest, word, letter⟩ := starts _ leads
  refine ⟨c, rest ++ line.afterName, ?_, letter⟩
  rw [line.text_eq, word, List.cons_append]

theorem ne_nil_of_controlWord {word : List Char} (control : word ∈ controlWords) : word ≠ [] := by
  rintro rfl
  exact absurd control (by decide)

theorem readSimple_of_controlWord (leads : line.leadName ∈ controlWords) :
    readSimple line = readKeyword line := by
  obtain ⟨c, rest, text, letter⟩ := first_of_controlWord leads
  apply readSimple_unmarked
  rw [text]
  rintro _ ⟨⟩ marked
  have noLetter : ∀ c ∈ marks, c.isAlpha = false := List.all_iff_forall_prop.mp rfl
  rw [noLetter c marked] at letter
  cases letter

theorem cases_of_controlWord {word : List Char} (control : word ∈ controlWords) :
    word = "else".toList ∨ word = "if".toList ∨
      word ≠ "if".toList ∧ (word = "for".toList ∨ word = "each".toList) := by
  simp only [controlWords, List.map_cons, List.map_nil, List.mem_cons, List.not_mem_nil,
    or_false] at control
  rcases control with rfl | rfl | rfl | rfl
  · exact .inr (.inl rfl)
  · exact .inl rfl
  · exact .inr (.inr ⟨by decide, .inr rfl⟩)
  · exact .inr (.inr ⟨by decide, .inl rfl⟩)

theorem firstWord_trim (leads : line.leadName ∈ controlWords)
    (spaced : line.afterName.head?.all Text.isBlank = true)
    (more : Text.trim line.afterName ≠ []) :
    firstWord (Text.trim line.text) = (line.leadName, Text.trim line.afterName) := by
  obtain ⟨c, rest, text, letter⟩ := first_of_controlWord leads
  have busy : Text.isBlank c = false := not_blank_of_nameChar (nameChar_of_isAlpha letter)
  have kept : Text.trimEnd line.afterName ≠ [] := by
    intro blank
    rw [← Text.trim_trimEnd, blank] at more
    exact more rfl
  have trimmed : Text.trim line.text = line.leadName ++ Text.trimEnd line.afterName := by
    rw [Text.trim, text, Text.trimStart_cons_of_not_blank busy, ← text, line.text_eq]
    exact Text.trimEnd_append_of_busy kept _
  rw [trimmed, ← Text.trim_trimEnd]
  apply firstWord_of_append
  · exact fun d member => not_blank_of_nameChar (line.letters_leadName d member)
  · intro d first
    obtain ⟨ending, whole⟩ := Text.trimEnd_isFront line.afterName
    have head : line.afterName.head? = some d := by
      rw [← whole, List.head?_append, first]
      rfl
    rw [head] at spaced
    exact spaced

theorem readSimple_meant {control : Control} (leads : line.leadName ∈ controlWords)
    (meant : line.control? = some control) :
    readSimple line = .ok (some (.control control)) := by
  unfold Line.control? at meant
  dsimp only at meant
  split at meant
  · rename_i spaced
    rw [readSimple_of_controlWord leads, readKeyword, Line.firstWord_text spaced]
    dsimp only
    rcases cases_of_controlWord leads with isElse | isIf | ⟨notIf, loops⟩
    · rw [if_pos isElse] at meant
      split at meant
      · rename_i nothing
        cases meant
        rw [isElse, nothing]
        rfl
      · cases meant
    · rw [isIf, if_neg (by decide)] at meant
      split at meant
      · cases meant
      · rename_i more
        cases meant
        have words := firstWord_trim leads spaced more
        rw [isIf] at words
        rw [isIf, if_neg (by decide), if_neg fun both => more both.2, if_pos (.inl rfl),
          if_neg (by simpa using more), Construct.ofCode, words]
        exact congrArg (Except.ok ∘ some) (if_pos ⟨rfl, more⟩)
    · have notElse : line.leadName ≠ "else".toList := by
        rcases loops with same | same <;> rw [same] <;> decide
      have notDoctype : line.leadName ≠ "doctype".toList := by
        rcases loops with same | same <;> rw [same] <;> decide
      rw [if_neg notElse] at meant
      split at meant
      · cases meant
      · rename_i more
        cases meant
        have words := firstWord_trim leads spaced more
        rw [if_neg notDoctype, if_neg fun both => notElse both.1,
          if_pos (.inr (Or.comm.mp loops)), if_neg (by simpa using more), Construct.ofCode, words]
        dsimp only
        rw [if_neg fun both => notIf both.1, if_neg fun both => notElse both.1,
          if_pos ⟨loops, more⟩]
  · cases meant

theorem readSimple_other {found : Option Construct} (leads : line.leadName ∈ controlWords)
    (other : line.control? = none) (simple : readSimple line = .ok found) :
    found = none ∧ line.afterName ≠ [] := by
  rw [readSimple_of_controlWord leads] at simple
  unfold Line.control? at other
  dsimp only at other
  split at other
  · rename_i spaced
    rw [readKeyword, Line.firstWord_text spaced] at simple
    dsimp only at simple
    rcases cases_of_controlWord leads with isElse | asked
    · rw [if_pos isElse] at other
      split at other
      · cases other
      · rename_i more
        rw [isElse, if_neg (by decide), if_neg fun both => more both.2, if_neg (by decide)] at simple
        cases simple
        refine ⟨rfl, fun nothing => more ?_⟩
        rw [nothing]
        rfl
    · have notElse : line.leadName ≠ "else".toList := by
        rcases asked with same | ⟨-, same | same⟩ <;> rw [same] <;> decide
      have notDoctype : line.leadName ≠ "doctype".toList := by
        rcases asked with same | ⟨-, same | same⟩ <;> rw [same] <;> decide
      have word : line.leadName = "if".toList ∨ line.leadName = "each".toList ∨
          line.leadName = "for".toList :=
        asked.imp_right fun loops => Or.comm.mp loops.2
      rw [if_neg notElse] at other
      split at other
      · rename_i nothing
        rw [if_neg notDoctype, if_neg fun both => notElse both.1, if_pos word, nothing] at simple
        cases simple
      · split at other <;> cases other
  · rename_i glued
    rw [Bool.not_eq_true] at glued
    rw [readKeyword_free (Line.firstWord_glued glued)] at simple
    cases simple
    refine ⟨rfl, fun nothing => ?_⟩
    rw [nothing] at glued
    cases glued

theorem noComment_of_controlWord (leads : line.leadName ∈ controlWords) :
    ∀ rest, line.text ≠ '/' :: '/' :: rest := by
  obtain ⟨c, after, text, letter⟩ := first_of_controlWord leads
  intro rest same
  rw [text] at same
  cases same
  cases letter

theorem readTree_of_controlWord {nested : List LineTree} {own : List Item}
    (leads : line.leadName ∈ controlWords) (reads : readTree (.mk line nested) = .ok own) :
    ∃ construct inside, own = [.ofLine line construct inside] ∧ line.LeadsTo construct := by
  have noComment := noComment_of_controlWord leads
  cases meant : line.control? with
  | some control =>
      have simple := readSimple_meant leads meant
      have markup := within_of_nests noComment simple rfl
      rw [readTree_alone (.inl markup), readAlone, simple] at reads
      obtain ⟨construct, readsConstruct, reads⟩ := except_bind_eq_ok.mp reads
      cases readsConstruct
      obtain ⟨inside, -, same⟩ := except_bind_eq_ok.mp reads
      cases same
      exact ⟨_, inside, rfl, .control meant⟩
  | none =>
      -- The line is read at all, so its word is not bare, and all that is left is an element.
      obtain ⟨found, simple⟩ := simple_of_readTree noComment reads
      obtain ⟨rfl, more⟩ := readSimple_other leads meant simple
      obtain ⟨head, element, inside, readsHead, starts, same, -⟩ :=
        readTree_element noComment simple reads
      refine ⟨_, inside, same, .element meant more ?_⟩
      obtain ⟨c, rest, named⟩ := List.exists_cons_of_ne_nil (ne_nil_of_controlWord leads)
      rw [starts.tag, tag_of_readHead readsHead]
      change (if line.leadName.isEmpty then _ else line.leadName) = _
      rw [named]
      rfl

theorem glued_of_element {head : Head} {element : Element} (control : element.tag ∈ controlWords)
    (simple : readSimple line = .ok none) (readsHead : readHead line = .ok head)
    (starts : head.Starts element) : line.leadName = element.tag ∧ line.control? = none := by
  have named : line.leadName = element.tag := by
    have tag := tag_of_readHead readsHead
    rw [← starts.tag] at tag
    split at tag
    · rw [tag] at control
      exact absurd control (by decide)
    · exact tag.symm
  refine ⟨named, ?_⟩
  cases meant : line.control? with
  | none => rfl
  | some control' =>
      rw [readSimple_meant (named ▸ control) meant] at simple
      cases simple

end Jade

/-! ## Whole sources -/

def Construct.opening (depth : Nat) : Construct → List Char
  | .control meant => lineAt depth (codeTag meant.code)
  | .element shown => List.replicate (2 * depth) ' ' ++ '<' :: shown.head
  | _ => []

theorem Line.LeadsTo.opens {line : Line} {construct : Construct} {inside : List Item} {depth : Nat}
    {text : List Char} (leads : line.LeadsTo construct)
    (emitted : emitItem depth (.ofLine line construct inside) = .ok text) :
    construct.opening depth <+: text := by
  cases leads with
  | element =>
      obtain ⟨rest, -, rfl⟩ := emitItem_element emitted
      exact ⟨rest, rfl⟩
  | @control meant =>
      unfold Item.ofLine at emitted
      cases meant <;> rw [emitItem] at emitted <;>
        obtain ⟨body, -, same⟩ := except_bind_eq_ok.mp emitted <;> cases same
      · exact ⟨body, rfl⟩
      · exact ⟨body ++ lineAt depth endTag, (List.append_assoc ..).symm⟩
      · exact ⟨body ++ lineAt depth endTag, (List.append_assoc ..).symm⟩

variable {source : String} {path : Path} {output : String}

/-- In a source that is compiled, each line that starts with a word of control is the control that it
is meant as, and the template has the tag of that; if it is not meant as one, more comes after the
word, and the line is an element with the word for its tag. No other element has such a tag. -/
theorem control_lines_compiled (compiled : compileJade source path = .ok output) :
    ∃ items, pageOf .jade source = .ok items ∧ emit items = .ok output.toList ∧
      (∀ line nested, line.leadName ∈ controlWords →
        ⟨.markup, .mk line nested⟩ ∈
          LineTree.sourcePlaces Jade.lineRules.reading source.toList →
        ∃ construct inside, Jade.readTree (.mk line nested) = .ok [.ofLine line construct inside] ∧
          line.LeadsTo construct ∧
          (⟨.markup, .mk line nested⟩ ∈ LineTree.sourcePlaces Jade.lineRules source.toList →
            Holds (· = .ofLine line construct inside) items ∧
              ∃ depth, Text.LinePart (construct.opening depth) output.toList)) ∧
      ∀ element, element.tag ∈ controlWords → Holds (Item.IsElement element) items →
        ∃ line nested,
          ⟨.markup, .mk line nested⟩ ∈ LineTree.sourcePlaces Jade.lineRules source.toList ∧
            line.leadName = element.tag ∧ line.control? = none := by
  obtain ⟨trees, built, emitted⟩ := except_bind_eq_ok.mp (compileWith_eq_ok.mp compiled)
  obtain ⟨items, reads, emitted⟩ := except_bind_eq_ok.mp emitted
  have placesOf (rules : LineRules) : LineTree.sourcePlaces rules source.toList =
      LineTree.forestPlaces rules .markup trees := by
    rw [LineTree.sourcePlaces, built]
  have page : pageOf .jade source = .ok items :=
    except_bind_eq_ok.mpr ⟨trees, built, reads⟩
  rw [placesOf, placesOf]
  refine ⟨items, page, emitted, ?_, ?_⟩
  · intro line nested leads placed
    obtain ⟨own, readsOwn⟩ := Jade.lineReader.reads_forest trees reads placed
    obtain ⟨construct, inside, rfl, leadsTo⟩ := Jade.readTree_of_controlWord leads readsOwn
    refine ⟨construct, inside, readsOwn, leadsTo, fun kept => ?_⟩
    obtain ⟨own, readsToo, reaches⟩ := Jade.reaches_forest trees reads kept
    cases readsOwn.symm.trans readsToo
    have holds : Holds (· = .ofLine line construct inside) items := reaches _ (.here rfl)
    obtain ⟨_, depth, text, rfl, emittedItem, part⟩ := holds.emitted emitted
    obtain ⟨rest, rfl⟩ := leadsTo.opens emittedItem
    exact ⟨holds, depth, (Text.LinePart.append_right _ rest).trans part⟩
  · intro element control holds
    obtain ⟨line, nested, placed, simple, head, readsHead, starts⟩ :=
      @element_of_page _ .jade _ _ _ rfl page holds
    rw [placesOf] at placed
    exact ⟨line, nested, placed, Jade.glued_of_element control simple readsHead starts⟩

/-- A condition with a blank before it controls what is nested in its line. -/
theorem spaced_condition_controls : ∃ output depth,
    compileJade "if admin\n  p yes\nelse\n  p no" (.ofString "views/a.jade") = .ok output ∧
      Text.LinePart (lineAt depth "<% if admin %>".toList) output.toList := by
  let source := "if admin\n  p yes\nelse\n  p no"
  have compiles : (compileJade source (.ofString "views/a.jade")).toBool = true := by
    decide +kernel
  have placed : ((LineTree.sourcePlaces Jade.lineRules source.toList).any fun placed =>
      placed.context == .markup && placed.tree.line.text == "if admin".toList) = true := by
    decide +kernel
  obtain ⟨output, compiled⟩ := Outcome.of_toBool compiles
  obtain ⟨⟨context, line, nested⟩, member, is⟩ := List.any_eq_true.mp placed
  obtain ⟨isMarkup, same⟩ := Bool.and_eq_true_iff.mp is
  cases beq_iff_eq.mp isMarkup
  have text : line.text = "if admin".toList := beq_iff_eq.mp same
  have word : line.leadName = "if".toList := by
    rw [Line.leadName, text]
    decide
  have meant : line.control? = some (.ifBegin "admin".toList) := by
    rw [Line.control?, Line.leadName, Line.afterName, text]
    rfl
  obtain ⟨items, -, -, lines, -⟩ := control_lines_compiled compiled
  obtain ⟨construct, inside, -, leads, written⟩ := lines line nested (by rw [word]; decide)
    (LineTree.mem_reading member)
  cases leads with
  | element other => cases meant.symm.trans other
  | control same =>
      cases meant.symm.trans same
      obtain ⟨-, depth, part⟩ := written member
      exact ⟨output, depth, compiled, part⟩

/-- A condition in parentheses right after the word is an element, and what is nested in it is shown
whatever the condition comes to. So is an `else` with a condition of its own. -/
theorem glued_condition_is_element :
    (¬ ∀ (source output : String) (path : Path) (items : List Item),
      compileJade source path = .ok output → pageOf .jade source = .ok items →
        ∀ element : Element, Holds (Item.IsElement element) items →
          element.tag ∉ controlWords) ∧
      (compileJade "if(admin)\n  p secret" (.ofString "views/a.jade")).toOption =
        some "<if admin>\n  <p>secret</p>\n</if>\n" ∧
      (compileJade "if a\n  p yes\nelse if b" (.ofString "views/a.jade")).toOption =
        some "<% if a %>\n<p>yes</p>\n<% end %>\n<else>if b</else>\n" := by
  refine ⟨?_, by decide +kernel, by decide +kernel⟩
  intro never
  have compiles : (compileJade "if(admin)" (.ofString "views/a.jade")).toBool = true := by
    decide +kernel
  have found : ((pageOf .jade "if(admin)").toOption.any fun items =>
      items.any fun item => item.element?.any (·.tag == "if".toList)) = true := by
    decide +kernel
  obtain ⟨output, compiled⟩ := Outcome.of_toBool compiles
  obtain ⟨items, element, page, holds, is⟩ := exists_element found
  refine never _ output _ items compiled page element holds ?_
  rw [beq_iff_eq.mp is]
  decide

end ThemeRender.Markup
