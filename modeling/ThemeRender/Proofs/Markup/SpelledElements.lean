import ThemeRender.Proofs.Markup.AttributeSpellings
import ThemeRender.Proofs.Markup.OneLine
import ThemeRender.Proofs.Markup.TextLines

namespace ThemeRender.Markup

open Outcome (Alongside except_bind_eq_ok of_map_ok)

/-! ## Elements with lists -/

inductive HamlName where
  | tag (name : Word) (shorthands : List Shorthand)
  | bare (first : Shorthand) (more : List Shorthand)

namespace HamlName

def tagText : HamlName → List Char
  | tag name _ => name.text
  | bare _ _ => "div".toList

def shorthands : HamlName → List Shorthand
  | tag _ shorthands => shorthands
  | bare first more => first :: more

def text : HamlName → List Char
  | tag name shorthands => '%' :: name.text ++ shorthandsText shorthands
  | bare first more => shorthandsText (first :: more)

theorem first (name : HamlName) : ∃ c tail, name.text = c :: tail ∧ Text.isBlank c = false := by
  cases name with
  | tag name shorthands => exact ⟨'%', _, rfl, by decide⟩
  | bare first more => cases first <;> exact ⟨_, _, rfl, by decide⟩

theorem startsElement_text (name : HamlName) (rest : List Char) :
    Haml.startsElement (name.text ++ rest) = true := by
  cases name with
  | tag name shorthands => exact name.letters _ List.mem_cons_self
  | bare first more =>
      cases first with
      | ofClass name => exact name.letters _ List.mem_cons_self
      | ofId name => exact name.letters _ List.mem_cons_self

theorem readTag_text (name : HamlName) {rest : List Char}
    (ends : ∀ c, rest.head? = some c → c ∈ nameEnds) :
    Haml.readTag (name.text ++ rest) = (name.tagText, shorthandsText name.shorthands ++ rest) := by
  have stops := stops_shorthands name.shorthands ends
  cases name with
  | tag name shorthands =>
      have whole : (tag name shorthands).text ++ rest =
          '%' :: (name.text ++ (shorthandsText shorthands ++ rest)) := by
        simp [text]
      rw [whole]
      exact Prod.ext (Text.takeWhile_exact name.letters stops)
        (Text.dropWhile_exact name.letters stops)
  | bare first more => cases first <;> rfl

end HamlName

variable {name : HamlName} {lists listsToo : List (Spelling × List SpelledAttr)}
  {tail : List Char} {line other : Line}

theorem head_listsText (some : lists ≠ []) (tail : List Char) :
    ∀ c, (listsText lists ++ tail).head? = Option.some c → c ∈ nameEnds := by
  intro c first
  cases lists with
  | nil => exact absurd rfl some
  | cons list more =>
      have opens : ∀ spelling : Spelling, spelling.opener ∈ nameEnds := by
        rintro ⟨⟩ <;> decide
      cases first
      exact opens list.1

namespace Haml

theorem within_of_element (starts : startsElement line.text = true) : within line = .markup := by
  unfold within
  split
  case h_4 => rfl
  all_goals
    rename_i text
    rw [text] at starts
    cases starts

theorem readElement_lists (some : lists ≠ [])
    (text : line.text = name.text ++ (listsText lists ++ tail)) : readElement line = (do
      let found ← line.check (name.shorthands.foldlM Shorthands.add ⟨none, []⟩)
      let first ← line.check ((lists.flatMap (·.2)).mapM SpelledAttr.read)
      let (more, rest) ← line.check (readAttributes tail.length tail)
      finish line name.tagText found (first ++ more) rest) := by
  have ends := head_listsText some tail
  rw [readElement_eq, text, name.readTag_text ends]
  dsimp only
  rw [readShorthands_text name.shorthands _ ends]
  cases name.shorthands.foldlM Shorthands.add ⟨none, []⟩ with
  | error fault => rfl
  | ok found =>
      change (line.check (readAttributes _ (listsText lists ++ tail)) >>= _) = _
      rw [readAttributes_lists]
      cases (lists.flatMap (·.2)).mapM SpelledAttr.read with
      | error fault => rfl
      | ok first => cases readAttributes tail.length tail <;> rfl

theorem finish_echoed {At : Line → Line → Prop} (place : At line other) {rest : List Char}
    (part : rest <:+ line.text) (tag : List Char) (shorthands : Shorthands) (attrs : List Attr) :
    Echoed At (finish line tag shorthands attrs rest) (finish other tag shorthands attrs rest) := by
  have afterPart : afterSlash rest <:+ rest := by
    unfold afterSlash
    split
    · exact List.suffix_cons _ _
    · exact List.suffix_rfl
  rw [finish_eq, finish_eq]
  exact (readInline_echoed place (afterPart.trans part)).map _

theorem readElement_respelled {At : Line → Line → Prop} (place : At line other) (some : lists ≠ [])
    (someToo : listsToo ≠ []) (same : lists.flatMap (·.2) = listsToo.flatMap (·.2))
    (text : line.text = name.text ++ (listsText lists ++ tail))
    (textToo : other.text = name.text ++ (listsText listsToo ++ tail)) :
    Echoed At (readElement line) (readElement other) := by
  have tailPart : tail <:+ line.text := by
    rw [text, ← List.append_assoc]
    exact List.suffix_append _ tail
  rw [readElement_lists some text, readElement_lists someToo textToo, ← same]
  apply (Echoed.check place _).bind
  intro found _
  apply (Echoed.check place _).bind
  intro first _
  apply (Echoed.check place _).bind
  intro more reads
  exact finish_echoed place ((rest_readAttributes (of_check reads)).trans tailPart) _ _ _

end Haml

/-! ## Attributes in the template -/

section

variable {element : Element} {depth : Nat} {text : List Char}

def endsTag (rest : List Char) : Bool :=
  ['>'].isPrefixOf rest || " />".toList.isPrefixOf rest

theorem emitItem_element {number : Nat} {span : Span} {nested : List Item}
    (emitted : emitItem depth (.mk (.element element) number span nested) = .ok text) :
    ∃ rest, endsTag rest = true ∧
      text = List.replicate (2 * depth) ' ' ++ '<' :: element.head ++ rest := by
  rw [emitItem] at emitted
  split at emitted
  · split at emitted
    · cases emitted
      refine ⟨(if element.selfClosing then " />".toList else ['>']) ++ ['\n'], ?_, ?_⟩
      · split <;> rfl
      · simp [lineAt, voidTag]
    · cases emitted
  · split at emitted
    · cases emitted
    · rename_i content _ _
      cases emitted
      exact ⟨'>' :: (content ++ closeTag element ++ ['\n']), rfl, by simp [lineAt, openTag]⟩
    · cases emitted
      exact ⟨'>' :: (closeTag element ++ ['\n']), rfl, by simp [lineAt, openTag]⟩
    · obtain ⟨body, -, same⟩ := except_bind_eq_ok.mp emitted
      cases same
      exact ⟨'>' :: '\n' :: (body ++ lineAt depth (closeTag element)), rfl,
        by simp [lineAt, openTag]⟩

theorem Element.infix_head {before after : List Attr} {attr : Attr}
    (attrs : element.attrs = before ++ attr :: after) (noClass : attr.name ≠ "class".toList)
    (firstId : attr.name = "id".toList → ∀ earlier ∈ before, earlier.name ≠ "id".toList) :
    attr.template <:+: element.head := by
  by_cases isId : attr.name = "id".toList
  · have found : element.attrs.find? (·.name = "id".toList) = some attr := by
      have none : before.find? (·.name = "id".toList) = none :=
        List.find?_eq_none.mpr fun earlier member => by simpa using firstId isId earlier member
      rw [attrs, List.find?_append, none, List.find?_cons_of_pos (by simpa using isId)]
      rfl
    have written : element.idTemplate = attr.template := by
      rw [Element.idTemplate, found]
    rw [Element.head, written, List.append_assoc]
    exact List.infix_append element.tag attr.template _
  · rw [Element.head, attrs, List.filter_append,
      List.filter_cons_of_pos (by simpa using ⟨isId, noClass⟩), List.flatMap_append,
      List.flatMap_cons]
    rw [← List.append_assoc, ← List.append_assoc]
    exact List.infix_append _ _ _

end

theorem names_of_read {attrs : List SpelledAttr} {found : List Attr}
    (reads : attrs.mapM SpelledAttr.read = .ok found) :
    found.map Attr.name = attrs.map SpelledAttr.name := by
  induction attrs generalizing found with
  | nil =>
      cases reads
      rfl
  | cons attr rest ih =>
      rw [List.mapM_cons] at reads
      obtain ⟨first, readsFirst, reads⟩ := except_bind_eq_ok.mp reads
      obtain ⟨more, readsMore, same⟩ := except_bind_eq_ok.mp reads
      obtain ⟨value, -, named⟩ := of_map_ok readsFirst
      cases same
      rw [List.map_cons, List.map_cons, ih readsMore, ← named]

def SpelledValue.code? : SpelledValue → Option (List Char)
  | quoted _ _ _ _ => none
  | bare code _ _ => some code

theorem SpelledAttr.read_bare {attr : SpelledAttr} {code : List Char} {found : Attr}
    (bare : attr.value.code? = some code) (reads : attr.read = .ok found) :
    found = ⟨attr.name, .expr (Text.trim code)⟩ := by
  obtain ⟨value, readsValue, rfl⟩ := of_map_ok reads
  cases same : attr.value with
  | quoted =>
      rw [same] at bare
      cases bare
  | bare =>
      rw [same] at bare readsValue
      cases bare
      rw [SpelledValue.read] at readsValue
      split at readsValue
      · cases readsValue
      · cases readsValue
        rfl

/-- Every bare value is written into the head as an output tag, if it is no class, and no id after
another one. -/
def Element.WritesBare (element : Element) (attrs : List SpelledAttr) : Prop :=
  ∀ before attr after code, attrs = before ++ attr :: after → attr.value.code? = some code →
    attr.name ≠ "class".toList →
    (attr.name = "id".toList → ∀ earlier ∈ before, earlier.name ≠ "id".toList) →
    quotedAttr attr.name (outputTag (Text.trim code)) <:+: element.head

theorem Element.writesBare_of_read {element : Element} {attrs : List SpelledAttr}
    {first more : List Attr} (reads : attrs.mapM SpelledAttr.read = .ok first)
    (all : element.attrs = first ++ more) : element.WritesBare attrs := by
  intro before attr after code written bare noClass firstId
  rw [written, List.mapM_append, List.mapM_cons] at reads
  obtain ⟨beforeFound, readsBefore, reads⟩ := except_bind_eq_ok.mp reads
  obtain ⟨rest, reads, same⟩ := except_bind_eq_ok.mp reads
  obtain ⟨found, readsFound, reads⟩ := except_bind_eq_ok.mp reads
  obtain ⟨afterFound, -, sameRest⟩ := except_bind_eq_ok.mp reads
  cases sameRest
  cases same
  obtain rfl := SpelledAttr.read_bare bare readsFound
  have names := names_of_read readsBefore
  rw [List.append_assoc, List.cons_append] at all
  refine element.infix_head all noClass fun isId earlier member => ?_
  have name : earlier.name ∈ beforeFound.map Attr.name := List.mem_map_of_mem member
  rw [names] at name
  obtain ⟨spelled, among, same⟩ := List.mem_map.mp name
  rw [← same]
  exact firstId isId spelled among

/-! ## Raw lines -/

/-- An indented line with an element, except for the attribute lists after its name. -/
structure ElementFrame where
  lead : List Char
  blank : ∀ c ∈ lead, Text.isBlank c = true
  name : HamlName
  tail : List Char

namespace ElementFrame

variable (frame : ElementFrame)

def raw (lists : List (Spelling × List SpelledAttr)) : List Char :=
  frame.lead ++ (frame.name.text ++ (listsText lists ++ frame.tail))

theorem busy : (frame.raw lists).all Text.isBlank = false := by
  obtain ⟨c, rest, same, busy⟩ := frame.name.first
  rw [raw, same, List.all_append, List.cons_append, List.all_cons, busy, Bool.false_and,
    Bool.and_false]

theorem indentation_raw : indentation (frame.raw lists) = frame.lead := by
  obtain ⟨c, rest, same, busy⟩ := frame.name.first
  refine Text.takeWhile_exact frame.blank ?_
  rw [same]
  rintro d ⟨⟩
  exact busy

end ElementFrame

theorem getLast_listsText (some : lists ≠ []) :
    ∃ front c, listsText lists = front ++ [c] ∧ Text.isBlank c = false := by
  have closes : ∀ spelling : Spelling, Text.isBlank spelling.closer = false := by
    rintro ⟨⟩ <;> decide
  obtain ⟨before, last, rfl⟩ := (List.eq_nil_or_concat lists).resolve_left some
  refine ⟨listsText before ++ last.1.opener :: last.1.entries last.2, last.1.closer, ?_, closes _⟩
  simp [listsText, Spelling.list]

theorem ElementFrame.text_raw (frame : ElementFrame) (some : lists ≠ []) :
    Text.trimStart (Text.trimEnd (frame.raw lists)) =
      frame.name.text ++ (listsText lists ++ Text.trimEnd frame.tail) := by
  obtain ⟨front, last, ends, busyLast⟩ := getLast_listsText some
  obtain ⟨first, rest, starts, busyFirst⟩ := frame.name.first
  have kept : Text.trimEnd [last] = [last] := by
    rw [Text.trimEnd_cons_of_not_blank busyLast, Text.trimEnd_nil]
  have keptAll : Text.trimEnd (frame.lead ++ (frame.name.text ++ front) ++ [last]) =
      frame.lead ++ (frame.name.text ++ front) ++ [last] := by
    rw [Text.trimEnd_append_of_busy (by rw [kept]; exact List.cons_ne_nil _ _), kept]
  have whole : frame.raw lists =
      frame.lead ++ (frame.name.text ++ front) ++ [last] ++ frame.tail := by
    simp [raw, ends]
  rw [whole, Text.trimEnd_append_of_kept keptAll, ends, starts]
  simp only [List.append_assoc, List.cons_append]
  rw [Text.trimStart_append_of_blank frame.blank, Text.trimStart_cons_of_not_blank busyFirst]

/-! ## Whole sources -/

/-- The sources differ in how the attributes of one element are spelled and spread over lists. -/
structure Respelled (source sourceToo : List Char) (above : List (List Char)) (frame : ElementFrame)
    (lists listsToo : List (Spelling × List SpelledAttr)) (below : List (List Char)) : Prop where
  split : Text.lines source = above ++ frame.raw lists :: below
  splitToo : Text.lines sourceToo = above ++ frame.raw listsToo :: below
  some : lists ≠ []
  someToo : listsToo ≠ []
  same : lists.flatMap (·.2) = listsToo.flatMap (·.2)

theorem Respelled.apart {source sourceToo : List Char} {above below : List (List Char)}
    {frame : ElementFrame}
    (respelled : Respelled source sourceToo above frame lists listsToo below) :
    OneLineApart source sourceToo above (frame.raw lists) (frame.raw listsToo) below where
  split := respelled.split
  splitToo := respelled.splitToo
  indent := by rw [frame.indentation_raw, frame.indentation_raw]
  busy := frame.busy
  busyToo := frame.busy

variable {source sourceToo : String} {path pathToo : Path} {above below : List (List Char)}
  {frame : ElementFrame}

namespace Haml

theorem readTree_respelled {At : Line → Line → Prop} (place : At line other) (some : lists ≠ [])
    (someToo : listsToo ≠ []) (same : lists.flatMap (·.2) = listsToo.flatMap (·.2))
    (text : line.text = name.text ++ (listsText lists ++ tail))
    (textToo : other.text = name.text ++ (listsText listsToo ++ tail))
    {nested nestedToo : List LineTree} (inside : Parallel within At nested nestedToo) :
    ReadAlike At (readTree (.mk line nested)) (readTree (.mk other nestedToo)) := by
  have starts : startsElement line.text = true := text ▸ name.startsElement_text _
  have startsToo : startsElement other.text = true := textToo ▸ name.startsElement_text _
  rw [readTree_alone (.inl (within_of_element starts)),
    readTree_alone (.inl (within_of_element startsToo)), readAlone_element starts,
    readAlone_element startsToo]
  apply ((readElement_respelled place some someToo same text textToo).map Construct.element).bind
  intro construct _
  exact ReadAlike.nest (readForest_alike inside) construct place

theorem element_written {output : String} {nested : List LineTree}
    (compiled : compileHaml source path = .ok output)
    (placed : ⟨.markup, .mk line nested⟩ ∈ LineTree.sourcePlaces lineRules source.toList)
    (starts : startsElement line.text = true) :
    ∃ element depth, readElement line = .ok element ∧
      Text.LinePart (List.replicate (2 * depth) ' ' ++ '<' :: element.head) output.toList := by
  obtain ⟨trees, built, emitted⟩ := except_bind_eq_ok.mp (compileWith_eq_ok.mp compiled)
  obtain ⟨items, reads, emitted⟩ := except_bind_eq_ok.mp emitted
  rw [LineTree.sourcePlaces, built] at placed
  obtain ⟨own, readsOwn, reaches⟩ := reaches_forest trees reads placed
  rw [readTree_alone (.inl (within_of_element starts)), readAlone_element starts] at readsOwn
  obtain ⟨construct, readsConstruct, readsOwn⟩ := except_bind_eq_ok.mp readsOwn
  obtain ⟨element, readsElement, rfl⟩ := of_map_ok readsConstruct
  obtain ⟨inside, -, same⟩ := except_bind_eq_ok.mp readsOwn
  cases same
  have holds : Holds (fun item => item.construct = .element element) items :=
    reaches _ (.here rfl)
  obtain ⟨⟨construct, number, span, nestedItems⟩, depth, ownText, is, emittedItem, part⟩ :=
    holds.emitted emitted
  cases is
  obtain ⟨rest, -, rfl⟩ := emitItem_element emittedItem
  exact ⟨element, depth, readsElement, (Text.LinePart.append_right _ rest).trans part⟩

end Haml

theorem Respelled.compiled
    (respelled : Respelled source.toList sourceToo.toList above frame lists listsToo below)
    (markup : ∀ placed ∈ LineTree.sourcePlaces Haml.lineRules.reading source.toList,
      placed.tree.line.number = above.length + 1 → placed.context = .markup) :
    Alongside (fun error errorToo => error.line = errorToo.line ∧
        error.complaint.fault = errorToo.complaint.fault) (· = ·)
      (compileHaml source path) (compileHaml sourceToo pathToo) := by
  let At := Beside (above.length + 1) (frame.raw lists) (frame.raw listsToo)
  have alongside : Alongside (CompileErrorsEcho At .haml path) (· = ·) (compileHaml source path)
      (compileHaml sourceToo pathToo) := by
    apply respelled.apart.alongside Haml.lineReader markup
    intro line other nested nestedToo beside number inside
    obtain ⟨text, textToo⟩ := beside.here number
    rw [frame.text_raw respelled.some] at text
    rw [frame.text_raw respelled.someToo] at textToo
    exact Haml.readTree_respelled beside respelled.some respelled.someToo respelled.same text
      textToo inside
  apply alongside.mono_errors
  intro error errorToo echo
  obtain ⟨line, other, beside, ofLine, ofOther⟩ := echo.complaints.lines
  exact ⟨(ofLine.trans beside.number.symm).trans ofOther.symm, echo.complaints.same_fault⟩

theorem Respelled.written {output : String} {nested : List LineTree}
    (respelled : Respelled source.toList sourceToo.toList above frame lists listsToo below)
    (compiled : compileHaml source path = .ok output)
    (placed : ⟨.markup, .mk line nested⟩ ∈ LineTree.sourcePlaces Haml.lineRules source.toList)
    (number : line.number = above.length + 1) :
    ∃ element depth, Haml.readElement line = .ok element ∧
      Text.LinePart (List.replicate (2 * depth) ' ' ++ '<' :: element.head) output.toList ∧
      element.WritesBare (lists.flatMap (·.2)) := by
  have text : line.text = frame.name.text ++ (listsText lists ++ Text.trimEnd frame.tail) :=
    (LineTree.text_of_number respelled.split frame.busy placed number).trans
      (frame.text_raw respelled.some)
  have starts : Haml.startsElement line.text = true := text ▸ frame.name.startsElement_text _
  obtain ⟨element, depth, reads, part⟩ := Haml.element_written compiled placed starts
  refine ⟨element, depth, reads, part, ?_⟩
  rw [Haml.readElement_lists respelled.some text] at reads
  obtain ⟨found, -, reads⟩ := except_bind_eq_ok.mp reads
  obtain ⟨first, readsFirst, reads⟩ := except_bind_eq_ok.mp reads
  obtain ⟨⟨more, rest⟩, -, reads⟩ := except_bind_eq_ok.mp reads
  dsimp only at reads
  rw [Haml.finish_eq] at reads
  obtain ⟨inline, -, rfl⟩ := of_map_ok reads
  exact Element.writesBare_of_read (of_check readsFirst) rfl

/-- Two ways to write the lists of an element come to the same template, or to the same fault in the
same line. A bare value is in the template as an output tag, without the blanks at its ends. -/
theorem spellings_compile_alike
    (respelled : Respelled source.toList sourceToo.toList above frame lists listsToo below)
    (markup : ∀ placed ∈ LineTree.sourcePlaces Haml.lineRules.reading source.toList,
      placed.tree.line.number = above.length + 1 → placed.context = .markup) :
    Alongside (fun error errorToo => error.line = errorToo.line ∧
        error.complaint.fault = errorToo.complaint.fault) (· = ·)
      (compileHaml source path) (compileHaml sourceToo pathToo) ∧
    ∀ output line nested, compileHaml source path = .ok output →
      ⟨.markup, .mk line nested⟩ ∈ LineTree.sourcePlaces Haml.lineRules source.toList →
      line.number = above.length + 1 →
      ∃ element depth, Haml.readElement line = .ok element ∧
        Text.LinePart (List.replicate (2 * depth) ' ' ++ '<' :: element.head) output.toList ∧
        element.WritesBare (lists.flatMap (·.2)) :=
  ⟨respelled.compiled markup, fun _ _ _ compiled => respelled.written compiled⟩

/-- A value with a comma in brackets, and a string, in one list and in two. -/
theorem link_compiled_alike : ∃ output depth, ∃ element : Element,
    compileHaml "%div\n  %a.b(href=f(1,2), id=\"x\") go" (.ofString "views/a.haml") = .ok output ∧
      compileHaml "%div\n  %a.b\x7b:href => f(1,2)\x7d\x7bid: \"x\"\x7d go"
        (.ofString "views/a.haml") = .ok output ∧
      Text.LinePart (List.replicate (2 * depth) ' ' ++ '<' :: element.head) output.toList ∧
      quotedAttr "href".toList (outputTag ['f', '(', '1', ',', '2', ')']) <:+: element.head := by
  let source := "%div\n  %a.b(href=f(1,2), id=\"x\") go"
  let sourceToo := "%div\n  %a.b\x7b:href => f(1,2)\x7d\x7bid: \"x\"\x7d go"
  let call : SpelledValue := .bare ('f' :: ('(' :: ['1', ',', '2'] ++ ')' :: []))
    (.char (by decide) (by decide) (.bracketed (by decide) (by decide)
      (.char (by decide) (by decide) (.char (by decide) (by decide)
        (.char (by decide) (by decide) .nil))) .nil)) (by rintro c ⟨⟩; decide)
  let href : SpelledAttr :=
    ⟨"href".toList, call, by decide, List.all_eq_true.mp rfl, by decide, by decide⟩
  let id : SpelledAttr :=
    ⟨"id".toList, .quoted '"' ['x'] (by decide) (.char (by decide) (by decide) .nil), by decide,
      List.all_eq_true.mp rfl, by decide, by decide⟩
  let frame : ElementFrame :=
    ⟨[' ', ' '], List.all_eq_true.mp rfl, .tag ⟨'a', [], List.all_eq_true.mp rfl⟩
      [.ofClass ⟨'b', [], List.all_eq_true.mp rfl⟩], " go".toList⟩
  have respelled : Respelled source.toList sourceToo.toList ["%div\n".toList] frame
      [(.parens, [href, id])] [(.symbols, [href]), (.colons, [id])] [] :=
    ⟨by decide +kernel, by decide +kernel, List.cons_ne_nil _ _, List.cons_ne_nil _ _, rfl⟩
  have markup : ((LineTree.sourcePlaces Haml.lineRules.reading source.toList).all fun placed =>
      placed.tree.line.number != 2 || placed.context == .markup) = true := by
    decide +kernel
  have placed : ((LineTree.sourcePlaces Haml.lineRules source.toList).any fun placed =>
      placed.context == .markup && placed.tree.line.number == 2) = true := by
    decide +kernel
  have compiles : (compileHaml source (.ofString "views/a.haml")).toBool = true := by
    decide +kernel
  obtain ⟨⟨context, line, nested⟩, member, is⟩ := List.any_eq_true.mp placed
  obtain ⟨isMarkup, second⟩ := Bool.and_eq_true_iff.mp is
  cases beq_iff_eq.mp isMarkup
  obtain ⟨alongside, written⟩ := @spellings_compile_alike _ _ source sourceToo
    (.ofString "views/a.haml") (.ofString "views/a.haml") _ _ _ respelled
    fun placed member number => by
      have either := List.all_eq_true.mp markup placed member
      rw [number] at either
      exact beq_iff_eq.mp either
  obtain ⟨output, compiled⟩ := Outcome.of_toBool compiles
  obtain ⟨element, depth, -, part, writes⟩ :=
    written output line nested compiled member (beq_iff_eq.mp second)
  rw [compiled] at alongside
  generalize compileHaml sourceToo _ = result at alongside
  cases alongside with
  | ok same =>
      have value := writes [] href [id] _ rfl rfl (by decide) (by decide)
      have trimmed : Text.trim ('f' :: ('(' :: ['1', ',', '2'] ++ ')' :: [])) =
          ['f', '(', '1', ',', '2', ')'] := by
        decide
      rw [trimmed] at value
      exact ⟨output, depth, element, compiled, congrArg Except.ok same.symm, part, value⟩

/-- A blank at the end of a bare value that is no space or tab is left out, and a letter that is not
of ASCII is no part of a name that is not quoted. -/
theorem bare_value_trimmed_and_name_refused :
    Balanced valueStops ['x', '\r'] ∧
      (compileHaml "%p(n=x\r)" (.ofString "views/a.haml")).toOption =
        some "<p n=\"<%= x %>\"></p>\n" ∧
      ¬quotedAttr ['n'] (outputTag ['x', '\r']) <:+: "<p n=\"<%= x %>\"></p>\n".toList ∧
      (compileHaml "%p\x7b\"é\" => x\x7d" (.ofString "views/a.haml")).toOption =
        some "<p é=\"<%= x %>\"></p>\n" ∧
      (compileHaml "%p(é=x)" (.ofString "views/a.haml")).toBool = false := by
  refine ⟨.char (by decide) (by decide) (.char (by decide) (by decide) .nil), ?_⟩
  decide +kernel

end ThemeRender.Markup
