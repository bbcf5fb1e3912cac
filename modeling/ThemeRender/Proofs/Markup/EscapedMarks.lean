import ThemeRender.Proofs.Markup.TextLines

namespace ThemeRender.Markup

open Outcome (except_bind_eq_ok of_map_ok)

variable {before after code : List Char}

theorem templateOf_around {template : List Char} (passed : Passed before)
    (lacks : Text.Lacks exprOpen code)
    (reads : templateOf (before ++ ('\\' :: exprOpen ++ (code ++ exprClose ++ after))) =
      .ok template) :
    ∃ first last, templateOf before = .ok first ∧ templateOf after = .ok last ∧
      template = first ++ (exprOpen ++ code ++ exprClose) ++ last := by
  have lacksClosed : Text.Lacks exprOpen (code ++ exprClose) :=
    lacks.append (by decide) (.inr (by decide))
  have seamless : Seamless (code ++ exprClose) after := by
    constructor
    · intro mark
      simp [exprClose] at mark
    · intro escape
      simp [exprClose] at escape
  have escaped : Seamless before ('\\' :: exprOpen ++ (code ++ exprClose ++ after)) :=
    seamless_escape before _
  rw [templateOf_append passed escaped, templateOf_escaped,
    templateOf_append (passed_of_lacks lacksClosed) seamless,
    templateOf_of_lacks lacksClosed] at reads
  obtain ⟨first, readsFirst, reads⟩ := except_bind_eq_ok.mp reads
  obtain ⟨rest, readsRest, same⟩ := except_bind_eq_ok.mp reads
  obtain ⟨closed, readsClosed, rfl⟩ := of_map_ok readsRest
  change (templateOf after >>= fun last => pure (code ++ exprClose ++ last)) = _ at readsClosed
  obtain ⟨last, readsLast, sameLast⟩ := except_bind_eq_ok.mp readsClosed
  cases sameLast
  cases same
  exact ⟨first, last, readsFirst, readsLast, by simp⟩

theorem lacks_of_lexed (lexes : (Template.lex code).toBool = true)
    (unquoted : ∀ c ∈ code, c ≠ '"' ∧ c ≠ '\'') : Text.Lacks exprOpen code := by
  obtain ⟨tokens, lexed⟩ := Outcome.of_toBool lexes
  exact Text.lacks_of_not_mem ((Template.lexes_of_eq_ok lexed).hash_not_mem unquoted)

/-! ## Items that carry a text -/

/-- The template of a text is part of what the item is on the page. -/
inductive Item.Carries (template : List Char) : Item → Prop
  | mk {construct : Construct} {pieces : List Piece} (bears : construct.Bears pieces)
      (same : templateOfPieces pieces = template) (line : Nat) (span : Span) (nested : List Item) :
      Carries template (.mk construct line span nested)

theorem Item.Carries.emitted {template : List Char} {item : Item} (carries : item.Carries template)
    {depth : Nat} {text : List Char} (emitted : emitItem depth item = .ok text) :
    ∃ opening closing, text = lineAt depth (opening ++ template ++ closing) := by
  obtain ⟨bears, rfl, line, span, nested⟩ := carries
  cases bears with
  | text =>
      rw [emitItem] at emitted
      obtain ⟨-, rfl⟩ := empty_of_requireLeaf emitted
      exact ⟨[], [], by rw [List.nil_append, List.append_nil]⟩
  | @inline element same =>
      rw [emitItem, same] at emitted
      split at emitted
      · cases emitted
      · cases nested with
        | nil =>
            cases emitted
            exact ⟨openTag element, closeTag element, rfl⟩
        | cons => cases emitted

variable {rules : LineRules} {text? : Line → Option (List Char)} {line : Line}
  {alone : Line → Except Complaint Construct} {read : LineTree → Except Complaint (List Item)}
  {readAll : List LineTree → Except Complaint (List Item)} {nested : List LineTree}
  {own : List Item}

theorem carries_of_interpolate {text : List Char} {pieces : List Piece} {construct : Construct}
    (reads : line.check (interpolate text) = .ok pieces) (bears : construct.Bears pieces)
    (inside : List Item) :
    ∃ template, templateOf text = .ok template ∧
      Holds (Item.Carries template) [.ofLine line construct inside] := by
  refine ⟨templateOfPieces pieces, ?_, .here (.mk bears rfl _ _ _)⟩
  rw [templateOf, of_check reads]
  rfl

theorem ReadsText.carried {words : List Char} (reader : LineReader rules.within alone read readAll)
    (markup : rules.within line = .markup) (readsText : ReadsText alone line words)
    (reads : read (.mk line nested) = .ok own) :
    ∃ template, templateOf words = .ok template ∧ Holds (Item.Carries template) own := by
  obtain ⟨shape, bears, readsAlone⟩ := readsText
  rw [reader.nests (.inl markup), readsAlone] at reads
  obtain ⟨construct, readsConstruct, reads⟩ := except_bind_eq_ok.mp reads
  obtain ⟨items, -, same⟩ := except_bind_eq_ok.mp reads
  cases same
  obtain ⟨pieces, readsPieces, rfl⟩ := of_map_ok readsConstruct
  exact carries_of_interpolate readsPieces (bears pieces) items

theorem readLines_carried {text : List Char} {body : List (List Char)} {items : List Item}
    (member : text ∈ body) (reads : readLines line body = .ok items) :
    ∃ template, templateOf text = .ok template ∧ Holds (Item.Carries template) items := by
  induction body generalizing items with
  | nil => cases member
  | cons first rest ih =>
      rw [readLines, List.mapM_cons] at reads
      obtain ⟨item, readsItem, reads⟩ := except_bind_eq_ok.mp reads
      obtain ⟨more, readsMore, same⟩ := except_bind_eq_ok.mp reads
      cases same
      rcases List.mem_cons.mp member with rfl | later
      · obtain ⟨pieces, readsPieces, rfl⟩ := of_map_ok readsItem
        obtain ⟨template, same, holds⟩ := carries_of_interpolate readsPieces .text []
        exact ⟨template, same, holds.append_right more⟩
      · obtain ⟨template, same, holds⟩ := ih later readsMore
        exact ⟨template, same, holds.append_left [item]⟩

theorem TakesText.carried {text : List Char} (takes : TakesText read line)
    (member : text ∈ LineTree.rawNested (.mk line nested))
    (reads : read (.mk line nested) = .ok own) :
    ∃ template, templateOf text = .ok template ∧ Holds (Item.Carries template) own := by
  rcases takes with ⟨construct, nests, same⟩ | ⟨fault, same⟩
  · rw [same] at reads
    obtain ⟨items, readsItems, rfl⟩ := of_map_ok reads
    obtain ⟨template, reads, holds⟩ := readLines_carried member readsItems
    exact ⟨template, reads, .inside nests holds⟩
  · rw [same] at reads
    cases reads

/-! ## Whole sources -/

variable {dialect : Dialect} {source : String} {path : Path} {output : String} {blamed : Line}
  {words : List Char}

theorem compileWith_writes (reader : LineReader rules.within alone read readAll)
    (texts : TextReader rules.within text? alone read)
    (reaches : ∀ (trees : List LineTree) {items : List Item} {line : Line}
      {nested : List LineTree}, readAll trees = .ok items →
      ⟨.markup, .mk line nested⟩ ∈ LineTree.forestPlaces rules .markup trees →
      ∃ own, read (.mk line nested) = .ok own ∧ Reaches own items)
    (compiled : compileWith dialect readAll source path = .ok output)
    (place : TextPlace rules text? source.toList line blamed words) :
    ∃ width template, templateOf (List.replicate width ' ' ++ words) = .ok template ∧
      ∃ depth opening closing,
        Text.LinePart (lineAt depth (opening ++ template ++ closing)) output.toList := by
  obtain ⟨trees, built, emitted⟩ := except_bind_eq_ok.mp (compileWith_eq_ok.mp compiled)
  obtain ⟨items, reads, emitted⟩ := except_bind_eq_ok.mp emitted
  have carried : ∃ width template, templateOf (List.replicate width ' ' ++ words) = .ok template ∧
      Holds (Item.Carries template) items := by
    cases place with
    | own placed text =>
        rw [LineTree.sourcePlaces, built] at placed
        obtain ⟨own, readsOwn, reachesOwn⟩ := reaches trees reads placed
        obtain ⟨markup, readsText⟩ := texts.own text
        obtain ⟨template, same, holds⟩ := readsText.carried reader markup readsOwn
        exact ⟨0, template, same, reachesOwn _ holds⟩
    | block placedHead taken inner =>
        rw [LineTree.sourcePlaces, built] at placedHead
        obtain ⟨own, readsOwn, reachesOwn⟩ := reaches trees reads placedHead
        obtain ⟨width, member⟩ := LineTree.raw_of_nested blamed inner
        obtain ⟨template, same, holds⟩ := (texts.block taken).carried member readsOwn
        exact ⟨width, template, same, reachesOwn _ holds⟩
  obtain ⟨width, template, same, holds⟩ := carried
  obtain ⟨item, depth, ownText, carries, emittedItem, part⟩ := holds.emitted emitted
  obtain ⟨opening, closing, rfl⟩ := carries.emitted emittedItem
  exact ⟨width, template, same, depth, opening, closing, part⟩

theorem compiled_writes {compiler : Compiler}
    (registered : Compilers.standard.compiler? dialect = some compiler)
    (ruled : lineRules? dialect = some rules) (textual : textRule? dialect = some text?)
    (compiled : compiler source path = .ok output)
    (place : TextPlace rules text? source.toList line blamed words) :
    ∃ width template, templateOf (List.replicate width ' ' ++ words) = .ok template ∧
      ∃ depth opening closing,
        Text.LinePart (lineAt depth (opening ++ template ++ closing)) output.toList := by
  cases dialect with
  | haml =>
      cases registered
      cases ruled
      cases textual
      exact compileWith_writes Haml.lineReader Haml.textReader Haml.reaches_forest compiled place
  | jade =>
      cases registered
      cases ruled
      cases textual
      exact compileWith_writes Jade.lineReader Jade.textReader Jade.reaches_forest compiled place
  | native => cases ruled

/-- An escaped mark with what follows it up to the end of an expression is written as it is, without
the escape, between what the texts around it are written as. -/
theorem escaped_mark_kept {compiler : Compiler}
    (registered : Compilers.standard.compiler? dialect = some compiler)
    (ruled : lineRules? dialect = some rules) (textual : textRule? dialect = some text?)
    (compiled : compiler source path = .ok output)
    (place : TextPlace rules text? source.toList line blamed
      (before ++ ('\\' :: exprOpen ++ (code ++ exprClose ++ after))))
    (passed : Passed before) (lacks : Text.Lacks exprOpen code) :
    ∃ first last, templateOf before = .ok first ∧ templateOf after = .ok last ∧
      ∃ depth opening closing, Text.LinePart
        (lineAt depth (opening ++ (first ++ (exprOpen ++ code ++ exprClose) ++ last) ++ closing))
        output.toList := by
  obtain ⟨width, template, same, depth, opening, closing, part⟩ :=
    compiled_writes registered ruled textual compiled place
  rw [← List.append_assoc] at same
  obtain ⟨first, last, readsFirst, readsLast, rfl⟩ :=
    templateOf_around (passed.indented width) lacks same
  rw [templateOf_indented] at readsFirst
  obtain ⟨first, readsBefore, rfl⟩ := of_map_ok readsFirst
  exact ⟨first, last, readsBefore, readsLast, depth, opening ++ List.replicate width ' ', closing,
    by simpa using part⟩

/-- An escaped mark between two expressions, in a line that is taken as text. -/
theorem escaped_mark_in_text_block : ∃ output depth opening closing,
    compileJade "p.\n  a\n    #\x7bx\x7d \\#\x7by\x7d #\x7bz\x7d" (.ofString "views/a.jade") =
        .ok output ∧
      Text.LinePart (lineAt depth (opening ++
        ("<%= x %> ".toList ++ "#\x7by\x7d".toList ++ " <%= z %>".toList) ++ closing))
        output.toList := by
  let source := "p.\n  a\n    #\x7bx\x7d \\#\x7by\x7d #\x7bz\x7d"
  have placed : ((LineTree.sourcePlaces Jade.lineRules source.toList).any fun placed =>
      placed.context == .markup && (Jade.within placed.tree.line == .text &&
        (LineTree.forestPlaces Jade.lineRules .text placed.tree.nested).any fun inner =>
          inner.tree.line.text == "#\x7bx\x7d \\#\x7by\x7d #\x7bz\x7d".toList)) = true := by
    decide +kernel
  have compiles : (compileJade source (.ofString "views/a.jade")).toBool = true := by
    decide +kernel
  obtain ⟨⟨context, head, nested⟩, member, is⟩ := List.any_eq_true.mp placed
  obtain ⟨markup, is⟩ := Bool.and_eq_true_iff.mp is
  obtain ⟨taken, is⟩ := Bool.and_eq_true_iff.mp is
  obtain ⟨inner, within, text⟩ := List.any_eq_true.mp is
  cases beq_iff_eq.mp markup
  obtain ⟨output, compiled⟩ := Outcome.of_toBool compiles
  have whole : inner.tree.line.text = "#\x7bx\x7d ".toList ++
      ('\\' :: exprOpen ++ ("y".toList ++ exprClose ++ " #\x7bz\x7d".toList)) :=
    (beq_iff_eq.mp text).trans (by decide)
  have place : TextPlace Jade.lineRules Jade.text? source.toList inner.tree.line head
      inner.tree.line.text := .block member (beq_iff_eq.mp taken) within
  rw [whole] at place
  have passed : Passed "#\x7bx\x7d ".toList :=
    @Passed.expr "x".toList _ (by decide) (passed_of_lacks (by decide))
  obtain ⟨first, last, readsFirst, readsLast, depth, opening, closing, part⟩ :=
    @escaped_mark_kept _ _ _ Jade.lineRules Jade.text? inner.tree.line .jade source _ output head
      _ rfl rfl rfl compiled place passed
      (lacks_of_lexed (by decide +kernel) (List.forall_mem_singleton.mpr (by decide)))
  have expectFirst : (templateOf "#\x7bx\x7d ".toList).toOption = some "<%= x %> ".toList := by
    decide +kernel
  have expectLast : (templateOf " #\x7bz\x7d".toList).toOption = some " <%= z %>".toList := by
    decide +kernel
  rw [readsFirst] at expectFirst
  rw [readsLast] at expectLast
  cases expectFirst
  cases expectLast
  exact ⟨output, depth, opening, closing, compiled, part⟩

/-- In a quoted value an escaped mark is unescaped before the value is looked through, and opens an
expression. -/
theorem escaped_mark_opens_in_quoted_value :
    (compileHaml "%p(a=\"\\#\x7bx\x7d\")" (.ofString "views/a.haml")).toOption =
        some "<p a=\"<%= x %>\"></p>\n" ∧
      ¬"#\x7bx\x7d".toList <:+: "<p a=\"<%= x %>\"></p>\n".toList ∧
      outputTag "x".toList <:+: "<p a=\"<%= x %>\"></p>\n".toList := by
  decide +kernel

end ThemeRender.Markup
