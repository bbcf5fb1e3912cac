import ThemeRender.Markup.Compiler
import ThemeRender.Proofs.Markup.Outline
import ThemeRender.Proofs.Markup.Words

namespace ThemeRender.Markup

open Outcome (except_bind_eq_ok of_map_ok)

/-! Haml -/

namespace Haml

/-- A line of text; a backslash before it is left out. -/
def plain? : List Char → Option (List Char)
  | '\\' :: rest => some rest
  | '!' :: '!' :: '!' :: _ | ':' :: _ | '/' :: _ | '=' :: _ | '-' :: _ => none
  | text => if startsElement text then none else some text

def remark? : List Char → Option (List Char)
  | '/' :: rest => some (Text.trim rest)
  | _ => none

def within (line : Line) : Context :=
  match line.text with
  | '-' :: '#' :: _ => .hidden
  | ':' :: _ => .copied
  | '!' :: '!' :: '!' :: _ => .dropped
  | _ => .markup

def lineRules : LineRules := ⟨within, plain?, remark?, isSilent⟩

theorem eq_of_isSilent {text : List Char} (silent : isSilent text = true) :
    ∃ rest, text = '-' :: '#' :: rest := by
  obtain ⟨rest, same⟩ := List.isPrefixOf_iff_prefix.mp silent
  exact ⟨rest, same.symm⟩

theorem eq_of_isFilter {text : List Char} (filter : isFilter text = true) :
    ∃ name, text = ':' :: name :=
  List.head?_eq_some_iff.mp (beq_iff_eq.mp filter)

theorem within_of_isFilter {line : Line} (filter : isFilter line.text = true) :
    within line = .copied := by
  obtain ⟨name, text⟩ := eq_of_isFilter filter
  rw [within, text]
  rfl

theorem within_of_shown {line : Line} (notSilent : ¬isSilent line.text = true)
    (notFilter : ¬isFilter line.text = true) (shown : within line ≠ .dropped) :
    within line = .markup := by
  unfold within at shown ⊢
  split
  · rename_i same
    rw [same] at notSilent
    exact absurd rfl notSilent
  · rename_i same
    rw [same] at notFilter
    exact absurd rfl notFilter
  · rename_i same
    rw [same] at shown
    exact absurd rfl shown
  · rfl

theorem nests_of_shown {line : Line} {raw : List (List Char)} {construct : Construct}
    (notFilter : ¬isFilter line.text = true) (shown : within line ≠ .dropped)
    (reads : readConstruct line raw = .ok construct) : construct.nests = true := by
  unfold readConstruct at reads
  split at reads
  · rename_i rest same
    rw [within, same] at shown
    exact absurd rfl shown
  · rename_i name same
    rw [same] at notFilter
    exact absurd rfl notFilter
  · obtain ⟨pieces, -, rfl⟩ := of_map_ok reads
    rfl
  · cases reads
    rfl
  · dsimp only at reads
    split at reads
    · cases reads
    · cases reads
      rfl
  · split at reads
    · cases reads
    · cases reads
      exact Construct.nests_ofCode _
  · split at reads
    · obtain ⟨element, -, rfl⟩ := of_map_ok reads
      rfl
    · obtain ⟨pieces, -, rfl⟩ := of_map_ok reads
      rfl

theorem readConstruct_of_plain {line : Line} {words : List Char}
    (plain : plain? line.text = some words) (raw : List (List Char)) :
    readConstruct line raw = (line.check (interpolate words)).map .text := by
  unfold plain? at plain
  split at plain
  all_goals try contradiction
  · rename_i rest same
    cases plain
    rw [readConstruct, same]
    rfl
  · split at plain
    · cases plain
    · rename_i notElement
      cases plain
      unfold readConstruct
      split
      case h_7 => rw [if_neg notElement]
      all_goals
        exfalso
        solve_by_elim

theorem readConstruct_of_remark {line : Line} {words : List Char}
    (remark : remark? line.text = some words) (raw : List (List Char)) :
    readConstruct line raw = .ok (.comment words) := by
  unfold remark? at remark
  split at remark
  · rename_i rest same
    cases remark
    rw [readConstruct, same]
    rfl
  · cases remark

theorem filterLines_part {name : List Char} {body lines : List (List Char)}
    (reads : filterLines name body = .ok lines) : body <:+: lines ∨ indented body <:+: lines := by
  have within {opening closing : List Char} :
      indented body <:+: opening :: indented body ++ [closing] :=
    List.infix_append [opening] _ [closing]
  unfold filterLines at reads
  dsimp only at reads
  split at reads
  · cases reads
    exact .inl List.infix_rfl
  · split at reads
    · cases reads
      exact .inr within
    · split at reads
      · cases reads
        exact .inr within
      · cases reads

theorem filterLines_keeps {name text : List Char} {body lines : List (List Char)}
    (reads : filterLines name body = .ok lines) (member : text ∈ body) :
    ∃ whole ∈ lines, text <:+: whole := by
  rcases filterLines_part reads with part | part
  · exact ⟨text, part.subset member, List.infix_rfl⟩
  · refine ⟨' ' :: ' ' :: text, part.subset (List.mem_map_of_mem member), ?_⟩
    exact (List.suffix_append [' ', ' '] text).isInfix

theorem tells_nothing {line : Line} {nested : List LineTree} (silent : isSilent line.text = true)
    {placed : Placed} {words : List Char}
    (member : placed ∈ LineTree.places lineRules .markup (.mk line nested)) :
    ¬placed.Tells lineRules words := by
  intro tells
  obtain ⟨rest, text⟩ := eq_of_isSilent silent
  rw [LineTree.places] at member
  rcases List.mem_cons.mp member with rfl | inner
  · cases tells with
    | plain plain =>
        rw [text] at plain
        cases plain
    | remark remark =>
        rw [text] at remark
        cases remark
  · have hidden : within line = .hidden := by
      rw [within, text]
      rfl
    exact (LineTree.shown_of_nested inner tells).1 hidden

theorem readForest_silent {trees : List LineTree}
    (silent : ∀ tree ∈ trees, isSilent tree.line.text = true) : readForest trees = .ok [] := by
  induction trees with
  | nil => rfl
  | cons tree rest ih =>
      obtain ⟨line, nested⟩ := tree
      rw [List.forall_mem_cons] at silent
      obtain ⟨text, starts⟩ : ∃ text, line.text = '-' :: '#' :: text := eq_of_isSilent silent.1
      rw [readForest, readTree_silent starts, ih silent.2]
      rfl

theorem writes_line {line : Line} {nested : List LineTree} {construct : Construct}
    {inside : List Item} {words : List Char}
    (reads : readConstruct line (LineTree.rawNested (.mk line nested)) = .ok construct)
    (readsNested : readForest nested = .ok inside)
    (tells : Placed.Tells lineRules words ⟨.markup, .mk line nested⟩) :
    Writes words [.ofLine line construct inside] := by
  cases tells with
  | plain plain lacks =>
      rw [readConstruct_of_plain plain] at reads
      obtain ⟨pieces, checks, rfl⟩ := of_map_ok reads
      exact writes_text (templateOfPieces_interpolate lacks checks)
  | remark remark alone =>
      rw [readForest_silent alone] at readsNested
      cases readsNested
      rw [readConstruct_of_remark remark] at reads
      cases reads
      exact .here .comment

theorem writes_filter {line : Line} {nested : List LineTree} {construct : Construct}
    {placed : Placed} {words : List Char} (filter : isFilter line.text = true)
    (reads : readConstruct line (LineTree.rawNested (.mk line nested)) = .ok construct)
    (member : placed ∈ ⟨.markup, .mk line nested⟩ ::
      LineTree.forestPlaces lineRules (within line) nested)
    (tells : placed.Tells lineRules words) : Writes words [.ofLine line construct []] := by
  obtain ⟨name, text⟩ := eq_of_isFilter filter
  rcases List.mem_cons.mp member with rfl | inner
  · cases tells with
    | plain plain =>
        rw [text] at plain
        cases plain
    | remark remark =>
        rw [text] at remark
        cases remark
  · rw [within_of_isFilter filter] at inner
    obtain ⟨-, width, raw⟩ := LineTree.raw_of_tells Context.noConfusion line inner tells
    unfold readConstruct at reads
    rw [text] at reads
    obtain ⟨lines, checks, rfl⟩ := of_map_ok reads
    obtain ⟨whole, within, part⟩ := filterLines_keeps (of_check checks) raw
    exact .here (.raw within ((List.suffix_append _ words).isInfix.trans part))

mutual

theorem reaches_tree : ∀ (tree : LineTree) {items : List Item} {line : Line}
    {nested : List LineTree}, readTree tree = .ok items →
    ⟨.markup, .mk line nested⟩ ∈ LineTree.places lineRules .markup tree →
    ∃ own, readTree (.mk line nested) = .ok own ∧ Reaches own items
  | .mk top below, items, line, nested, reads, member => by
      rw [LineTree.places] at member
      rcases List.mem_cons.mp member with root | inner
      · cases root
        exact ⟨items, reads, fun _ => id⟩
      · change _ ∈ LineTree.forestPlaces lineRules (within top) below at inner
        have markup : within top = .markup := LineTree.markup_of_forestPlaces inner
        rw [markup] at inner
        rw [readTree] at reads
        split at reads
        · rename_i silent
          obtain ⟨rest, text⟩ := eq_of_isSilent silent
          rw [within, text] at markup
          cases markup
        · obtain ⟨construct, readsConstruct, reads⟩ := except_bind_eq_ok.mp reads
          split at reads
          · rename_i filter
            rw [within_of_isFilter filter] at markup
            cases markup
          · rename_i notFilter
            obtain ⟨inside, readsNested, same⟩ := except_bind_eq_ok.mp reads
            cases same
            have shown : within top ≠ .dropped := by
              rw [markup]
              exact Context.noConfusion
            obtain ⟨own, readsOwn, reaches⟩ := reaches_forest below readsNested inner
            refine ⟨own, readsOwn, fun Is holds => ?_⟩
            exact .inside (nests_of_shown notFilter shown readsConstruct) (reaches Is holds)

theorem reaches_forest : ∀ (trees : List LineTree) {items : List Item} {line : Line}
    {nested : List LineTree}, readForest trees = .ok items →
    ⟨.markup, .mk line nested⟩ ∈ LineTree.forestPlaces lineRules .markup trees →
    ∃ own, readTree (.mk line nested) = .ok own ∧ Reaches own items
  | [], items, line, nested, reads, member => by cases member
  | tree :: rest, items, line, nested, reads, member => by
      rw [readForest] at reads
      obtain ⟨first, readsFirst, reads⟩ := except_bind_eq_ok.mp reads
      obtain ⟨more, readsMore, same⟩ := except_bind_eq_ok.mp reads
      cases same
      rcases List.mem_append.mp member with before | later
      · obtain ⟨own, readsOwn, reaches⟩ := reaches_tree tree readsFirst before
        exact ⟨own, readsOwn, reaches.append_right more⟩
      · obtain ⟨own, readsOwn, reaches⟩ := reaches_forest rest readsMore later
        exact ⟨own, readsOwn, reaches.append_left first⟩

end

theorem writes_own {line : Line} {nested : List LineTree} {own : List Item} {placed : Placed}
    {words : List Char} (reads : readTree (.mk line nested) = .ok own)
    (taken : placed.Taken lineRules line nested) (tells : placed.Tells lineRules words) :
    Writes words own := by
  have member := taken.member
  rw [readTree] at reads
  split at reads
  · rename_i silent
    exact absurd tells (tells_nothing silent member)
  · rename_i notSilent
    obtain ⟨construct, readsConstruct, reads⟩ := except_bind_eq_ok.mp reads
    split at reads
    · rename_i filter
      cases reads
      exact writes_filter filter readsConstruct member tells
    · rename_i notFilter
      obtain ⟨inside, readsNested, same⟩ := except_bind_eq_ok.mp reads
      cases same
      cases taken with
      | own => exact writes_line readsConstruct readsNested tells
      | inside other inner =>
          have shown := (LineTree.shown_of_nested inner tells).2
          exact absurd (within_of_shown notSilent notFilter shown) other

end Haml

/-! Jade -/

namespace Jade

def plain? : List Char → Option (List Char)
  | '|' :: ' ' :: rest => some rest
  | '|' :: rest => some rest
  | '<' :: rest => some ('<' :: rest)
  | _ => none

def remark? : List Char → Option (List Char)
  | '/' :: '/' :: '-' :: _ => none
  | '/' :: '/' :: rest => some (Text.trim rest)
  | _ => none

/-- How what is nested in an element is read. A dot after the head makes it text. -/
def Head.within (head : Head) : Context :=
  if head.rest = ['.'] then
    if rawTextTags.contains head.tag then .copied else .text
  else .markup

theorem Head.within_of_dot {head : Head} (dot : head.rest = ['.']) :
    head.within ≠ .markup ∧ (head.tag ∉ rawTextTags → head.within = .text) := by
  unfold Head.within
  rw [if_pos dot]
  refine ⟨?_, fun notRaw => if_neg fun raw => notRaw (List.contains_iff_mem.mp raw)⟩
  split <;> exact Context.noConfusion

theorem Head.taken_of_dot {head : Head} (dot : head.rest = ['.']) :
    head.within = .text ∨ head.within = .copied := by
  rw [Head.within, if_pos dot]
  split
  · exact .inr rfl
  · exact .inl rfl

def withinShown (line : Line) : Context :=
  match readSimple line, readHead line with
  | .ok (some (.doctype _)), _ => .dropped
  | .ok none, .ok head => head.within
  | _, _ => .markup

def within (line : Line) : Context :=
  match line.text with
  | '/' :: '/' :: '-' :: _ => .hidden
  | '/' :: '/' :: _ => .copied
  | _ => withinShown line

/-- A comment copies whatever is nested in it, so that it leaves out no line. -/
def lineRules : LineRules := ⟨within, plain?, remark?, fun _ => false⟩

theorem within_of_noComment {line : Line} (noComment : ∀ rest, line.text ≠ '/' :: '/' :: rest) :
    within line = withinShown line := by
  unfold within
  split
  · rename_i same
    exact absurd same (noComment _)
  · rename_i same
    exact absurd same (noComment _)
  · rfl

theorem within_of_comment {line : Line} {rest : List Char} (shown : ∀ after, rest ≠ '-' :: after)
    (text : line.text = '/' :: '/' :: rest) : within line = .copied := by
  unfold within
  split
  · rename_i same
    rw [text] at same
    cases same
    exact absurd rfl (shown _)
  · rfl
  · rename_i other
    exact absurd text (other _)

theorem remark_comment {text words : List Char} (remark : remark? text = some words) :
    ∃ rest, text = '/' :: '/' :: rest ∧ words = Text.trim rest := by
  unfold remark? at remark
  split at remark
  · cases remark
  · rename_i rest _
    cases remark
    exact ⟨rest, rfl, rfl⟩
  · cases remark

theorem readSimple_of_plain {line : Line} {words : List Char}
    (plain : plain? line.text = some words) :
    readSimple line = (line.check (interpolate words)).map (some <| .text ·) := by
  unfold plain? at plain
  split at plain
  · rename_i rest same
    cases plain
    rw [readSimple, same]
    rfl
  · rename_i rest noBlank same
    cases plain
    unfold readSimple
    split
    case h_1 =>
      rename_i other
      rw [same] at other
      cases other
      exact absurd rfl (noBlank _)
    case h_2 =>
      rename_i other
      rw [same] at other
      cases other
      rfl
    all_goals simp_all
  · rename_i rest same
    cases plain
    rw [readSimple, same]
    rfl
  · cases plain

theorem readSimple_cases {line : Line} {construct : Construct}
    (simple : readSimple line = .ok (some construct)) :
    (∃ pieces, construct = .text pieces) ∨ (∃ code, construct = .output code) ∨
      (∃ code, construct = .ofCode code) ∨ construct = .control .elseBegin ∨
      ∃ kind, construct = .doctype kind := by
  unfold readSimple at simple
  split at simple
  · obtain ⟨pieces, -, same⟩ := of_map_ok simple
    cases same
    exact .inl ⟨pieces, rfl⟩
  · obtain ⟨pieces, -, same⟩ := of_map_ok simple
    cases same
    exact .inl ⟨pieces, rfl⟩
  · obtain ⟨pieces, -, same⟩ := of_map_ok simple
    cases same
    exact .inl ⟨pieces, rfl⟩
  · obtain ⟨code, -, same⟩ := of_map_ok simple
    cases same
    exact .inr (.inl ⟨code, rfl⟩)
  · split at simple
    · cases simple
    · cases simple
      exact .inr (.inr (.inl ⟨_, rfl⟩))
  · unfold readKeyword at simple
    dsimp only at simple
    split at simple
    · cases simple
      exact .inr (.inr (.inr (.inr ⟨_, rfl⟩)))
    · split at simple
      · cases simple
        exact .inr (.inr (.inr (.inl rfl)))
      · split at simple
        · split at simple
          · cases simple
          · cases simple
            exact .inr (.inr (.inl ⟨_, rfl⟩))
        · cases simple

theorem nests_of_readSimple {line : Line} {construct : Construct}
    (simple : readSimple line = .ok (some construct)) :
    construct.nests = true ∨ ∃ kind, construct = .doctype kind := by
  rcases readSimple_cases simple with ⟨_, rfl⟩ | ⟨_, rfl⟩ | ⟨_, rfl⟩ | rfl | kind
  · exact .inl rfl
  · exact .inl rfl
  · exact .inl (Construct.nests_ofCode _)
  · exact .inl rfl
  · exact .inr kind

theorem within_of_nests {line : Line} {construct : Construct}
    (noComment : ∀ rest, line.text ≠ '/' :: '/' :: rest)
    (simple : readSimple line = .ok (some construct)) (nests : construct.nests = true) :
    within line = .markup := by
  rw [within_of_noComment noComment, withinShown, simple]
  cases construct <;> first | rfl | cases nests

theorem within_of_simple {line : Line} {construct : Construct}
    (noComment : ∀ rest, line.text ≠ '/' :: '/' :: rest)
    (simple : readSimple line = .ok (some construct)) :
    construct.nests = true ∧ within line = .markup ∨ within line = .dropped := by
  rcases nests_of_readSimple simple with nests | ⟨kind, rfl⟩
  · exact .inl ⟨nests, within_of_nests noComment simple nests⟩
  · rw [within_of_noComment noComment, withinShown, simple]
    exact .inr rfl

theorem within_of_head {line : Line} {head : Head}
    (noComment : ∀ rest, line.text ≠ '/' :: '/' :: rest) (noSimple : readSimple line = .ok none)
    (reads : readHead line = .ok head) : within line = head.within := by
  rw [within_of_noComment noComment, withinShown, noSimple, reads]

theorem not_tells_markup {line : Line} {nested : List LineTree} {words : List Char}
    (noComment : ∀ rest, line.text ≠ '/' :: '/' :: rest)
    (noSimple : readSimple line = .ok none) :
    ¬Placed.Tells lineRules words ⟨.markup, .mk line nested⟩ := by
  rintro (⟨plain, -⟩ | remark)
  · rw [readSimple_of_plain plain] at noSimple
    obtain ⟨pieces, -, same⟩ := of_map_ok noSimple
    cases same
  · obtain ⟨rest, text, -⟩ := remark_comment remark
    exact noComment rest text

theorem writes_line {line : Line} {nested : List LineTree} {construct : Construct}
    {inside : List Item} {words : List Char}
    (noComment : ∀ rest, line.text ≠ '/' :: '/' :: rest)
    (simple : readSimple line = .ok (some construct))
    (tells : Placed.Tells lineRules words ⟨.markup, .mk line nested⟩) :
    Writes words [.ofLine line construct inside] := by
  cases tells with
  | plain plain lacks =>
      rw [readSimple_of_plain plain] at simple
      obtain ⟨pieces, checks, same⟩ := of_map_ok simple
      cases same
      exact writes_text (templateOfPieces_interpolate lacks checks)
  | remark remark =>
      obtain ⟨rest, text, -⟩ := remark_comment remark
      exact absurd text (noComment rest)

theorem tells_nothing {line : Line} {nested : List LineTree} {rest : List Char}
    (text : line.text = '/' :: '/' :: '-' :: rest) {placed : Placed} {words : List Char}
    (member : placed ∈ ⟨.markup, .mk line nested⟩ ::
      LineTree.forestPlaces lineRules (within line) nested) :
    ¬placed.Tells lineRules words := by
  intro tells
  rcases List.mem_cons.mp member with rfl | inner
  · cases tells with
    | plain plain =>
        rw [text] at plain
        cases plain
    | remark remark =>
        rw [text] at remark
        cases remark
  · have hidden : within line = .hidden := by
      rw [within, text]
      rfl
    exact (LineTree.shown_of_nested inner tells).1 hidden

theorem writes_comment {line : Line} {nested : List LineTree} {rest : List Char}
    (text : line.text = '/' :: '/' :: rest) {placed : Placed} {words : List Char}
    (shown : ∀ after, rest ≠ '-' :: after)
    (member : placed ∈ ⟨.markup, .mk line nested⟩ ::
      LineTree.forestPlaces lineRules (within line) nested)
    (tells : placed.Tells lineRules words) :
    Writes words [readComment line rest (LineTree.rawNested (.mk line nested))] := by
  rcases List.mem_cons.mp member with rfl | inner
  · cases tells with
    | plain plain =>
        rw [text] at plain
        cases plain
    | remark remark alone =>
        obtain ⟨after, same, rfl⟩ := remark_comment remark
        rw [text] at same
        cases same
        cases nested with
        | nil => exact .here .comment
        | cons first others => cases alone first List.mem_cons_self
  · rw [within_of_comment shown text] at inner
    obtain ⟨-, width, raw⟩ := LineTree.raw_of_tells Context.noConfusion line inner tells
    have busy : (LineTree.rawNested (.mk line nested)).isEmpty = false := by
      cases same : LineTree.rawNested (.mk line nested) with
      | nil =>
          rw [same] at raw
          cases raw
      | cons first others => rfl
    unfold readComment
    rw [busy]
    exact .inside rfl (.here (.raw raw (List.suffix_append _ words).isInfix))

theorem writes_textBlock {line : Line} {tag : List Char} {body : List (List Char)}
    {items : List Item} {words : List Char} {width : Nat}
    (reads : readTextBlock line tag body = .ok items)
    (member : List.replicate width ' ' ++ words ∈ body)
    (lacks : tag ∉ rawTextTags → Text.Lacks exprOpen words) : Writes words items := by
  have part : words <:+: List.replicate width ' ' ++ words := (List.suffix_append _ words).isInfix
  unfold readTextBlock at reads
  split at reads
  · cases reads
    exact .here (.raw member part)
  · rename_i notRaw
    have lacksAll : Text.Lacks exprOpen (List.replicate width ' ' ++ words) := by
      apply Text.Lacks.append _ (lacks notRaw)
      · left
        intro last
        exact Text.not_mem_blanks (by decide) _ (List.mem_of_getLast? last)
      · exact Text.lacks_of_not_mem (Text.not_mem_blanks (by decide) _)
    induction body generalizing items with
    | nil => cases member
    | cons text rest ih =>
        rw [List.mapM_cons] at reads
        obtain ⟨item, readsItem, reads⟩ := except_bind_eq_ok.mp reads
        obtain ⟨more, readsMore, same⟩ := except_bind_eq_ok.mp reads
        cases same
        rcases List.mem_cons.mp member with rfl | later
        · obtain ⟨pieces, checks, rfl⟩ := of_map_ok readsItem
          rw [← templateOfPieces_interpolate lacksAll checks] at part
          exact .here (.text part)
        · exact .after (ih later readsMore)

mutual

theorem reaches_tree : ∀ (tree : LineTree) {items : List Item} {line : Line}
    {nested : List LineTree}, readTree tree = .ok items →
    ⟨.markup, .mk line nested⟩ ∈ LineTree.places lineRules .markup tree →
    ∃ own, readTree (.mk line nested) = .ok own ∧ Reaches own items
  | .mk top below, items, line, nested, reads, member => by
      rw [LineTree.places] at member
      rcases List.mem_cons.mp member with root | inner
      · cases root
        exact ⟨items, reads, fun _ => id⟩
      · change _ ∈ LineTree.forestPlaces lineRules (within top) below at inner
        have markup : within top = .markup := LineTree.markup_of_forestPlaces inner
        rw [markup] at inner
        rw [readTree.eq_def] at reads
        dsimp only at reads
        split at reads
        · rename_i text
          rw [within, text] at markup
          cases markup
        · rename_i rest shown text
          rw [within_of_comment shown text] at markup
          cases markup
        · rename_i notHidden noComment
          obtain ⟨construct?, simple, reads⟩ := except_bind_eq_ok.mp reads
          cases construct? with
          | some construct =>
              obtain ⟨inside, readsNested, same⟩ := except_bind_eq_ok.mp reads
              cases same
              obtain ⟨own, readsOwn, reaches⟩ := reaches_forest below readsNested inner
              refine ⟨own, readsOwn, fun Is holds => ?_⟩
              rcases within_of_simple noComment simple with ⟨nests, -⟩ | dropped
              · exact .inside nests (reaches Is holds)
              · cases markup.symm.trans dropped
          | none =>
              dsimp only at reads
              split at reads
              · obtain ⟨head, readsHead, reads⟩ := except_bind_eq_ok.mp reads
                rw [within_of_head noComment simple readsHead] at markup
                split at reads
                · rename_i dot
                  exact absurd markup (Head.within_of_dot dot).1
                · obtain ⟨element, -, reads⟩ := except_bind_eq_ok.mp reads
                  obtain ⟨inside, readsNested, same⟩ := except_bind_eq_ok.mp reads
                  cases same
                  obtain ⟨own, readsOwn, reaches⟩ := reaches_forest below readsNested inner
                  exact ⟨own, readsOwn, fun Is holds => .inside rfl (reaches Is holds)⟩
              · cases reads

theorem reaches_forest : ∀ (trees : List LineTree) {items : List Item} {line : Line}
    {nested : List LineTree}, readForest trees = .ok items →
    ⟨.markup, .mk line nested⟩ ∈ LineTree.forestPlaces lineRules .markup trees →
    ∃ own, readTree (.mk line nested) = .ok own ∧ Reaches own items
  | [], items, line, nested, reads, member => by cases member
  | tree :: rest, items, line, nested, reads, member => by
      rw [readForest] at reads
      obtain ⟨first, readsFirst, reads⟩ := except_bind_eq_ok.mp reads
      obtain ⟨more, readsMore, same⟩ := except_bind_eq_ok.mp reads
      cases same
      rcases List.mem_append.mp member with before | later
      · obtain ⟨own, readsOwn, reaches⟩ := reaches_tree tree readsFirst before
        exact ⟨own, readsOwn, reaches.append_right more⟩
      · obtain ⟨own, readsOwn, reaches⟩ := reaches_forest rest readsMore later
        exact ⟨own, readsOwn, reaches.append_left first⟩

end

theorem writes_own {line : Line} {nested : List LineTree} {own : List Item} {placed : Placed}
    {words : List Char} (reads : readTree (.mk line nested) = .ok own)
    (taken : placed.Taken lineRules line nested) (tells : placed.Tells lineRules words) :
    Writes words own := by
  have member := taken.member
  rw [readTree.eq_def] at reads
  dsimp only at reads
  split at reads
  · rename_i text
    exact absurd tells (tells_nothing text member)
  · rename_i rest shown text
    cases reads
    exact writes_comment text shown member tells
  · rename_i notHidden noComment
    obtain ⟨construct?, simple, reads⟩ := except_bind_eq_ok.mp reads
    cases construct? with
    | some construct =>
        obtain ⟨inside, readsNested, same⟩ := except_bind_eq_ok.mp reads
        cases same
        cases taken with
        | own => exact writes_line noComment simple tells
        | inside other inner =>
            rcases within_of_simple noComment simple with ⟨-, markup⟩ | dropped
            · exact absurd markup other
            · exact absurd dropped (LineTree.shown_of_nested inner tells).2
    | none =>
        cases taken with
        | own => exact absurd tells (not_tells_markup noComment simple)
        | inside other inner =>
            dsimp only at reads
            split at reads
            · obtain ⟨head, readsHead, reads⟩ := except_bind_eq_ok.mp reads
              change within line ≠ .markup at other
              change placed ∈ LineTree.forestPlaces lineRules (within line) nested at inner
              rw [within_of_head noComment simple readsHead] at other inner
              split at reads
              · rename_i dot
                obtain ⟨body, readsBody, same⟩ := except_bind_eq_ok.mp reads
                cases same
                have block := Head.within_of_dot dot
                obtain ⟨same, width, raw⟩ := LineTree.raw_of_tells block.1 line inner tells
                exact .inside rfl (writes_textBlock readsBody raw fun notRaw =>
                  tells.lacks (same.trans (block.2 notRaw)))
              · rename_i noDot
                exact absurd (if_neg noDot) other
            · cases reads

end Jade

/-! Whole sources -/

def lineRules? : Dialect → Option LineRules
  | .haml => some Haml.lineRules
  | .jade => some Jade.lineRules
  | .native => none

variable {dialect : Dialect} {rules : LineRules} {source : String} {path : Path} {output : String}

theorem compileWith_tells {read : LineTree → Except Complaint (List Item)}
    {readAll : List LineTree → Except Complaint (List Item)}
    (reaches : ∀ (trees : List LineTree) {items : List Item} {line : Line}
      {nested : List LineTree}, readAll trees = .ok items →
      ⟨.markup, .mk line nested⟩ ∈ LineTree.forestPlaces rules .markup trees →
      ∃ own, read (.mk line nested) = .ok own ∧ Reaches own items)
    (writes : ∀ {line : Line} {nested : List LineTree} {own : List Item} {placed : Placed}
      {words : List Char}, read (.mk line nested) = .ok own → placed.Taken rules line nested →
      placed.Tells rules words → Writes words own)
    (compiled : compileWith dialect readAll source path = .ok output) :
    (LineTree.sourcePlaces rules source.toList).map (·.tree.line.text) =
        busyLines source.toList ∧
      ∀ placed ∈ LineTree.sourcePlaces rules source.toList, ∀ words,
        placed.Tells rules words → words <:+: output.toList := by
  obtain ⟨trees, built, emitted⟩ := except_bind_eq_ok.mp (compileWith_eq_ok.mp compiled)
  obtain ⟨items, reads, emitted⟩ := except_bind_eq_ok.mp emitted
  refine ⟨LineTree.texts_sourcePlaces built, ?_⟩
  intro placed member words tells
  rw [LineTree.sourcePlaces, built] at member
  obtain ⟨line, nested, found, taken⟩ := LineTree.own_of_forestPlaces trees placed member
  obtain ⟨own, readsOwn, reachesOwn⟩ := reaches trees reads found
  exact Writes.emitted (reachesOwn _ (writes readsOwn taken tells)) emitted

/-- Every line of a compiled source that is not blank has a place, and the words it tells there are
part of the template. No line under a document type tells anything, and neither does a comment that
other lines are nested in; nothing else is left out, apart from silent comments. -/
theorem compiled_tells_lines {compiler : Compiler}
    (registered : Compilers.standard.compiler? dialect = some compiler)
    (ruled : lineRules? dialect = some rules) (compiled : compiler source path = .ok output) :
    (LineTree.sourcePlaces rules source.toList).map (·.tree.line.text) =
        busyLines source.toList ∧
      ∀ placed ∈ LineTree.sourcePlaces rules source.toList, ∀ words,
        placed.Tells rules words → words <:+: output.toList := by
  cases dialect with
  | haml =>
      cases registered
      cases ruled
      exact compileWith_tells Haml.reaches_forest Haml.writes_own compiled
  | jade =>
      cases registered
      cases ruled
      exact compileWith_tells Jade.reaches_forest Jade.writes_own compiled
  | native => cases ruled

/-- The text in a paragraph is part of the template. -/
theorem paragraph_tells_text : ∃ output,
    compileHaml "%p\n  Hello\n/ note" (.ofString "views/a.haml") = .ok output ∧
      "Hello".toList <:+: output.toList := by
  have compiles : (compileHaml "%p\n  Hello\n/ note" (.ofString "views/a.haml")).toBool = true := by
    decide +kernel
  have placed : ((LineTree.sourcePlaces Haml.lineRules "%p\n  Hello\n/ note".toList).any
      fun placed => placed.context == .markup &&
        Haml.plain? placed.tree.line.text == some "Hello".toList) = true := by
    decide +kernel
  cases compiled : compileHaml "%p\n  Hello\n/ note" (.ofString "views/a.haml") with
  | error error =>
      rw [compiled] at compiles
      cases compiles
  | ok output =>
      obtain ⟨⟨context, line, nested⟩, member, is⟩ := List.any_eq_true.mp placed
      obtain ⟨markup, reads⟩ := Bool.and_eq_true_iff.mp is
      cases beq_iff_eq.mp markup
      have tells : Placed.Tells Haml.lineRules "Hello".toList ⟨.markup, .mk line nested⟩ :=
        .plain (beq_iff_eq.mp reads) (by decide)
      have kept := @compiled_tells_lines .haml _ _ _ _ _ rfl rfl compiled
      exact ⟨output, rfl, kept.2 _ member _ tells⟩

/-- Text under a document type is left out, and so are the words of a comment over other lines. -/
theorem doctype_and_comment_leave_out_words :
    Haml.plain? "hello".toList = some "hello".toList ∧
      (compileHaml "!!!\n  hello" (.ofString "views/a.haml")).toOption =
        some "<!DOCTYPE html>\n" ∧
      ¬"hello".toList <:+: "<!DOCTYPE html>\n".toList ∧
      Jade.remark? "// note".toList = some "note".toList ∧
      (compileJade "// note\n  hello" (.ofString "views/a.jade")).toOption =
        some "<!--\n  hello\n-->\n" ∧
      ¬"note".toList <:+: "<!--\n  hello\n-->\n".toList := by
  decide +kernel

end ThemeRender.Markup
