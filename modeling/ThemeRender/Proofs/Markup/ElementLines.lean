import ThemeRender.Proofs.Markup.Correctness
import ThemeRender.Proofs.Markup.KeptLines
import ThemeRender.Proofs.Markup.TextLines

namespace ThemeRender.Markup

open Outcome (except_bind_eq_ok of_map_ok)

/-! ## Items of a page -/

namespace Holds

variable {Is : Item → Prop} {items more : List Item}

theorem of_append (holds : Holds Is (items ++ more)) : Holds Is items ∨ Holds Is more := by
  induction items with
  | nil => exact .inr holds
  | cons item rest ih =>
      cases holds with
      | here is => exact .inl (.here is)
      | inside nests holds => exact .inl (.inside nests holds)
      | after holds => exact (ih holds).imp_left .after

theorem of_single {item : Item} (holds : Holds Is [item]) :
    Is item ∨ item.construct.nests = true ∧ Holds Is item.nested := by
  cases holds with
  | here is => exact .inl is
  | inside nests holds => exact .inr ⟨nests, holds⟩
  | after holds => cases holds

end Holds

def Item.IsElement (element : Element) (item : Item) : Prop :=
  item.construct = .element element

variable {line : Line} {nested : List LineTree} {element : Element}

theorem Construct.ofCode_ne_element (code : List Char) :
    Construct.ofCode code ≠ .element element := by
  unfold Construct.ofCode
  dsimp only
  split
  · exact Construct.noConfusion
  · split
    · exact Construct.noConfusion
    · split <;> exact Construct.noConfusion

theorem Holds.mem_constructsOf {items : List Item} (holds : Holds (Item.IsElement element) items) :
    .element element ∈ constructsOf items := by
  induction holds with
  | @here item rest is =>
      obtain ⟨construct, number, span, nested⟩ := item
      cases is
      exact List.mem_cons_self
  | inside _ _ ih => exact List.mem_append_left _ (List.mem_cons_of_mem _ ih)
  | after _ ih => exact List.mem_append_right _ ih

/-! ## Elements and their lines -/

section

variable {rules : LineRules} {alone : Line → Except Complaint Construct}
  {read : LineTree → Except Complaint (List Item)}
  {readAll : List LineTree → Except Complaint (List Item)} {OfLine : Line → Element → Prop}

/-- An element that a line is read as with what is nested in it is its own, or it is nested in it. -/
def ReadsElements (within : Line → Context) (OfLine : Line → Element → Prop)
    (read : LineTree → Except Complaint (List Item))
    (readAll : List LineTree → Except Complaint (List Item)) : Prop :=
  ∀ (line : Line) (nested : List LineTree) (items : List Item) (element : Element),
    read (.mk line nested) = .ok items → Holds (Item.IsElement element) items →
      OfLine line element ∨
        within line = .markup ∧
          ∃ inside, readAll nested = .ok inside ∧ Holds (Item.IsElement element) inside

namespace LineReader

mutual

theorem element_of_tree (reader : LineReader rules.within alone read readAll)
    (reads : ReadsElements rules.within OfLine read readAll) :
    ∀ (tree : LineTree) {items : List Item}, read tree = .ok items →
      Holds (Item.IsElement element) items →
      ∃ line nested, ⟨.markup, .mk line nested⟩ ∈ LineTree.places rules .markup tree ∧
        OfLine line element
  | .mk top below, items, readsTop, holds => by
      rcases reads top below items element readsTop holds with
        own | ⟨markup, inside, readsNested, holds⟩
      · exact ⟨top, below, List.mem_cons_self, own⟩
      · obtain ⟨line, nested, placed, own⟩ := element_of_forest reader reads below readsNested holds
        refine ⟨line, nested, List.mem_cons_of_mem _ ?_, own⟩
        change _ ∈ LineTree.forestPlaces rules (rules.within top) below
        rw [markup]
        exact placed

theorem element_of_forest (reader : LineReader rules.within alone read readAll)
    (reads : ReadsElements rules.within OfLine read readAll) :
    ∀ (trees : List LineTree) {items : List Item}, readAll trees = .ok items →
      Holds (Item.IsElement element) items →
      ∃ line nested, ⟨.markup, .mk line nested⟩ ∈ LineTree.forestPlaces rules .markup trees ∧
        OfLine line element
  | [], items, readsAll, holds => by
      rw [reader.nil] at readsAll
      cases readsAll
      cases holds
  | tree :: rest, items, readsAll, holds => by
      rw [reader.cons] at readsAll
      obtain ⟨first, readsFirst, readsAll⟩ := except_bind_eq_ok.mp readsAll
      obtain ⟨more, readsMore, same⟩ := except_bind_eq_ok.mp readsAll
      cases same
      rcases holds.of_append with before | later
      · obtain ⟨line, nested, placed, own⟩ := element_of_tree reader reads tree readsFirst before
        exact ⟨line, nested, List.mem_append_left _ placed, own⟩
      · obtain ⟨line, nested, placed, own⟩ := element_of_forest reader reads rest readsMore later
        exact ⟨line, nested, List.mem_append_right _ placed, own⟩

end

end LineReader

end

namespace Haml

theorem readElement_of_readConstruct {raw : List (List Char)}
    (reads : readConstruct line raw = .ok (.element element)) : readElement line = .ok element := by
  unfold readConstruct at reads
  split at reads
  · cases reads
  · obtain ⟨lines, -, same⟩ := of_map_ok reads
    cases same
  · obtain ⟨pieces, -, same⟩ := of_map_ok reads
    cases same
  · cases reads
  · dsimp only at reads
    split at reads <;> cases reads
  · split at reads
    · cases reads
    · exact absurd (Except.ok.inj reads) (Construct.ofCode_ne_element _)
  · split at reads
    · obtain ⟨found, readsElement, same⟩ := of_map_ok reads
      cases same
      exact readsElement
    · obtain ⟨pieces, -, same⟩ := of_map_ok reads
      cases same

theorem within_of_nests {raw : List (List Char)} {construct : Construct}
    (notSilent : ¬isSilent line.text = true) (notFilter : ¬isFilter line.text = true)
    (reads : readConstruct line raw = .ok construct) (nests : construct.nests = true) :
    within line = .markup := by
  apply within_of_shown notSilent notFilter
  intro dropped
  unfold within at dropped
  split at dropped
  case h_3 rest text =>
    rw [readConstruct, text] at reads
    cases reads
    cases nests
  all_goals cases dropped

theorem readsElements : ReadsElements within (fun line element => readElement line = .ok element)
    readTree readForest := by
  intro line nested items element reads holds
  rw [readTree] at reads
  split at reads
  · cases reads
    cases holds
  · rename_i notSilent
    obtain ⟨construct, readsConstruct, reads⟩ := except_bind_eq_ok.mp reads
    have own {inside : List Item} (is : Item.IsElement element (.ofLine line construct inside)) :
        readElement line = .ok element := by
      cases is
      exact readElement_of_readConstruct readsConstruct
    split at reads
    · cases reads
      rcases holds.of_single with is | ⟨-, holds⟩
      · exact .inl (own is)
      · cases holds
    · rename_i notFilter
      obtain ⟨inside, readsNested, same⟩ := except_bind_eq_ok.mp reads
      cases same
      rcases holds.of_single with is | ⟨nests, holds⟩
      · exact .inl (own is)
      · have markup := within_of_nests notSilent notFilter readsConstruct nests
        exact .inr ⟨markup, inside, readsNested, holds⟩

end Haml

namespace Jade

structure Head.Starts (head : Head) (element : Element) : Prop where
  tag : element.tag = head.tag
  shorthands : element.shorthands = head.shorthands
  attrs : element.attrs = head.attrs

theorem Head.starts_of_readElement {head : Head} (reads : readElement line head = .ok element) :
    head.Starts element := by
  rw [readElement_eq] at reads
  obtain ⟨inline, -, rfl⟩ := of_map_ok reads
  exact ⟨rfl, rfl, rfl⟩

theorem tag_of_readHead {head : Head} (reads : readHead line = .ok head) :
    head.tag = if (line.text.takeWhile isNameChar).isEmpty then "div".toList
      else line.text.takeWhile isNameChar := by
  rw [readHead_eq] at reads
  obtain ⟨found, -, reads⟩ := except_bind_eq_ok.mp reads
  obtain ⟨attrs, -, same⟩ := except_bind_eq_ok.mp reads
  cases same
  rfl

theorem simple_of_readTree {own : List Item} (noComment : ∀ rest, line.text ≠ '/' :: '/' :: rest)
    (reads : readTree (.mk line nested) = .ok own) : ∃ found, readSimple line = .ok found := by
  rw [readTree.eq_def] at reads
  dsimp only at reads
  split at reads
  · rename_i text
    exact absurd text (noComment _)
  · rename_i text
    exact absurd text (noComment _)
  · obtain ⟨found, simple, -⟩ := except_bind_eq_ok.mp reads
    exact ⟨found, simple⟩

theorem readTree_element {own : List Item} (noComment : ∀ rest, line.text ≠ '/' :: '/' :: rest)
    (noSimple : readSimple line = .ok none) (reads : readTree (.mk line nested) = .ok own) :
    ∃ head element inside, readHead line = .ok head ∧ head.Starts element ∧
      own = [.ofLine line (.element element) inside] ∧
      (head.within = .markup ∧ readForest nested = .ok inside ∨
        head.within ≠ .markup ∧
          readTextBlock line head.tag (LineTree.rawNested (.mk line nested)) = .ok inside) := by
  rw [readTree.eq_def] at reads
  dsimp only at reads
  split at reads
  · rename_i text
    exact absurd text (noComment _)
  · rename_i text
    exact absurd text (noComment _)
  · rw [noSimple] at reads
    obtain ⟨found, same, reads⟩ := except_bind_eq_ok.mp reads
    cases same
    dsimp only at reads
    split at reads
    · obtain ⟨head, readsHead, reads⟩ := except_bind_eq_ok.mp reads
      split at reads
      · rename_i dot
        obtain ⟨body, readsBody, same⟩ := except_bind_eq_ok.mp reads
        cases same
        exact ⟨head, _, body, readsHead, ⟨rfl, rfl, rfl⟩, rfl,
          .inr ⟨(Head.within_of_dot dot).1, readsBody⟩⟩
      · rename_i noDot
        obtain ⟨element, readsElement, reads⟩ := except_bind_eq_ok.mp reads
        obtain ⟨inside, readsNested, same⟩ := except_bind_eq_ok.mp reads
        cases same
        exact ⟨head, element, inside, readsHead, Head.starts_of_readElement readsElement, rfl,
          .inl ⟨if_neg noDot, readsNested⟩⟩
    · cases reads

theorem not_element_of_readSimple :
    readSimple line ≠ .ok (some (.element element)) := by
  intro simple
  rcases readSimple_cases simple with ⟨_, same⟩ | ⟨_, same⟩ | ⟨code, same⟩ | same | ⟨_, same⟩
  case inr.inr.inl => exact Construct.ofCode_ne_element code same.symm
  all_goals cases same

theorem no_element_in_textBlock {tag : List Char} {body : List (List Char)} {items : List Item}
    (reads : readTextBlock line tag body = .ok items) : ¬Holds (Item.IsElement element) items := by
  unfold readTextBlock at reads
  split at reads
  · cases reads
    intro holds
    rcases holds.of_single with is | ⟨nests, -⟩
    · cases is
    · cases nests
  · induction body generalizing items with
    | nil =>
        cases reads
        intro holds
        cases holds
    | cons text rest ih =>
        rw [List.mapM_cons] at reads
        obtain ⟨item, readsItem, reads⟩ := except_bind_eq_ok.mp reads
        obtain ⟨more, readsMore, same⟩ := except_bind_eq_ok.mp reads
        cases same
        obtain ⟨pieces, -, rfl⟩ := of_map_ok readsItem
        intro holds
        cases holds with
        | here is => cases is
        | inside _ holds => cases holds
        | after holds => exact ih readsMore holds

theorem no_element_in_comment {text : List Char} {body : List (List Char)} :
    ¬Holds (Item.IsElement element) [readComment line text body] := by
  intro holds
  rcases holds.of_single with is | ⟨-, holds⟩
  · cases is
  · change Holds _ (if body.isEmpty then [] else [.ofLine line (.raw body) []]) at holds
    split at holds
    · cases holds
    · rcases holds.of_single with is | ⟨nests, -⟩
      · cases is
      · cases nests

def StartsElement (line : Line) (element : Element) : Prop :=
  readSimple line = .ok none ∧ ∃ head, readHead line = .ok head ∧ head.Starts element

theorem readsElements : ReadsElements within StartsElement readTree readForest := by
  intro line nested items element reads holds
  have whole := reads
  rw [readTree.eq_def] at reads
  dsimp only at reads
  split at reads
  · cases reads
    cases holds
  · cases reads
    exact absurd holds no_element_in_comment
  · rename_i noComment
    obtain ⟨construct?, simple, reads⟩ := except_bind_eq_ok.mp reads
    cases construct? with
    | some construct =>
        obtain ⟨inside, readsNested, same⟩ := except_bind_eq_ok.mp reads
        cases same
        rcases holds.of_single with is | ⟨nests, holds⟩
        · change construct = .element element at is
          rw [is] at simple
          exact absurd simple not_element_of_readSimple
        · exact .inr ⟨within_of_nests noComment simple nests, inside, readsNested, holds⟩
    | none =>
        obtain ⟨head, own, inside, readsHead, starts, same, readsInside⟩ :=
          readTree_element noComment simple whole
        cases same
        rcases holds.of_single with is | ⟨-, holds⟩
        · cases is
          exact .inl ⟨simple, head, readsHead, starts⟩
        · rcases readsInside with ⟨markup, readsNested⟩ | ⟨-, readsBlock⟩
          · rw [← within_of_head noComment simple readsHead] at markup
            exact .inr ⟨markup, inside, readsNested, holds⟩
          · exact absurd holds (no_element_in_textBlock readsBlock)

end Jade

/-! ## Elements of a source -/

variable {dialect : Dialect} {rules : LineRules} {source : String} {items : List Item}

def ElementOf : Dialect → Line → Element → Prop
  | .haml, line, element => Haml.readElement line = .ok element
  | .jade, line, element => Jade.StartsElement line element
  | .native, _, _ => False

theorem element_of_page (ruled : lineRules? dialect = some rules)
    (page : pageOf dialect source = .ok items) (holds : Holds (Item.IsElement element) items) :
    ∃ line nested, ⟨.markup, .mk line nested⟩ ∈ LineTree.sourcePlaces rules source.toList ∧
      ElementOf dialect line element := by
  obtain ⟨trees, built, reads⟩ := except_bind_eq_ok.mp page
  rw [LineTree.sourcePlaces, built]
  cases dialect with
  | haml =>
      cases ruled
      exact Haml.lineReader.element_of_forest Haml.readsElements trees reads holds
  | jade =>
      cases ruled
      exact Jade.lineReader.element_of_forest Jade.readsElements trees reads holds
  | native => cases ruled

def Item.element? (item : Item) : Option Element :=
  match item.construct with
  | .element element => some element
  | _ => none

theorem exists_element {p : Element → Bool}
    (found : ((pageOf dialect source).toOption.any fun items =>
      items.any fun item => item.element?.any p) = true) :
    ∃ items element, pageOf dialect source = .ok items ∧ Holds (Item.IsElement element) items ∧
      p element = true := by
  cases page : pageOf dialect source with
  | error complaint =>
      rw [page] at found
      cases found
  | ok items =>
      rw [page] at found
      obtain ⟨item, member, is⟩ := List.any_eq_true.mp found
      obtain ⟨element, same, is⟩ := (Option.any_eq_true _ _).mp is
      obtain ⟨front, after, rfl⟩ := List.append_of_mem member
      refine ⟨_, element, rfl, .append_left front (.here ?_), is⟩
      unfold Item.element? at same
      split at same
      · rename_i construct
        cases same
        exact construct
      · cases same

end ThemeRender.Markup
